import TieredHart.Engine.Store
import TieredHart.Proofs.Publication

namespace TieredHart

structure FrameTable.Advances (fs : List Nat) (frames frames' : FrameTable) : Prop where
  base : frames'.base = frames.base
  count : frames'.frames.size = frames.frames.size
  grows : ∀ f, frames.version f ≤ frames'.version f
  moved : ∀ f ∈ fs, frames.covers f = true → frames.version f < frames'.version f
  still : ∀ f, f ∉ fs → frames'.version f = frames.version f

theorem FrameTable.Alike.advances {frames frames' : FrameTable} (alike : Alike frames frames') : Advances [] frames frames' :=
  ⟨alike.base, alike.count, fun f => Nat.le_of_eq (alike.version f).symm, nofun, fun f _ => alike.version f⟩

theorem FrameTable.Advances.trans {frames frames' frames'' : FrameTable} {fs gs : List Nat}
    (first : Advances fs frames frames') (second : Advances gs frames' frames'') :
    Advances (fs ++ gs) frames frames'' := by
  refine ⟨second.base.trans first.base, second.count.trans first.count,
    fun f => Nat.le_trans (first.grows f) (second.grows f), ?_, ?_⟩
  · intro f member covered
    rcases List.mem_append.mp member with early | late
    · exact Nat.lt_of_lt_of_le (first.moved f early covered) (second.grows f)
    · refine Nat.lt_of_le_of_lt (first.grows f) (second.moved f late ?_)
      rw [covers_same first.base first.count]
      exact covered
  · intro f away
    rw [List.mem_append, not_or] at away
    exact (second.still f away.2).trans (first.still f away.1)

def Event.trap? : Event → Option (Trap × Word)
  | .trapped trap pc => some (trap, pc)
  | _ => none

namespace Cache

def traps (cache : Cache) : List (Trap × Word) := cache.journal.toList.filterMap Event.trap?

theorem traps_report (cache : Cache) (event : Event) : (cache.report event).traps = cache.traps ++ event.trap?.toList := by
  unfold traps report
  rw [Array.toList_push, List.filterMap_append]
  cases event <;> rfl

structure Rewritten (fs : List Nat) (cache cache' : Cache) : Prop where
  installed : ∀ block ∈ cache'.installed, ∃ old ∈ cache.installed, block.Like old
  arena : cache'.arena = cache.arena
  frames : cache.frames.Advances fs cache'.frames
  traps : cache'.traps = cache.traps

variable {cache : Cache}

theorem removeAll_journal (cache : Cache) (pas : List Nat) : (cache.removeAll pas).2.journal = cache.journal := by
  induction pas generalizing cache with
  | nil => rfl
  | cons pa rest ih =>
    unfold removeAll
    cases removed : cache.remove pa .invalidated with
    | none => exact ih cache
    | some after =>
      refine (ih after).trans ?_
      unfold remove at removed
      cases found : cache.find? pa with
      | none => rw [found] at removed; cases removed
      | some block => rw [found] at removed; cases removed; rfl

theorem dropFrame_traps (cache : Cache) (f : Nat) : (cache.dropFrame f).2.traps = cache.traps := by
  have quiet : ∀ pas, (removeAll { cache with frames := cache.frames.clearEntries f } pas).2.traps = cache.traps :=
    fun pas => congrArg (·.toList.filterMap Event.trap?) (removeAll_journal _ pas)
  unfold dropFrame
  dsimp only
  split
  · rw [traps_report, quiet]
    exact List.append_nil _
  · exact quiet _

theorem frameWritten_frames (cache : Cache) (fetch : Option Nat) (f : Nat) :
    ((cache.dropFrame f).2.frames.bump f).Alike (cache.frameWritten fetch f).2.frames := by
  unfold frameWritten
  dsimp only
  split
  · exact (FrameTable.Alike.cool f).trans (.setState f _)
  · exact .cool f

theorem frameWritten_entries (cache : Cache) (fetch : Option Nat) (f g : Nat) :
    (cache.frameWritten fetch f).2.frames.entries g = (cache.dropFrame f).2.frames.entries g := by
  unfold frameWritten
  dsimp only
  split <;> simp

theorem frameWritten_orderly (orderly : cache.Orderly) (fetch : Option Nat) (f : Nat) :
    (cache.frameWritten fetch f).2.Orderly ∧ Rewritten [f] cache (cache.frameWritten fetch f).2 := by
  have sheds := dropFrame_sheds orderly.keys f
  have dropped := orderly.sheds sheds
  have alike := frameWritten_frames cache fetch f
  have entries := frameWritten_entries cache fetch f
  have version : ∀ g, (cache.frameWritten fetch f).2.frames.version g =
      if g = f ∧ cache.frames.covers f = true then cache.frames.version g + 1 else cache.frames.version g := by
    intro g
    rw [alike.version, FrameTable.version_bump, sheds.toWithin.frames.covers, sheds.frames.version]
  have covers : ∀ g, (cache.frameWritten fetch f).2.frames.covers g = cache.frames.covers g := by
    intro g
    rw [alike.covers]
    exact FrameTable.covers_modify.trans (sheds.toWithin.frames.covers g)
  refine ⟨⟨dropped.keys, dropped.invalid, dropped.pool, dropped.apart, dropped.whole, dropped.room, ?_, ?_⟩,
    sheds.installed, sheds.arena, ⟨?_, ?_, ?_, ?_, ?_⟩, dropFrame_traps cache f⟩
  · intro block member page stamped
    have live := dropped.live block member page stamped
    rw [sheds.frames.version] at live
    rw [version, if_neg, live]
    rintro ⟨rfl, covered⟩
    obtain ⟨old, there, like⟩ := sheds.installed block member
    have listed := orderly.listed old there page (like.stamp ▸ stamped) covered
    exact sheds.absent block member (like.entryPa ▸ listed)
  · intro block member page stamped covered
    rw [entries]
    rw [covers, ← sheds.toWithin.frames.covers] at covered
    exact dropped.listed block member page stamped covered
  · exact alike.base.trans (FrameTable.modify_base.trans sheds.frames.base)
  · exact alike.count.trans (FrameTable.modify_count.trans sheds.frames.count)
  · intro g
    rw [version]
    split <;> omega
  · intro g member covered
    cases List.mem_singleton.mp member
    rw [version, if_pos ⟨rfl, covered⟩]
    omega
  · intro g away
    rw [version, if_neg fun same => away (List.mem_singleton.mpr same.1)]

theorem Rewritten.trans {fs gs : List Nat} {cache' cache'' : Cache} (first : Rewritten fs cache cache')
    (second : Rewritten gs cache' cache'') : Rewritten (fs ++ gs) cache cache'' := by
  refine ⟨?_, second.arena.trans first.arena, first.frames.trans second.frames, second.traps.trans first.traps⟩
  intro block member
  obtain ⟨middle, there, like⟩ := second.installed block member
  obtain ⟨old, here, alike⟩ := first.installed middle there
  exact ⟨old, here, like.trans alike⟩

theorem framesWritten_orderly (orderly : cache.Orderly) (fetch : Option Nat) (fs : List Nat) :
    (cache.framesWritten fetch fs).2.Orderly ∧ Rewritten fs cache (cache.framesWritten fetch fs).2 := by
  induction fs generalizing cache with
  | nil => exact ⟨orderly, (Within.refl cache).installed, rfl, (FrameTable.Alike.refl _).advances, rfl⟩
  | cons f rest ih =>
    obtain ⟨middle, one⟩ := frameWritten_orderly orderly fetch f
    obtain ⟨final, others⟩ := ih middle
    exact ⟨final, one.trans others⟩

end Cache

structure Engine.Sound (engine : Engine) : Prop where
  framed : engine.ram.Framed engine.cache.frames
  cache : engine.cache.Sound engine.ram
  queue : ∀ request ∈ engine.queue.waiting, ∀ next, request.nextPage = some next → next % 4096 = 0

namespace Engine

variable {engine : Engine} {pa : Nat} {data : List UInt8} {fetch : Option Nat}

theorem mem_framesOf {addr len : Nat} (low : pa ≤ addr) (high : addr < pa + len) : Page.frame addr ∈ framesOf pa len := by
  unfold framesOf Page.frame
  rw [List.mem_range'_1]
  omega

structure Stored (engine : Engine) (pa : Nat) (data : List UInt8) (fetch : Option Nat)
    (answer : Except OutOfRange StoreEffect) (after : Engine) : Prop where
  sound : after.Sound
  evolves : Evolves engine.ram engine.cache.frames after.ram after.cache.frames
  still : ∀ f, f ∉ framesOf pa data.length → after.cache.frames.version f = engine.cache.frames.version f
  traps : after.cache.traps = engine.cache.traps
  refused : ∀ range, answer = .error range → after = engine ∧ engine.ram.write pa data = .ok (.error range)
  written : ∀ effect, answer = .ok effect → data ≠ [] → engine.ram.write pa data = .ok (.ok after.ram) ∧
    effect.samePage = (framesOf pa data.length).any fun frame => fetch = some frame

theorem Stored.nothing (sound : engine.Sound) {answer : Except OutOfRange StoreEffect}
    (refused : ∀ range, answer = .error range → engine.ram.write pa data = .ok (.error range))
    (empty : ∀ effect, answer = .ok effect → data = []) : engine.Stored pa data fetch answer engine :=
  ⟨sound, .refl _ _, fun _ _ => rfl, rfl, fun range same => ⟨rfl, refused range same⟩,
    fun effect same filled => absurd (empty effect same) filled⟩

theorem written_evolves {cache' : Cache} (holds : engine.ram.Holds pa data.length)
    (written : Cache.Rewritten (framesOf pa data.length) engine.cache cache') :
    Evolves engine.ram engine.cache.frames (engine.ram.writeBytes pa data) cache'.frames := by
  refine ⟨rfl, Ram.writeBytes_size, written.frames.base, written.frames.count, written.frames.grows, ?_⟩
  intro addr low covered same
  refine Ram.writeBytes_outside holds low ?_
  rcases Nat.lt_or_ge addr pa with below | above
  · exact .inl below
  · rcases Nat.lt_or_ge addr (pa + data.length) with inside | beyond
    · have moved := written.frames.moved _ (mem_framesOf above inside) covered
      omega
    · exact .inr beyond

-- All that a store can come to: no bytes and so nothing, a range that memory does not have, or the range and its frames
-- written, which is reported if code is fetched from one of them.
inductive StoreDone (engine : Engine) (pa : Nat) (data : List UInt8) (fetch : Option Nat) :
    Except OutOfRange StoreEffect → Engine → Prop where
  | empty {effect : StoreEffect} (blank : data = []) : StoreDone engine pa data fetch (.ok effect) engine
  | refused {range : OutOfRange} (got : engine.ram.write pa data = .ok (.error range)) :
      StoreDone engine pa data fetch (.error range) engine
  | wrote {removed : Nat} {cache : Cache} (filled : data ≠ []) (holds : engine.ram.Holds pa data.length)
      (got : engine.ram.write pa data = .ok (.ok (engine.ram.writeBytes pa data)))
      (noted : cache = (engine.cache.framesWritten fetch (framesOf pa data.length)).2 ∨
        cache = (engine.cache.framesWritten fetch (framesOf pa data.length)).2.report (.storeToExecuting (Page.frame pa))) :
      StoreDone engine pa data fetch (.ok ⟨removed, (framesOf pa data.length).any fun frame => fetch = some frame⟩)
        { engine with ram := engine.ram.writeBytes pa data, cache := cache }

-- A store fails the host only by where it ends, or if memory itself does not fit, and then nothing was done.
theorem store_done (pa : Nat) (data : List UInt8) (fetch : Option Nat) (engine : Engine) :
    Ends (store pa data fetch) engine (engine.StoreDone pa data fetch) fun failure after => after = engine ∧
      (failure = .storeEnd pa data.length ∧ hostLimit ≤ pa + data.length ∨ ¬ engine.ram.Fits) := by
  unfold store
  by_cases empty : data = []
  · subst empty
    exact .empty rfl
  rw [if_neg (by simpa using empty)]
  by_cases beyond : hostLimit ≤ pa + data.length
  · rw [if_pos beyond]
    exact ⟨rfl, .inl ⟨rfl, beyond⟩⟩
  rw [if_neg beyond, ends_bind, ends_get, ends_bind, ends_ofExcept]
  refine ⟨fun answer got => ?_, fun failure failed => ⟨rfl, .inr (Ram.write_error failed)⟩⟩
  cases answer with
  | error range => exact .refused got
  | ok ram =>
    obtain ⟨-, holds, rfl⟩ := Ram.write_ok got
    rw [ends_bind, ends_modifyGet]
    dsimp only
    split
    · exact .wrote empty holds got (.inr rfl)
    · exact .wrote empty holds got (.inl rfl)

theorem store_stored (sound : engine.Sound) : Ends (store pa data fetch) engine (engine.Stored pa data fetch)
    fun failure _ => failure = .storeEnd pa data.length ∧ hostLimit ≤ pa + data.length ∨ ¬ engine.ram.Fits := by
  refine (store_done pa data fetch engine).mono ?_ fun _ _ failed => failed.2
  intro answer after done
  cases done with
  | empty blank => exact .nothing sound nofun fun _ _ => blank
  | refused got => exact .nothing sound (fun other same => by cases same; exact got) nofun
  | wrote filled holds got noted =>
    obtain ⟨orderly, written⟩ := Cache.framesWritten_orderly sound.cache.toOrderly fetch (framesOf pa data.length)
    have evolves := written_evolves holds written
    have cache : (engine.cache.framesWritten fetch (framesOf pa data.length)).2.Sound
        (engine.ram.writeBytes pa data) := by
      refine ⟨orderly, ?_⟩
      intro block member
      obtain ⟨old, there, like⟩ := written.installed block member
      rw [written.arena]
      exact (sound.cache.backed old there).within like sound.framed evolves
    have framed := evolves.framed sound.framed
    rcases noted with rfl | rfl
    · exact ⟨⟨framed, cache, sound.queue⟩, evolves, written.frames.still, written.traps, nofun,
        fun effect same _ => by cases same; exact ⟨got, rfl⟩⟩
    · refine ⟨⟨framed, cache.sheds framed (.same rfl rfl rfl rfl rfl), sound.queue⟩, evolves, written.frames.still, ?_, nofun,
        fun effect same _ => by cases same; exact ⟨got, rfl⟩⟩
      exact (Cache.traps_report _ _).trans ((List.append_nil _).trans written.traps)

end Engine
end TieredHart
