import TieredHart.Proofs.IndexAgreement
import TieredHart.Proofs.Tenancy

namespace TieredHart

namespace Cache

variable {cache after : Cache} {deed : Deed} {code : HostCode} {block : Block} {answer : Except Refusal Block}

theorem Cleared.alike (cleared : Cleared cache after) : cache.frames.Alike after.frames := by
  induction cleared with
  | start => exact .refl _
  | recycled _ ran ih =>
    obtain ⟨kept, pool, -, rfl⟩ := recycle_parts ran
    exact ih
  | evicted _ _ ih =>
    rename_i middle pa _ _
    refine ih.trans ?_
    cases left : (victim middle).2.remove pa .evicted with
    | none => exact .refl _
    | some after =>
      obtain ⟨block, removed⟩ := remove_removed left
      rw [Option.getD_some, removed.frames]
      exact .foldl (fun _ f => .unregister pa f) _
  | exhausted _ _ ih => exact ih

theorem Granted.alike {size : Nat} {answer : Except Refusal Extent} (granted : Granted cache size answer after) :
    cache.frames.Alike after.frames := by
  cases granted with
  | given cleared _ => exact cleared.alike
  | refused cleared => exact cleared.alike

theorem Seated.alike {data : List UInt8} {host : Extent} (seated : Seated code data host cache block after) :
    cache.frames.Alike after.frames := by
  obtain ⟨-, -, entered⟩ := seated
  rw [entered.after]
  exact enter_alike ..

theorem Published.alike (published : Published code cache answer after) : cache.frames.Alike after.frames := by
  cases published with
  | stale => exact .refl _
  | occupied => exact .refl _
  | refused _ _ cleared => exact cleared.alike
  | seated _ _ given seated => exact given.alike.trans seated.alike

theorem Effect.advances (effect : cache.Effect deed after) (whole : deed.Whole) (orderly : cache.Orderly) :
    cache.frames.Advances deed.touched after.frames := by
  cases effect with
  | undisturbed same => exact same.frames.advances
  | used id => exact (FrameTable.Alike.refl _).advances
  | dropped f => exact (dropFrame_sheds orderly.keys f).frames.advances
  | recycled ran =>
    obtain ⟨kept, pool, -, rfl⟩ := recycle_parts ran
    exact (FrameTable.Alike.refl _).advances
  | published published => exact published.alike.advances
  | filled filled =>
    cases filled with
    | refused cleared => exact cleared.alike.advances
    | seated _ given seated => exact (given.alike.trans seated.alike).advances
  | reserved granted => exact granted.alike.advances
  | placed => exact whole.elim
  | seated => exact whole.elim
  | stored same =>
    have written := (framesWritten_orderly orderly _ _).2.frames.trans same.frames.advances
    rwa [List.append_nil] at written

-- Addresses keep their blocks as long as nothing is retired, and an address that gets one had none.
structure Stands (deed : Deed) (cache after : Cache) : Prop where
  retirements : cache.retirements ≤ after.retirements
  stays : after.retirements = cache.retirements → ∀ pa, cache.contains pa = true → after.contains pa = true
  arrives : ∀ pa, deed.installsAt pa = true → cache.contains pa = false ∧ after.contains pa = true

theorem Kept.stands {lent : List Extent} (kept : Kept lent cache after) (nothing : ∀ pa, deed.installsAt pa = false) :
    Stands deed cache after := by
  refine ⟨kept.retirements, kept.stays, ?_⟩
  intro pa arrives
  rw [nothing] at arrives
  cases arrives

theorem contains_enter (cache : Cache) (block : Block) (pa : Nat) :
    (cache.enter block).contains pa = (pa = block.entryPa || cache.contains pa) := by
  unfold contains
  rw [find_enter]
  by_cases here : pa = block.entryPa <;> simp [here]

theorem Seated.keeps {data : List UInt8} {host : Extent} {lent : List Extent} {middle : Cache} (kept : Kept lent cache middle)
    (seated : Seated code data host middle block after) : cache.retirements ≤ after.retirements ∧
      (after.retirements = cache.retirements → ∀ pa, cache.contains pa = true → after.contains pa = true) ∧
      after.contains code.entryPa = true := by
  obtain ⟨-, -, entered⟩ := seated
  rw [entered.after]
  refine ⟨kept.retirements, ?_, ?_⟩
  · intro same pa there
    have held : middle.contains pa = true := kept.stays same pa there
    rw [contains_enter, Bool.or_eq_true]
    exact .inr held
  · rw [contains_enter]
    simp [blockOf]

theorem Published.stands (published : Published code cache answer after) (orderly : cache.Orderly) :
    Stands (.published code answer) cache after := by
  cases published with
  | stale => exact (Kept.refl cache).stands fun _ => rfl
  | occupied => exact (Kept.refl cache).stands fun _ => rfl
  | refused _ _ cleared => exact (cleared.kept orderly).2.stands fun _ => rfl
  | seated _ free given seated =>
    obtain ⟨-, kept, -⟩ := given.lends orderly
    obtain ⟨retirements, stays, there⟩ := seated.keeps kept
    refine ⟨retirements, stays, ?_⟩
    intro pa arrives
    cases of_decide_eq_true arrives
    exact ⟨free, there⟩

theorem Effect.stands (effect : cache.Effect deed after) (whole : deed.Whole) (orderly : cache.Orderly) :
    Stands deed cache after := by
  cases effect with
  | undisturbed same => exact same.kept.stands fun _ => rfl
  | used id => exact (markUsed_kept cache id).stands fun _ => rfl
  | dropped f => exact (dropFrame_kept orderly.keys f).stands fun _ => rfl
  | recycled ran => exact (recycle_kept orderly ran).stands fun _ => rfl
  | published published => exact published.stands orderly
  | filled filled =>
    cases filled with
    | refused cleared => exact (cleared.kept orderly).2.stands fun _ => rfl
    | seated _ given seated =>
      obtain ⟨-, kept, -⟩ := given.lends orderly
      obtain ⟨retirements, stays, -⟩ := seated.keeps kept
      exact ⟨retirements, stays, nofun⟩
  | reserved granted =>
    cases granted with
    | given cleared took => exact (Granted.lends (.given cleared took) orderly).2.1.stands fun _ => rfl
    | refused cleared => exact (cleared.kept orderly).2.stands fun _ => rfl
  | placed => exact whole.elim
  | seated => exact whole.elim
  | stored same => exact ((framesWritten_kept orderly _ _).trans same.kept).stands fun _ => rfl

end Cache

theorem Stamp.moved_eq {stamp : Stamp} {live : Nat → Nat} {fs : List Nat}
    (written : ∀ page ∈ stamp.pages, live page.frame ≠ page.version ↔ page.frame ∈ fs) :
    stamp.moved? live = stamp.frames.find? (· ∈ fs) := by
  unfold moved? frames
  generalize stamp.pages = pages at written
  induction pages with
  | nil => rfl
  | cons page rest ih =>
    have here := written page (List.mem_cons_self ..)
    have later := ih fun other there => written other (List.mem_cons_of_mem _ there)
    by_cases moved : live page.frame = page.version
    · have unwritten : page.frame ∉ fs := fun there => here.mpr there moved
      simpa [moved, unwritten] using later
    · simp [moved, here.mp moved]

namespace Engine

variable {start engine final : Engine} {deeds : List Deed}

def touched (deeds : List Deed) : List Nat := deeds.flatMap Deed.touched

theorem History.orderly (history : History start deeds final) (whole : ∀ deed ∈ deeds, deed.Whole)
    (orderly : start.cache.Orderly) : final.cache.Orderly := by
  induction history with
  | nil => exact orderly
  | cons does _ ih =>
    exact ih (fun deed there => whole deed (List.mem_cons_of_mem _ there))
      (does.effect.orderly (whole _ (List.mem_cons_self ..)) orderly)

theorem History.advances (history : History start deeds final) (whole : ∀ deed ∈ deeds, deed.Whole)
    (orderly : start.cache.Orderly) : start.cache.frames.Advances (touched deeds) final.cache.frames := by
  induction history with
  | nil => exact (FrameTable.Alike.refl _).advances
  | cons does _ ih =>
    have first := whole _ (List.mem_cons_self ..)
    exact (does.effect.advances first orderly).trans
      (ih (fun deed there => whole deed (List.mem_cons_of_mem _ there)) (does.effect.orderly first orderly))

theorem History.memory (history : History start deeds final) :
    final.ram.base = start.ram.base ∧ final.ram.size = start.ram.size := by
  induction history with
  | nil => exact ⟨rfl, rfl⟩
  | cons does _ ih => exact ⟨ih.1.trans does.memory.1, ih.2.trans does.memory.2⟩

theorem History.stands (history : History start deeds final) (whole : ∀ deed ∈ deeds, deed.Whole)
    (orderly : start.cache.Orderly) (pa : Nat) : start.cache.retirements ≤ final.cache.retirements ∧
      (final.cache.retirements = start.cache.retirements →
        deeds.countP (·.installsAt pa) + (start.cache.contains pa).toNat ≤ (final.cache.contains pa).toNat) := by
  induction history with
  | nil => simp
  | @cons before middle after deed rest does _ ih =>
    have first := whole _ (List.mem_cons_self ..)
    have stands := does.effect.stands first orderly
    obtain ⟨grows, count⟩ := ih (fun other there => whole other (List.mem_cons_of_mem _ there))
      (does.effect.orderly first orderly)
    have low := stands.retirements
    refine ⟨Nat.le_trans low grows, fun same => ?_⟩
    have later := count (by omega)
    have stays := stands.stays (by omega) pa
    rw [List.countP_cons]
    by_cases arrives : deed.installsAt pa = true
    · obtain ⟨free, there⟩ := stands.arrives pa arrives
      rw [there] at later
      rw [if_pos arrives, free]
      simpa using later
    · rw [if_neg arrives]
      cases held : before.cache.contains pa with
      | false => simpa using Nat.le_of_add_right_le later
      | true =>
        rw [stays held] at later
        simpa using later

-- What comes of code that is offered: frames of its stamp that were written decide first, then the map, then the arena.
structure Decided (deeds : List Deed) (code : HostCode) (engine : Engine) (answer : Except Refusal Block) (after : Engine) :
    Prop where
  stale : ∀ frame, answer = .error (.staleSnapshot frame) ↔ code.stamp.frames.find? (· ∈ touched deeds) = some frame
  occupied : (∀ frame ∈ code.stamp.frames, frame ∉ touched deeds) → ∀ pa, answer = .error (.alreadyInstalled pa) ↔
    pa = code.entryPa ∧ engine.cache.contains code.entryPa = true
  otherwise : (∀ frame ∈ code.stamp.frames, frame ∉ touched deeds) → engine.cache.contains code.entryPa = false →
    (∃ block, answer = .ok block) ∨ answer = .error (.arenaExhausted code.code.size)
  unchanged : (∃ frame, answer = .error (.staleSnapshot frame)) ∨ (∃ pa, answer = .error (.alreadyInstalled pa)) →
    after = engine
  installed : ∀ block, answer = .ok block → after.cache.find? code.entryPa = some block ∧ block.stamp = code.stamp ∧
    ∀ page ∈ block.stamp.pages, after.cache.frames.version page.frame = page.version

theorem publish_decided {code : HostCode} (orderly : engine.cache.Orderly) (compiled : code.Compiled)
    (written : ∀ page ∈ code.stamp.pages, engine.cache.frames.version page.frame ≠ page.version ↔
      page.frame ∈ touched deeds) :
    ∃ answer after, publish code engine = .ok answer after ∧ Decided deeds code engine answer after := by
  have moves := Stamp.moved_eq written
  have untouched : code.stamp.frames.find? (· ∈ touched deeds) = none ↔
      ∀ frame ∈ code.stamp.frames, frame ∉ touched deeds := by simp
  have answers : Ends (publish code) engine (fun _ _ => True) fun _ _ => False := by
    unfold publish
    rw [ends_onCache]
    exact Cache.ends_publish orderly compiled.small (fun _ => trivial) (fun _ _ _ _ => trivial)
      fun _ _ _ _ _ _ _ _ _ _ => trivial
  obtain ⟨answer, after, ran, -⟩ := answers.answers
  refine ⟨answer, after, ran, ?_⟩
  obtain ⟨cache, done, rfl⟩ := onCache_ok ran
  cases (Cache.publish_published code engine.cache).answer done with
  | stale moved =>
    rw [moves] at moved
    have struck : ¬ ∀ frame ∈ code.stamp.frames, frame ∉ touched deeds := by
      rw [← untouched, moved]
      exact nofun
    exact ⟨by simp [moved], fun spared => absurd spared struck, fun spared => absurd spared struck, fun _ => rfl, nofun⟩
  | occupied live there =>
    rw [moves] at live
    exact ⟨by simp [live], by simp [there, eq_comm], by simp [there], fun _ => rfl, nofun⟩
  | refused live free cleared =>
    rw [moves] at live
    exact ⟨by simp [live], by simp [free], fun _ _ => .inr rfl, by simp, nofun⟩
  | seated live free given seated =>
    rw [moves] at live
    refine ⟨by simp [live], by simp [free], fun _ _ => .inl ⟨_, rfl⟩, by simp, ?_⟩
    rintro block ⟨⟩
    obtain ⟨-, -, entered⟩ := seated
    refine ⟨entered.find, by rw [entered.block]; rfl, ?_⟩
    have stamped := Stamp.moved_none.mp entered.live
    intro page there
    rw [entered.block] at there
    rw [entered.after]
    exact ((Cache.enter_alike _ _).version _).trans (stamped page there)

theorem stampOf_pages {taken : Snapshot} {body : Body} {page : FrameVersion}
    (there : page ∈ (Compile.stampOf taken body).pages) : page ∈ taken.stamp.pages := by
  unfold Compile.stampOf Stamp.pages at there
  unfold Stamp.pages
  cases crosses : body.crosses with
  | true => simpa [crosses] using there
  | false =>
    rw [crosses] at there
    exact List.mem_cons.mpr (.inl (List.mem_singleton.mp there))

theorem Captured.stamps {request : CompileRequest} {taken : Snapshot} (captured : Captured request engine (.ok taken))
    (framed : engine.ram.Framed engine.cache.frames) (aligned : engine.ram.base % 4096 = 0) :
    ∀ page ∈ taken.stamp.pages, engine.cache.frames.version page.frame = page.version ∧
      engine.cache.frames.covers page.frame = true := by
  cases captured with
  | page _ _ inside =>
    intro page there
    cases List.mem_singleton.mp there
    exact ⟨rfl, framed.covers_rest inside⟩
  | pages _ _ inside _ beyond =>
    intro page there
    rcases List.mem_cons.mp there with rfl | second
    · exact ⟨rfl, framed.covers_rest inside⟩
    · cases List.mem_singleton.mp second
      exact ⟨rfl, framed.covers_aligned aligned beyond Nat.two_pos⟩

theorem History.built {config : Config} {ram : Ram} {host : Host} (built : setup config ram host = .ok (.ok start))
    (history : History start deeds final) (whole : ∀ deed ∈ deeds, deed.Whole) :
    final.cache.Orderly ∧ final.cache.Indexed ∧ final.ram.Framed final.cache.frames ∧ final.ram.base = ram.base := by
  obtain ⟨sound, rfl⟩ := setup_sound built
  have orderly := sound.cache.toOrderly
  have advances := history.advances whole orderly
  obtain ⟨base, size⟩ := history.memory
  refine ⟨history.orderly whole orderly, history.indexed (setup_indexed built), ⟨?_, ?_⟩, base⟩
  · rw [advances.base, sound.framed.base, Ram.baseFrame, Ram.baseFrame, base]
  · rw [advances.count, sound.framed.count, Ram.pages, Ram.pages, size]

-- Code is refused exactly for what happened since its capture, and an address gets at most one block as long as none
-- leaves the cache.
theorem History.commit_decided {config : Config} {ram : Ram} {past : List Deed} (aligned : ram.base % 4096 = 0)
    {host : Host} (built : setup config ram host = .ok (.ok start)) (before : History start past engine)
    (wholeBefore : ∀ deed ∈ past, deed.Whole) (between : History engine deeds final)
    (wholeBetween : ∀ deed ∈ deeds, deed.Whole) :
    (∀ request taken after poll interval maxInsns code, capture request engine = .ok (.ok taken) after →
      Compile.compile poll interval maxInsns taken = .ok (.ok code) →
      ∃ answer after, publish code final = .ok answer after ∧ Decided deeds code final answer after) ∧
    (final.cache.counts.evictions = engine.cache.counts.evictions →
      final.cache.counts.invalidations = engine.cache.counts.invalidations →
      ∀ pa, deeds.countP (·.installsAt pa) ≤ 1) := by
  obtain ⟨orderly, indexed, framed, base⟩ := before.built built wholeBefore
  have advances := between.advances wholeBetween orderly
  constructor
  · intro request taken after poll interval maxInsns code captured compiled
    have stamps := ((capture_captured request engine).answer captured).2.stamps framed (by rw [base]; exact aligned)
    refine publish_decided (between.orderly wholeBetween orderly) ⟨taken, poll, interval, maxInsns, compiled⟩ ?_
    intro page there
    rcases Compile.compile_laid poll interval maxInsns taken with ⟨-, other, same, -, stamp, -⟩ | empty
    · rw [compiled] at same
      cases same
      rw [stamp] at there
      obtain ⟨live, covered⟩ := stamps page (stampOf_pages there)
      rw [← live]
      constructor
      · intro moved
        exact Decidable.byContradiction fun away => moved (advances.still page.frame away)
      · intro written
        have grown := advances.moved page.frame written covered
        omega
    · rw [compiled] at empty
      cases empty
  · intro evictions invalidations pa
    have later := (between.indexed indexed).retirements
    have earlier := indexed.retirements
    have room := (between.stands wholeBetween orderly pa).2 (by omega)
    have one : (final.cache.contains pa).toNat ≤ 1 := Bool.toNat_le _
    omega

theorem pageEndLoop_overtaken : ∃ start, setup {} Session.pageEndLoop = .ok (.ok start) ∧
    ∃ taken after, capture ⟨8188, 0, none⟩ start = .ok (.ok taken) after ∧
    ∃ code, Compile.compile 64 64 64 taken = .ok (.ok code) ∧
    ∃ effect final, store 8188 [0x7d] none start = .ok (.ok effect) final ∧ code.stamp.frames = [1] := by
  decide +kernel

theorem pageEndLoop_commit_decided : ∃ start taken after code deeds final,
    setup {} Session.pageEndLoop = .ok (.ok start) ∧ History start [] start ∧ History start deeds final ∧
    (∀ deed ∈ deeds, deed.Whole) ∧ capture ⟨8188, 0, none⟩ start = .ok (.ok taken) after ∧
    Compile.compile 64 64 64 taken = .ok (.ok code) ∧
    (∃ answer later, publish code final = .ok answer later ∧ Decided deeds code final answer later ∧
      answer = .error (.staleSnapshot 1)) ∧
    (final.cache.counts.evictions = start.cache.counts.evictions →
      final.cache.counts.invalidations = start.cache.counts.invalidations →
      ∀ pa, deeds.countP (·.installsAt pa) ≤ 1) := by
  obtain ⟨start, built, taken, after, captured, code, compiled, effect, final, wrote, frames⟩ := pageEndLoop_overtaken
  have between : History start [.stored 8188 [0x7d] (.ok effect)] final := .cons (.store wrote) .nil
  have whole : ∀ deed ∈ [Deed.stored 8188 [0x7d] (.ok effect)], deed.Whole := by simp [Deed.Whole]
  obtain ⟨outcome, once⟩ := History.commit_decided rfl built .nil (fun _ there => absurd there List.not_mem_nil) between whole
  obtain ⟨answer, later, ran, decided⟩ := outcome _ taken after _ _ _ code captured compiled
  have first : code.stamp.frames.find? (· ∈ touched [.stored 8188 [0x7d] (.ok effect)]) = some 1 := by
    rw [frames]
    rfl
  exact ⟨start, taken, after, code, _, final, built, .nil, between, whole, captured, compiled,
    ⟨answer, later, ran, decided, (decided.stale 1).mpr first⟩, once⟩

end Engine
end TieredHart
