import TieredHart.Engine.Dispatch
import TieredHart.Proofs.Compilation
import TieredHart.Proofs.QueueProtocol

namespace TieredHart

inductive Manner where
  | forced
  | compiled
  | missed
  deriving DecidableEq

inductive Occurrence where
  | entered (pa : Nat) (manner : Manner) (queued : Bool)
  | wrote (pa len : Nat)
  | drained
  deriving DecidableEq

@[ext] structure Watch where
  tracked : Nat → Bool
  threshold : Nat
  fetch : Option Nat
  state : Nat → FrameState
  heat : Nat → Nat
  -- Addresses whose compilation is waiting, oldest first.
  waiting : List Nat

namespace Watch

def enter (watch : Watch) (frame : Nat) : Watch :=
  { watch with
    fetch := some frame
    state := fun f => if watch.fetch = some f ∧ f ≠ frame then .normal else watch.state f }

def warm (watch : Watch) (pa : Nat) : Watch :=
  { watch with heat := fun addr =>
      if addr / 2 = pa / 2 ∧ watch.tracked (Page.frame pa) = true then min (watch.heat addr + 1) FrameTable.heatLimit
      else watch.heat addr }

def write (watch : Watch) (pa len : Nat) : Watch :=
  { watch with
    state := fun f =>
      if watch.fetch = some f ∧ watch.tracked f = true ∧ f ∈ Engine.framesOf pa len then .smcDetected else watch.state f
    heat := fun addr => if Page.frame addr ∈ Engine.framesOf pa len then 0 else watch.heat addr }

def queue (watch : Watch) (pas : List Nat) : Watch := { watch with waiting := watch.waiting ++ pas }

def apply (watch : Watch) : Occurrence → Watch
  | .entered pa .missed queued => ((watch.enter (Page.frame pa)).warm pa).queue (if queued then [pa] else [])
  | .entered pa _ _ => watch.enter (Page.frame pa)
  | .wrote pa len => watch.write pa len
  | .drained => { watch with waiting := [] }

-- A block is forced into interpretation by the state of its frame alone, and queued only at a miss that found it hot.
def Admits (watch : Watch) : Occurrence → Prop
  | .entered pa manner queued => (manner = .forced ↔ watch.state (Page.frame pa) = .smcDetected) ∧
      (queued = true → manner = .missed ∧ watch.threshold ≤ (watch.apply (.entered pa manner queued)).heat pa)
  | _ => True

inductive Path (watch : Watch) : List Occurrence → Watch → Prop where
  | start : Path watch [] watch
  | step {record : List Occurrence} {now : Watch} {occurrence : Occurrence} (path : Path watch record now)
      (admits : now.Admits occurrence) : Path watch (occurrence :: record) (now.apply occurrence)

theorem Path.trans {watch now after : Watch} {record later : List Occurrence} (first : watch.Path record now)
    (second : now.Path later after) : watch.Path (later ++ record) after := by
  induction second with
  | start => exact first
  | step _ admits ih => exact ih.step admits

theorem enter_here (watch : Watch) (frame : Nat) : (watch.enter frame).state frame = watch.state frame :=
  if_neg fun away => away.2 rfl

def overwrite (watch : Watch) (writes : List (Nat × Nat)) : Watch :=
  writes.foldr (fun write watch => watch.write write.1 write.2) watch

theorem overwrite_path (watch : Watch) (writes : List (Nat × Nat)) :
    watch.Path (writes.map fun write => .wrote write.1 write.2) (watch.overwrite writes) := by
  induction writes with
  | nil => exact .start
  | cons write older ih => exact ih.step trivial

@[simp] theorem overwrite_fetch (watch : Watch) (writes : List (Nat × Nat)) :
    (watch.overwrite writes).fetch = watch.fetch := by
  induction writes with
  | nil => rfl
  | cons write older ih => exact ih

theorem overwrite_cools (watch : Watch) (writes : List (Nat × Nat)) (pa : Nat) :
    (watch.overwrite writes).heat pa ≤ watch.heat pa := by
  induction writes with
  | nil => exact Nat.le_refl _
  | cons write older ih =>
    show (if _ then 0 else _) ≤ _
    split
    · exact Nat.zero_le _
    · exact ih

theorem overwrite_append (watch : Watch) (later writes : List (Nat × Nat)) :
    watch.overwrite (later ++ writes) = (watch.overwrite writes).overwrite later := List.foldr_append ..

end Watch

structure FrameTable.Calm (frames after : FrameTable) : Prop where
  covers : after.covers = frames.covers
  state : after.state = frames.state
  heat : after.heat = frames.heat

namespace FrameTable.Calm

variable {frames middle after : FrameTable}

theorem refl (frames : FrameTable) : Calm frames frames := ⟨rfl, rfl, rfl⟩

theorem trans (first : Calm frames middle) (second : Calm middle after) : Calm frames after :=
  ⟨second.covers.trans first.covers, second.state.trans first.state, second.heat.trans first.heat⟩

theorem modify {change : Frame → Frame} (f : Nat) (state : ∀ frame, (change frame).state = frame.state)
    (heat : ∀ frame, (change frame).heat = frame.heat) : Calm frames (frames.modify f change) :=
  ⟨funext fun _ => covers_modify, funext fun _ => state_modify state, funext fun _ => heat_modify heat⟩

theorem register (pa f : Nat) : Calm frames (frames.register pa f) := modify f (fun _ => rfl) fun _ => rfl

theorem unregister (pa f : Nat) : Calm frames (frames.unregister pa f) := modify f (fun _ => rfl) fun _ => rfl

theorem foldl {step : FrameTable → Nat → FrameTable} (each : ∀ frames f, Calm frames (step frames f)) (fs : List Nat) :
    Calm frames (fs.foldl step frames) := by
  induction fs generalizing frames with
  | nil => exact .refl _
  | cons f rest ih => exact (each frames f).trans ih

end FrameTable.Calm

structure FrameTable.Overwritten (fetch : Option Nat) (fs : List Nat) (frames after : FrameTable) : Prop where
  covers : after.covers = frames.covers
  state : ∀ f, after.state f =
    if fetch = some f ∧ frames.covers f = true ∧ f ∈ fs then .smcDetected else frames.state f
  heat : ∀ pa, after.heat pa = if Page.frame pa ∈ fs then 0 else frames.heat pa

theorem FrameTable.Overwritten.trans {fetch : Option Nat} {fs gs : List Nat} {frames middle after : FrameTable}
    (first : Overwritten fetch fs frames middle) (second : Overwritten fetch gs middle after) :
    Overwritten fetch (fs ++ gs) frames after := by
  refine ⟨second.covers.trans first.covers, fun f => ?_, fun pa => ?_⟩
  · rw [second.state, first.state, first.covers]
    grind
  · rw [second.heat, first.heat]
    grind

theorem FrameTable.Calm.overwritten {frames middle : FrameTable} (calm : frames.Calm middle) (fetch : Option Nat)
    (f : Nat) : frames.Overwritten fetch [f]
      (if fetch = some f then ((middle.bump f).cool f).setState f .smcDetected else (middle.bump f).cool f) := by
  have bumped : frames.Calm (middle.bump f) := calm.trans (.modify f (fun _ => rfl) fun _ => rfl)
  have covers : ((middle.bump f).cool f).covers = frames.covers :=
    funext fun g => covers_modify.trans (congrFun bumped.covers g)
  have cooled : ∀ g, ((middle.bump f).cool f).state g = frames.state g := fun g =>
    state_cool.trans (congrFun bumped.state g)
  have cold : ∀ pa, ((middle.bump f).cool f).heat pa = if Page.frame pa ∈ [f] then 0 else frames.heat pa := by
    intro pa
    rw [heat_cool, bumped.heat]
    simp
  by_cases fetched : fetch = some f
  · rw [if_pos fetched]
    refine ⟨(funext fun g => covers_modify).trans covers, fun g => ?_, fun pa => ?_⟩
    · rw [state_setState, covers, cooled, fetched]
      grind
    · exact heat_setState.trans (cold pa)
  · rw [if_neg fetched]
    refine ⟨covers, fun g => ?_, cold⟩
    rw [cooled, if_neg]
    rintro ⟨here, -, member⟩
    exact fetched (here.trans (congrArg some (List.mem_singleton.mp member)))

namespace Cache

def Calm (cache after : Cache) : Prop := cache.frames.Calm after.frames ∧ after.threshold = cache.threshold

variable {cache middle after : Cache}

namespace Calm

theorem refl (cache : Cache) : Calm cache cache := ⟨.refl _, rfl⟩

theorem trans (first : Calm cache middle) (second : Calm middle after) : Calm cache after :=
  ⟨first.1.trans second.1, second.2.trans first.2⟩

theorem remove {pa : Nat} {why : Departure} (removed : cache.remove pa why = some after) : Calm cache after := by
  unfold Cache.remove at removed
  split at removed
  · cases removed
  · cases removed
    exact ⟨.foldl (fun _ f => .unregister pa f) _, rfl⟩

theorem removeAll (cache : Cache) (pas : List Nat) : Calm cache (cache.removeAll pas).2 := by
  induction pas generalizing cache with
  | nil => exact .refl _
  | cons pa rest ih =>
    unfold Cache.removeAll
    cases removed : cache.remove pa .invalidated with
    | none => exact ih cache
    | some after => exact (remove removed).trans (ih after)

theorem dropFrame (cache : Cache) (f : Nat) : Calm cache (cache.dropFrame f).2 := by
  have cleared : Calm cache { cache with frames := cache.frames.clearEntries f } :=
    ⟨.modify f (fun _ => rfl) fun _ => rfl, rfl⟩
  have removed := cleared.trans (removeAll _ (cache.frames.entries f))
  unfold Cache.dropFrame
  dsimp only
  split <;> exact removed

theorem cleared (cleared : Cleared cache after) : Calm cache after := by
  induction cleared with
  | start => exact .refl _
  | recycled _ ran ih =>
    obtain ⟨kept, pool, -, rfl⟩ := recycle_parts ran
    exact ih
  | @evicted middle pa _ _ ih =>
    refine ih.trans ?_
    cases left : (victim middle).2.remove pa .evicted with
    | none => exact ⟨.refl _, rfl⟩
    | some after =>
      have removed := remove left
      exact removed
  | exhausted _ _ ih => exact ih

theorem enter (cache : Cache) (block : Block) : Calm cache (cache.enter block) :=
  ⟨.foldl (fun _ f => .register block.entryPa f) _, rfl⟩

theorem published {code : HostCode} {answer : Except Refusal Block} (published : Published code cache answer after) :
    Calm cache after := by
  cases published with
  | stale => exact .refl _
  | occupied => exact .refl _
  | refused _ _ made => exact cleared made
  | seated _ _ given seated =>
    obtain ⟨-, -, entered⟩ := seated
    cases given with
    | given made _ =>
      rw [entered.after]
      exact (cleared made).trans (enter _ _)

end Calm

theorem frameWritten_overwritten (cache : Cache) (fetch : Option Nat) (f : Nat) :
    cache.frames.Overwritten fetch [f] (cache.frameWritten fetch f).2.frames ∧
      (cache.frameWritten fetch f).2.threshold = cache.threshold := by
  obtain ⟨dropped, threshold⟩ := Calm.dropFrame cache f
  exact ⟨dropped.overwritten fetch f, threshold⟩

theorem framesWritten_overwritten (cache : Cache) (fetch : Option Nat) (fs : List Nat) :
    cache.frames.Overwritten fetch fs (cache.framesWritten fetch fs).2.frames ∧
      (cache.framesWritten fetch fs).2.threshold = cache.threshold := by
  induction fs generalizing cache with
  | nil => exact ⟨⟨rfl, fun f => (if_neg (by simp)).symm, fun pa => (if_neg (by simp)).symm⟩, rfl⟩
  | cons f rest ih =>
    obtain ⟨one, same⟩ := frameWritten_overwritten cache fetch f
    obtain ⟨others, same'⟩ := ih (cache.frameWritten fetch f).2
    exact ⟨one.trans others, same'.trans same⟩

end Cache

namespace Engine

variable {engine after : Engine} {pa : Nat}

def watch (engine : Engine) : Watch where
  tracked := engine.cache.frames.covers
  threshold := engine.cache.threshold
  fetch := engine.fetchFrame
  state := engine.cache.frames.state
  heat := engine.cache.frames.heat
  waiting := engine.queue.waiting.map (·.entryPa)

theorem watch_calm (calm : engine.cache.Calm after.cache) (fetch : after.fetchFrame = engine.fetchFrame)
    (queue : after.queue = engine.queue) : after.watch = engine.watch := by
  unfold watch
  rw [calm.1.covers, calm.1.state, calm.1.heat, calm.2, fetch, queue]

structure Worked (writes : List (Nat × Nat)) (engine after : Engine) : Prop where
  watch : after.watch = engine.watch.overwrite writes
  counts : after.counts = engine.counts
  queue : after.queue = engine.queue

namespace Worked

variable {writes later : List (Nat × Nat)} {final : Engine}

theorem refl (engine : Engine) : Worked [] engine engine := ⟨rfl, rfl, rfl⟩

theorem trans (first : Worked writes engine after) (second : Worked later after final) :
    Worked (later ++ writes) engine final := by
  refine ⟨?_, second.counts.trans first.counts, second.queue.trans first.queue⟩
  rw [second.watch, first.watch, Watch.overwrite_append]

theorem reported (engine : Engine) (event : Event) :
    Worked [] engine { engine with cache := engine.cache.report event } := ⟨rfl, rfl, rfl⟩

theorem fetch (worked : Worked writes engine after) : after.fetchFrame = engine.fetchFrame := by
  have same : after.watch.fetch = engine.watch.fetch := by rw [worked.watch, Watch.overwrite_fetch]
  exact same

end Worked

def written (pa len : Nat) : Except OutOfRange StoreEffect → List (Nat × Nat)
  | .ok _ => if len = 0 then [] else [(pa, len)]
  | .error _ => []

theorem store_worked (pa : Nat) (data : List UInt8) (engine : Engine) :
    Ends (store pa data engine.fetchFrame) engine
      (fun answer after => engine.Worked (written pa data.length answer) after) fun _ after => after = engine := by
  refine (store_done pa data engine.fetchFrame engine).mono ?_ fun _ _ failed => failed.1
  intro answer after done
  cases done with
  | empty blank =>
    subst blank
    exact .refl engine
  | refused got => exact .refl engine
  | wrote filled holds got noted =>
    obtain ⟨overwritten, threshold⟩ :=
      engine.cache.framesWritten_overwritten engine.fetchFrame (framesOf pa data.length)
    have worked : engine.Worked [(pa, data.length)] { engine with
        ram := engine.ram.writeBytes pa data
        cache := (engine.cache.framesWritten engine.fetchFrame (framesOf pa data.length)).2 } := by
      refine ⟨?_, rfl, rfl⟩
      unfold watch
      dsimp only
      rw [overwritten.covers, threshold, funext overwritten.state, funext overwritten.heat]
      rfl
    have nonzero : data.length ≠ 0 := fun zero => filled (List.length_eq_zero_iff.mp zero)
    unfold written
    rw [if_neg nonzero]
    rcases noted with rfl | rfl
    · exact worked
    · exact worked.trans (.reported _ _)

theorem enterFrame_watch (f : Nat) (engine : Engine) : Ends (enterFrame f) engine
    (fun _ after => after.watch = engine.watch.enter f ∧ after.counts = engine.counts ∧ after.queue = engine.queue)
    fun _ _ => False := by
  unfold enterFrame
  rw [ends_bind, ends_get]
  cases fetched : engine.fetchFrame with
  | none =>
    refine ⟨?_, rfl, rfl⟩
    unfold watch Watch.enter
    simp [fetched]
  | some previous =>
    dsimp only
    split
    · rename_i left
      have covered := FrameTable.covers_of_state left.2
      refine ⟨Watch.ext (funext fun _ => FrameTable.covers_modify) rfl rfl (funext fun g => ?_)
        (funext fun _ => FrameTable.heat_setState) rfl, rfl, rfl⟩
      refine FrameTable.state_setState.trans ?_
      show _ = if engine.fetchFrame = some g ∧ g ≠ f then .normal else engine.cache.frames.state g
      rw [fetched]
      grind
    · rename_i stays
      refine ⟨Watch.ext rfl rfl rfl (funext fun g => ?_) rfl rfl, rfl, rfl⟩
      show engine.cache.frames.state g = if engine.fetchFrame = some g ∧ g ≠ f then .normal else _
      rw [fetched]
      split
      · rename_i left
        obtain ⟨⟨⟩, away⟩ := left
        cases state : engine.cache.frames.state previous with
        | normal => rfl
        | smcDetected => exact absurd ⟨away, state⟩ stays
      · rfl

theorem count_watch (change : RunCounts → RunCounts) (engine : Engine) :
    Ends (count change) engine (fun _ after => after.watch = engine.watch) fun _ _ => False := rfl

theorem refreshShortcuts_watch (engine : Engine) :
    Ends refreshShortcuts engine (fun _ after => after.watch = engine.watch) fun _ _ => False := by
  unfold refreshShortcuts
  rw [ends_modify]
  split <;> rfl

theorem lookupBlock_watch (pa : Nat) (engine : Engine) : Ends (lookupBlock pa) engine
    (fun _ after => after.watch = engine.watch ∧ after.queue = engine.queue) fun _ _ => False := by
  unfold lookupBlock
  rw [ends_modifyGet]
  split
  · exact ⟨rfl, rfl⟩
  · unfold Cache.lookup
    cases engine.cache.find? pa with
    | none => exact ⟨rfl, rfl⟩
    | some block => exact ⟨rfl, rfl⟩

theorem usableBlock_watch (space : AddressSpace) (pc : Word) (pa : Nat) (engine : Engine) :
    Ends (usableBlock space pc pa) engine (fun _ after => after.watch = engine.watch ∧ after.queue = engine.queue)
      fun _ _ => True := by
  unfold usableBlock
  rw [ends_bind]
  refine (lookupBlock_watch pa engine).mono ?_ fun _ _ => False.elim
  intro found after same
  cases found with
  | none => exact same
  | some block =>
    dsimp only
    rw [ends_bind, ends_get]
    split
    · exact same
    · split
      · trivial
      · exact same

def queuedBy (pa : Nat) (engine after : Engine) : List Nat := if engine.queue.pending < after.queue.pending then [pa] else []

theorem promote_watch (space : AddressSpace) (pc : Word) (pa : Nat) (engine : Engine) :
    Ends (promote space pc pa) engine (fun _ after => after.watch = engine.watch.queue (queuedBy pa engine after))
      fun _ _ => False := by
  have nothing : ∀ after : Engine, after.watch = engine.watch → after.queue = engine.queue →
      after.watch = engine.watch.queue (queuedBy pa engine after) := by
    intro after same queue
    unfold queuedBy Watch.queue
    rw [queue, if_neg (Nat.lt_irrefl _), same, List.append_nil]
  unfold promote
  rw [ends_bind, ends_get]
  dsimp only
  split
  · exact nothing engine rfl rfl
  · have offered := engine.queue.offer_offered ⟨pa, pc, (space .fetch pc.nextPage).map (·.pa)⟩
    generalize engine.queue.offer _ = answer at offered ⊢
    rw [ends_bind, ends_modify]
    cases offered with
    | busy _ => exact nothing _ rfl rfl
    | full _ _ => exact nothing _ rfl rfl
    | sent _ _ _ =>
      refine Watch.ext rfl rfl rfl rfl rfl ?_
      show (engine.queue.waiting ++ _).map _ = engine.queue.waiting.map _ ++ queuedBy pa engine _
      rw [List.map_append]
      exact congrArg _ (if_pos (by simp [RequestQueue.pending])).symm

theorem miss_watch (space : AddressSpace) (pc : Word) (pa : Nat) (engine : Engine) :
    Ends (miss space pc pa) engine (fun _ after =>
      after.watch = (engine.watch.warm pa).queue (queuedBy pa engine after) ∧
        (engine.queue.pending < after.queue.pending → engine.watch.threshold ≤ (engine.watch.warm pa).heat pa))
      fun _ _ => False := by
  have warmed : Engine.watch { engine with cache := { engine.cache with frames := engine.cache.frames.warm pa } } =
      engine.watch.warm pa := by
    refine Watch.ext (funext fun _ => FrameTable.covers_modify) rfl rfl (funext fun _ => FrameTable.state_warm)
      (funext fun _ => FrameTable.heat_warm) rfl
  unfold miss
  rw [ends_bind, ends_modify, ends_bind, ends_get]
  dsimp only
  split
  · rename_i hot
    refine (promote_watch space pc pa _).weaken ?_
    intro _ after promoted
    rw [warmed] at promoted
    exact ⟨promoted, fun _ => by rw [← warmed]; exact hot⟩
  · refine ⟨?_, fun more => absurd more (Nat.lt_irrefl _)⟩
    rw [warmed]
    unfold queuedBy Watch.queue
    rw [if_neg (Nat.lt_irrefl _), List.append_nil]

theorem fulfil_watch (request : CompileRequest) (engine : Engine) :
    Ends (fulfil request) engine (fun _ after => after.watch = engine.watch) fun _ _ => True := by
  have phased : Ends (phases request) engine (fun _ after => after.watch = engine.watch) fun _ _ => True := by
    unfold phases
    rw [ends_bind]
    refine (capture_captured request engine).mono ?_ fun _ _ _ => trivial
    rintro answer _ ⟨rfl, -⟩
    cases answer with
    | error refusal => exact rfl
    | ok taken =>
      unfold compile compileWith
      simp only [ends_bind, ends_get, ends_ofExcept]
      refine ⟨fun answer _ => ?_, fun _ _ => trivial⟩
      cases answer with
      | error refusal => exact rfl
      | ok code =>
        simp only [ends_bind]
        show Ends (publish code) _ _ _
        unfold publish
        rw [ends_onCache]
        refine (Cache.publish_published code _).weaken fun _ cache published => ?_
        have calm := Cache.Calm.published published
        exact watch_calm calm rfl rfl
  unfold fulfil
  rw [ends_bind]
  refine phased.weaken fun answer after same => ?_
  cases answer with
  | ok block => exact same
  | error refusal => exact same

theorem fulfilFrom_watch (more : Nat) (engine : Engine) : Ends (fulfilFrom more) engine
    (fun _ after => after.watch = { engine.watch with waiting := engine.watch.waiting.drop more }) fun _ _ => True := by
  induction more generalizing engine with
  | zero => exact rfl
  | succ more ih =>
    unfold fulfilFrom RequestQueue.receive?
    rw [ends_bind, ends_get]
    cases waiting : engine.queue.waiting with
    | nil =>
      refine Watch.ext rfl rfl rfl rfl rfl ?_
      unfold watch
      simp [waiting]
    | cons request rest =>
      simp only [ends_bind, ends_modify]
      refine (fulfil_watch request _).weaken fun answer middle same => ?_
      refine (ih middle).weaken fun count after later => ?_
      rw [ends_pure, later, same]
      refine Watch.ext rfl rfl rfl rfl rfl ?_
      unfold watch
      simp [waiting]

theorem fulfilAll_watch (engine : Engine) :
    Ends fulfilAll engine (fun _ after => after.watch = engine.watch.apply .drained) fun _ _ => True := by
  unfold fulfilAll
  rw [ends_bind, ends_get]
  refine (fulfilFrom_watch _ engine).weaken fun _ after drained => drained.trans ?_
  refine Watch.ext rfl rfl rfl rfl rfl ?_
  unfold watch RequestQueue.pending
  simp [Watch.apply]

end Engine
end TieredHart
