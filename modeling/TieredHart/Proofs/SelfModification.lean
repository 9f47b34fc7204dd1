import TieredHart.Proofs.Chronicle

namespace TieredHart

-- Only the frame code is fetched from is in the state of being overwritten, and that frame is cold.
def Watch.Confined (watch : Watch) : Prop :=
  ∀ f, watch.state f = .smcDetected → watch.fetch = some f ∧ ∀ pa, Page.frame pa = f → watch.heat pa = 0

namespace Watch

variable {watch now : Watch} {record : List Occurrence} {occurrence : Occurrence} {pa : Nat}

theorem enter_state {frame f : Nat} (hit : (watch.enter frame).state f = .smcDetected) :
    watch.state f = .smcDetected ∧ (watch.fetch = some f → f = frame) := by
  change (if watch.fetch = some f ∧ f ≠ frame then FrameState.normal else watch.state f) = _ at hit
  split at hit
  · cases hit
  · rename_i stays
    exact ⟨hit, fun fetched => Classical.byContradiction fun away => stays ⟨fetched, away⟩⟩

theorem Confined.enter (confined : watch.Confined) (frame : Nat) : (watch.enter frame).Confined := by
  intro f hit
  obtain ⟨before, here⟩ := enter_state hit
  obtain ⟨fetched, cold⟩ := confined f before
  exact ⟨congrArg some (here fetched).symm, cold⟩

theorem Confined.missed (confined : watch.Confined) (calm : watch.state (Page.frame pa) ≠ .smcDetected) (f : Nat) :
    (watch.enter (Page.frame pa)).state f ≠ .smcDetected := by
  intro hit
  obtain ⟨before, here⟩ := enter_state hit
  cases here (confined f before).1
  exact calm before

theorem Confined.write (confined : watch.Confined) (pa len : Nat) : (watch.write pa len).Confined := by
  intro f hit
  change (if watch.fetch = some f ∧ _ then _ else _) = _ at hit
  have cold : ∀ addr, watch.heat addr = 0 → (watch.write pa len).heat addr = 0 := by
    intro addr cold
    show (if _ then 0 else _) = 0
    rw [cold]
    split <;> rfl
  split at hit
  · rename_i written
    refine ⟨written.1, fun addr here => ?_⟩
    exact if_pos (here ▸ written.2.2)
  · obtain ⟨fetched, before⟩ := confined f hit
    exact ⟨fetched, fun addr here => cold addr (before addr here)⟩

theorem Confined.step (confined : watch.Confined) (admits : watch.Admits occurrence) :
    (watch.apply occurrence).Confined := by
  cases occurrence with
  | entered pa manner queued =>
    cases manner with
    | forced => exact confined.enter _
    | compiled => exact confined.enter _
    | missed =>
      have calm : watch.state (Page.frame pa) ≠ .smcDetected := fun hit => nomatch admits.1.mpr hit
      intro f hit
      exact absurd hit (confined.missed calm f)
  | wrote pa len => exact confined.write pa len
  | drained => exact confined

theorem Path.confined (path : watch.Path record now) (confined : watch.Confined) : now.Confined := by
  induction path with
  | start => exact confined
  | step _ admits ih => exact ih.step admits

end Watch

structure Engine.Spared (engine after : Engine) : Prop where
  queue : after.queue = engine.queue
  counts : ∃ blocks insns, after.counts = { engine.counts with
    forcedInterp := engine.counts.forcedInterp + 1
    interpBlocks := blocks
    interpInsns := insns }
  heat : ∀ pa, after.cache.frames.heat pa ≤ engine.cache.frames.heat pa

namespace LoopM

variable {core : Core Engine} {pa : Nat}

theorem enterBlock_spared (hit : core.device.cache.frames.state (Page.frame pa) = .smcDetected) (fuel : Nat)
    (space : AddressSpace) (pc : Word) : Ends (enterBlock fuel space pc pa) core
      (fun _ after => core.device.Spared after.device) fun _ after => core.device.Spared after.device := by
  unfold enterBlock
  rw [ends_bind, ends_onEngine]
  refine (Engine.enterFrame_watch (Page.frame pa) core.device).mono ?_ fun _ _ => False.elim
  rintro _ entered ⟨watched, counts, queue⟩
  have still : entered.cache.frames.state (Page.frame pa) = .smcDetected :=
    (congrFun (congrArg Watch.state watched) _).trans ((Watch.enter_here ..).trans hit)
  have fetching : entered.fetchFrame = some (Page.frame pa) := congrArg Watch.fetch watched
  have cooler : ∀ (after : Engine) writes, after.watch = entered.watch.overwrite writes →
      ∀ addr, after.cache.frames.heat addr ≤ core.device.cache.frames.heat addr := by
    intro after writes overwritten addr
    have heat : entered.watch.heat addr = core.device.cache.frames.heat addr := congrFun (congrArg Watch.heat watched) addr
    calc after.cache.frames.heat addr = (entered.watch.overwrite writes).heat addr :=
          congrFun (congrArg Watch.heat overwritten) addr
      _ ≤ entered.watch.heat addr := Watch.overwrite_cools ..
      _ = core.device.cache.frames.heat addr := heat
  have interpreted : Ends (runInterpreted space pa) ⟨core.hart, { entered with
      counts := { entered.counts with forcedInterp := entered.counts.forcedInterp + 1 } }⟩ _ _ :=
    runInterpreted_watch fetching
  rw [ends_bind, ends_get, if_pos still, ends_bind, ends_onEngine]
  refine interpreted.mono ?_ ?_
  · rintro _ after ⟨overwritten, queued, n, tallied⟩
    refine ⟨queued.trans queue, ⟨core.device.counts.interpBlocks + 1, core.device.counts.interpInsns + n, ?_⟩,
      cooler after.device _ overwritten⟩
    rw [tallied, ← counts]
  · rintro _ after ⟨writes, worked⟩
    refine ⟨worked.queue.trans queue, ⟨core.device.counts.interpBlocks, core.device.counts.interpInsns, ?_⟩,
      cooler after.device _ worked.watch⟩
    rw [worked.counts, ← counts]

theorem enterBlock_interprets (hit : core.device.cache.frames.state (Page.frame pa) = .smcDetected) (fuel fuel' : Nat)
    (space : AddressSpace) (pc : Word) : enterBlock fuel space pc pa core = enterBlock fuel' space pc pa core := by
  obtain ⟨_, entered, entering, watched, -⟩ := (Engine.enterFrame_watch (Page.frame pa) core.device).answers
  have still : entered.cache.frames.state (Page.frame pa) = .smcDetected :=
    (congrFun (congrArg Watch.state watched) _).trans ((Watch.enter_here ..).trans hit)
  have enters := onEngine_answers entering
  have here : (get : LoopM (Core Engine)) ⟨core.hart, entered⟩ = .ok ⟨core.hart, entered⟩ ⟨core.hart, entered⟩ := rfl
  unfold enterBlock
  rw [EStateM.bind_ok enters, EStateM.bind_ok enters, EStateM.bind_ok here, EStateM.bind_ok here, if_pos still, if_pos still]

end LoopM

namespace Engine

variable {engine : Engine} {ram : Ram} {config : Config} {past : List Occurrence}

def Confined (engine : Engine) : Prop :=
  ∀ f, engine.cache.frames.state f = .smcDetected →
    engine.fetchFrame = some f ∧ ∀ pa, Page.frame pa = f → engine.cache.frames.heat pa = 0

theorem Chronicle.confined {spaces : AddressSpace → Prop} (chronicle : Chronicle spaces config ram past engine) :
    engine.watch.Confined := by
  obtain ⟨_, new, built, path⟩ := chronicle.path
  obtain ⟨-, normal, -⟩ := setup_watch built
  refine path.confined fun f hit => ?_
  rw [normal] at hit
  cases hit

-- Whatever guests, address spaces and handlers an engine has served, it is confined whenever a call is over, and also
-- between any two blocks of a run. A block entered in a frame that is being overwritten is interpreted without a look at
-- compiled code, warms nothing and asks for nothing.
theorem Chronicle.overwritten_interpreted (chronicle : Chronicle (fun _ => True) config ram past engine) :
    engine.Confined ∧
    (∀ {τ : Type} (space : AddressSpace) (handler : TrapHandler τ) (memory kept : τ) (hart : Hart) (blocks : Nat)
      (chain : Option Nat) (core : Core Engine),
      LoopM.Underway space handler memory ⟨hart, engine⟩ blocks chain kept core → core.device.Confined) ∧
    ∀ (fuel fuel' : Nat) (space : AddressSpace) (pc : Word) (pa : Nat) (core : Core Engine),
      core.device.cache.frames.state (Page.frame pa) = .smcDetected →
      LoopM.enterBlock fuel space pc pa core = LoopM.enterBlock fuel' space pc pa core ∧
      Ends (LoopM.enterBlock fuel space pc pa) core (fun _ after => core.device.Spared after.device)
        fun _ after => core.device.Spared after.device := by
  refine ⟨chronicle.confined, ?_, ?_⟩
  · intro τ space handler memory kept hart blocks chain core underway
    obtain ⟨record, path⟩ := underway.path
    exact path.confined chronicle.confined
  · intro fuel fuel' space pc pa core hit
    exact ⟨LoopM.enterBlock_interprets hit fuel fuel' space pc, LoopM.enterBlock_spared hit fuel space pc⟩

-- A page whose first instruction stores to the page itself, before an environment call.
def overwritingPage : Ram :=
  ⟨0, ([0x23, 0, 0, 0x04, 0x73, 0, 0, 0] ++ List.replicate 4088 0 : List UInt8).toArray, by decide +kernel⟩

theorem overwritingPage_interpreted : ∃ past engine, Chronicle (fun _ => True) {} overwritingPage past engine ∧
    engine.cache.frames.state 0 = .smcDetected ∧ engine.Confined ∧
    Ends (LoopM.enterBlock 9 .bare 0 4) ⟨Hart.reset, engine⟩ (fun _ after => engine.Spared after.device)
      fun _ after => engine.Spared after.device := by
  have computed : ∃ new, setup {} overwritingPage = .ok (.ok new) ∧
      ∃ answer core, LoopM.run 9 .bare halting none () ⟨{ Hart.reset with pc := 0 }, new⟩ = .ok answer core ∧
      core.device.cache.frames.state 0 = .smcDetected := by
    decide +kernel
  obtain ⟨new, built, _, core, ran, hit⟩ := computed
  have chronicle : Chronicle (fun _ => True) {} overwritingPage _ core.device := .run (.setup built) trivial ran
  obtain ⟨confined, -, spared⟩ := chronicle.overwritten_interpreted
  exact ⟨_, core.device, chronicle, hit, confined, (spared 9 9 .bare 0 4 ⟨Hart.reset, core.device⟩ hit).2⟩

end Engine
end TieredHart
