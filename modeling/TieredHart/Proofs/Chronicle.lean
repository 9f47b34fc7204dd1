import TieredHart.Proofs.BlockWrites
import TieredHart.Proofs.SplitRuns

namespace TieredHart

variable {α τ : Type} {space : AddressSpace} {handler : TrapHandler τ} {core after : Core Engine} {fuel pa : Nat} {pc : Word}

namespace LoopM

def interpretedWrites (space : AddressSpace) (pa : Nat) (core : Core Engine) : List (Nat × Nat) :=
  writesFrom space (Page.frame pa) (core.device.config.maxBlockInsns - 1) core.hart.pc pa 0 core

def compiledWrites (fuel : Nat) (space : AddressSpace) (block : Block) (pa : Nat) (core : Core Engine) : List (Nat × Nat) :=
  let engine := { core.device with cache := core.device.cache.markUsed block.id }
  match engine.cache.code block with
  | .ok code =>
    ThreadedCode.writesFrom space code (DataSide.codeBus space (Page.frame pa) block.stamp.frames) ⟨core.hart.pc, pa⟩ fuel
      ⟨0, 0, 0⟩ ⟨core.hart, ⟨engine, false⟩⟩
  | .error _ => []

def stores (writes : List (Nat × Nat)) : List Occurrence := writes.map fun write => .wrote write.1 write.2

def following (action : LoopM α) (core : Core Engine) (next : α → Core Engine → List Occurrence) : List Occurrence :=
  match action core with
  | .ok a core => next a core
  | .error .. => []

def dispatchRecord (fuel : Nat) (space : AddressSpace) (pc : Word) (pa : Nat) (core : Core Engine) : List Occurrence :=
  following (onEngine (Engine.enterFrame (Page.frame pa))) core fun _ core =>
    if core.device.cache.frames.state (Page.frame pa) = .smcDetected then
      following (onEngine (Engine.count fun counts => { counts with forcedInterp := counts.forcedInterp + 1 })) core
        fun _ core => stores (interpretedWrites space pa core) ++ [.entered pa .forced false]
    else
      following (onEngine (Engine.usableBlock space pc pa)) core fun found core =>
        match found with
        | some block => stores (compiledWrites fuel space block pa core) ++ [.entered pa .compiled false]
        | none =>
          following (onEngine (Engine.miss space pc pa)) core fun _ missed =>
            stores (interpretedWrites space pa missed) ++
              [.entered pa .missed (core.device.queue.pending < missed.device.queue.pending)]

def nextRecord (fuel : Nat) (space : AddressSpace) (chain : Option Nat) (core : Core Engine) : List Occurrence :=
  match chain with
  | some pa =>
    following (onEngine (Engine.count fun counts => { counts with chained := counts.chained + 1 })) core
      fun _ counted => dispatchRecord fuel space core.hart.pc pa counted
  | none =>
    if core.hart.pc.toNat % 2 = 1 then []
    else
      match space .fetch core.hart.pc with
      | some location => dispatchRecord fuel space core.hart.pc location.pa core
      | none => []

def turnRecord (fuel : Nat) (space : AddressSpace) (chain : Option Nat) (core : Core Engine) : List Occurrence :=
  following (onEngine Engine.refreshShortcuts) core fun _ => nextRecord fuel space chain

def runRecord (space : AddressSpace) (handler : TrapHandler τ) (limit : Option Nat) :
    Nat → Nat → Option Nat → τ → Core Engine → List Occurrence
  | 0, _, _, _, _ => []
  | fuel + 1, blocks, chain, memory, core =>
    if limit.any (· ≤ blocks) then []
    else
      match turn fuel space handler chain memory core with
      | .ok (.again chain' memory) next =>
        runRecord space handler limit fuel (blocks + 1) chain' memory next ++ turnRecord fuel space chain core
      | _ => turnRecord fuel space chain core

theorem following_ok {action : LoopM α} {next : α → Core Engine → List Occurrence} {a : α} {middle : Core Engine}
    (ran : action core = .ok a middle) : following action core next = next a middle := by
  unfold following
  rw [ran]

theorem stores_path (watch : Watch) (writes : List (Nat × Nat)) : watch.Path (stores writes) (watch.overwrite writes) :=
  watch.overwrite_path writes

theorem runInterpreted_watch (fetching : core.device.fetchFrame = some (Page.frame pa)) :
    Ends (runInterpreted space pa) core (fun _ after =>
      after.device.watch = core.device.watch.overwrite (interpretedWrites space pa core) ∧
      after.device.queue = core.device.queue ∧ ∃ n, after.device.counts = { core.device.counts with
        interpBlocks := core.device.counts.interpBlocks + 1
        interpInsns := core.device.counts.interpInsns + n })
      fun _ after => ∃ writes, core.device.Worked writes after.device := by
  unfold runInterpreted
  rw [ends_bind, ends_get, ends_bind]
  refine (interpretFrom_worked _ fetching).weaken ?_
  rintro ⟨n, step⟩ middle worked
  refine ⟨worked.watch, worked.queue, n, ?_⟩
  show { middle.device.counts with
    interpBlocks := middle.device.counts.interpBlocks + 1
    interpInsns := middle.device.counts.interpInsns + n } = _
  rw [worked.counts]

theorem runCompiled_watch {block : Block} (fetching : core.device.fetchFrame = some (Page.frame pa)) :
    Ends (runCompiled fuel space block pa) core
      (fun _ after => after.device.watch = core.device.watch.overwrite (compiledWrites fuel space block pa core))
      fun _ _ => True := by
  unfold runCompiled compiledWrites
  rw [ends_bind, ends_onEngine, ends_modify, ends_bind, ends_get, ends_bind, ends_ofExcept]
  refine ⟨fun code found => ?_, fun _ _ => trivial⟩
  dsimp only at found ⊢
  rw [found, ends_bind, ends_onDataSide]
  refine (ThreadedCode.runFrom_worked fuel fetching).mono ?_ fun _ _ _ => trivial
  intro exit middle worked
  have watched := worked.watch
  rw [ends_bind, ends_setPc, ends_bind, ends_onEngine]
  have tallied : Ends (do
      Engine.count fun counts => { counts with
        compiledBlocks := counts.compiledBlocks + 1
        compiledInsns := counts.compiledInsns + exit.insns }
      match exit.refusedCsr with
      | some csr => Engine.report (.refusedCsr csr exit.nextPc)
      | none => pure ()
      Engine.report (.ran pa exit)) middle.device.engine (fun _ after => after.watch = middle.device.engine.watch)
        fun _ _ => True := by
    cases exit.refusedCsr <;> exact rfl
  refine tallied.weaken fun _ engine same => ?_
  have final := same.trans watched
  cases exit.cause <;> exact final

theorem onEngine_ok {action : EngineM α} {a : α} (ran : onEngine action core = .ok a after) :
    after.hart = core.hart ∧ action core.device = .ok a after.device := by
  unfold onEngine at ran
  cases done : action core.device with
  | ok b engine => rw [done] at ran; cases ran; exact ⟨rfl, rfl⟩
  | error e engine => rw [done] at ran; cases ran

theorem onEngine_answers {action : EngineM α} {a : α} {engine : Engine} (ran : action core.device = .ok a engine) :
    onEngine action core = .ok a ⟨core.hart, engine⟩ := by
  unfold onEngine
  rw [ran]

theorem enterBlock_path {step : Step} (ran : enterBlock fuel space pc pa core = .ok step after) :
    core.device.watch.Path (dispatchRecord fuel space pc pa core) after.device.watch := by
  unfold enterBlock at ran
  obtain ⟨_, entered, entering, ran⟩ := EStateM.bind_eq_ok ran
  obtain ⟨watched, -, queue⟩ := (Engine.enterFrame_watch _ _).answer (onEngine_ok entering).2
  have fetching : entered.device.fetchFrame = some (Page.frame pa) := congrArg Watch.fetch watched
  have state : entered.device.cache.frames.state (Page.frame pa) = core.device.watch.state (Page.frame pa) :=
    (congrFun (congrArg Watch.state watched) _).trans (Watch.enter_here ..)
  unfold dispatchRecord
  rw [following_ok entering]
  change (if entered.device.cache.frames.state (Page.frame pa) = .smcDetected then _ else _ : LoopM Step) entered = _ at ran
  by_cases hit : entered.device.cache.frames.state (Page.frame pa) = .smcDetected
  · rw [if_pos hit] at ran ⊢
    obtain ⟨_, counted, counting, ran⟩ := EStateM.bind_eq_ok ran
    have same := (Engine.count_watch _ _).answer (onEngine_ok counting).2
    obtain ⟨overwritten, -⟩ := (runInterpreted_watch ((congrArg Watch.fetch same).trans fetching)).answer ran
    have first : core.device.watch.Path [.entered pa .forced false] entered.device.watch :=
      watched ▸ .step .start ⟨by rw [← state]; simp [hit], nofun⟩
    rw [following_ok counting, overwritten, same]
    exact first.trans (stores_path _ _)
  · rw [if_neg hit] at ran ⊢
    obtain ⟨found, looked, looking, ran⟩ := EStateM.bind_eq_ok ran
    obtain ⟨same, -⟩ := (Engine.usableBlock_watch _ _ _ _).answer (onEngine_ok looking).2
    have fetching := (congrArg Watch.fetch same).trans fetching
    rw [following_ok looking]
    cases found with
    | some block =>
      have overwritten := (runCompiled_watch fetching).answer ran
      have first : core.device.watch.Path [.entered pa .compiled false] entered.device.watch :=
        watched ▸ .step .start ⟨by rw [← state]; simp [hit], nofun⟩
      dsimp only
      rw [overwritten, same]
      exact first.trans (stores_path _ _)
    | none =>
      obtain ⟨_, missed, missing, ran⟩ := EStateM.bind_eq_ok ran
      obtain ⟨warmed, hot⟩ := (Engine.miss_watch _ _ _ _).answer (onEngine_ok missing).2
      rw [same, watched] at warmed hot
      have watched : missed.device.watch = core.device.watch.apply
          (.entered pa .missed (looked.device.queue.pending < missed.device.queue.pending)) := by
        rw [warmed]
        unfold Engine.queuedBy Watch.apply
        simp only [decide_eq_true_eq]
      have first : core.device.watch.Path
          [.entered pa .missed (looked.device.queue.pending < missed.device.queue.pending)] missed.device.watch :=
        watched ▸ .step .start ⟨by rw [← state]; simp [hit], fun queued => ⟨rfl, hot (of_decide_eq_true queued)⟩⟩
      obtain ⟨overwritten, -⟩ := (runInterpreted_watch ((congrArg Watch.fetch watched))).answer ran
      dsimp only
      rw [following_ok missing, overwritten]
      exact first.trans (stores_path _ _)

theorem raise_watch (trap : Trap) (memory : τ) (core : Core Engine) :
    Ends (raise handler trap memory) core (fun _ after => after.device.watch = core.device.watch) fun _ _ => True :=
  ends_raise (fun _ _ _ _ => rfl) fun _ _ _ => trivial

theorem settle_watch (step : Step) (memory : τ) (core : Core Engine) :
    Ends (settle handler step memory) core (fun _ after => after.device.watch = core.device.watch) fun _ _ => True := by
  cases step with
  | next chain => exact rfl
  | fault fault =>
    unfold settle
    dsimp only
    rw [ends_bind, ends_onEngine]
    show Ends (raise _ _ _ >>= _) ⟨core.hart, _⟩ _ _
    rw [ends_bind]
    refine (raise_watch _ _ _).weaken fun answer final same => ?_
    rcases answer with ⟨_ | _, kept⟩ <;> exact same

theorem takeInterrupt_watch (chain : Option Nat) (memory : τ) (core : Core Engine) :
    Ends (takeInterrupt handler chain memory) core (fun _ after => after.device.watch = core.device.watch)
      fun _ _ => True := by
  unfold takeInterrupt
  rw [ends_bind, ends_get]
  cases core.hart.interruptToTake with
  | none => exact rfl
  | some code =>
    dsimp only
    rw [ends_bind, ends_onEngine]
    show Ends (raise _ _ _ >>= _) ⟨core.hart, _⟩ _ _
    rw [ends_bind]
    refine (raise_watch _ _ _).weaken fun answer final same => ?_
    rcases answer with ⟨_ | _, kept⟩ <;> exact same

theorem runNext_path {chain : Option Nat} {step : Step} (ran : runNext fuel space chain core = .ok step after) :
    core.device.watch.Path (nextRecord fuel space chain core) after.device.watch := by
  unfold runNext at ran
  obtain ⟨_, _, ⟨⟩, ran⟩ := EStateM.bind_eq_ok ran
  unfold nextRecord
  cases chain with
  | some pa =>
    obtain ⟨_, counted, counting, ran⟩ := EStateM.bind_eq_ok ran
    have same := (Engine.count_watch _ _).answer (onEngine_ok counting).2
    dsimp only
    rw [following_ok counting, ← same]
    exact enterBlock_path ran
  | none =>
    dsimp only at ran ⊢
    split
    · rename_i odd
      rw [if_pos odd] at ran
      cases ran
      exact .start
    · rename_i even
      rw [if_neg even] at ran
      cases found : space .fetch core.hart.pc with
      | some location =>
        rw [found] at ran
        exact enterBlock_path ran
      | none =>
        rw [found] at ran
        cases ran
        exact .start

theorem turn_path {chain : Option Nat} {memory : τ} {result : Turn τ}
    (ran : turn fuel space handler chain memory core = .ok result after) :
    core.device.watch.Path (turnRecord fuel space chain core) after.device.watch := by
  unfold turn at ran
  obtain ⟨_, fresh, refreshing, ran⟩ := EStateM.bind_eq_ok ran
  obtain ⟨step, middle, stepped, ran⟩ := EStateM.bind_eq_ok ran
  obtain ⟨settled, final, settling, ran⟩ := EStateM.bind_eq_ok ran
  have refreshed := (Engine.refreshShortcuts_watch _).answer (onEngine_ok refreshing).2
  have same := (settle_watch _ _ _).answer settling
  have path := runNext_path stepped
  unfold turnRecord
  rw [following_ok refreshing, ← refreshed]
  cases settled with
  | ended reason kept =>
    cases ran
    rw [same]
    exact path
  | again chain kept =>
    rw [(takeInterrupt_watch _ _ _).answer ran, same]
    exact path

theorem runFrom_path {limit : Option Nat} (fuel : Nat) : ∀ {blocks chain memory core answer},
    runFrom space handler limit fuel blocks chain memory core = .ok answer after →
    core.device.watch.Path (runRecord space handler limit fuel blocks chain memory core) after.device.watch := by
  induction fuel with
  | zero =>
    intro blocks chain memory core answer ran
    unfold runFrom at ran
    split at ran
    · cases ran
      exact .start
    · cases ran
  | succ fuel ih =>
    intro blocks chain memory core answer ran
    unfold runFrom at ran
    unfold runRecord
    split
    · rename_i reached
      rw [if_pos reached] at ran
      cases ran
      exact .start
    · rename_i short
      rw [if_neg short] at ran
      obtain ⟨result, middle, turned, ran⟩ := EStateM.bind_eq_ok ran
      have path := turn_path turned
      rw [turned]
      cases result with
      | ended reason kept =>
        cases ran
        exact path
      | again chain' kept => exact path.trans (ih ran)

theorem Underway.path {memory kept : τ} {start : Core Engine} {blocks : Nat} {chain : Option Nat}
    (underway : Underway space handler memory start blocks chain kept core) :
    ∃ record, start.device.watch.Path record core.device.watch := by
  induction underway with
  | start => exact ⟨[], .start⟩
  | again _ turned ih =>
    obtain ⟨record, path⟩ := ih
    exact ⟨_, path.trans (turn_path turned)⟩

end LoopM

namespace Engine

variable {engine : Engine} {ram : Ram}

-- Runs through some address spaces, stores by devices and processed compilations in any order, from a new engine, with
-- everything that happened meanwhile, the last first.
inductive Chronicle (spaces : AddressSpace → Prop) (config : Config) (ram : Ram) : List Occurrence → Engine → Prop where
  | setup {engine : Engine} {host : Host} (built : Engine.setup config ram host = .ok (.ok engine)) :
      Chronicle spaces config ram [] engine
  | run {τ : Type} {past : List Occurrence} {engine : Engine} {space : AddressSpace} {handler : TrapHandler τ}
      {limit : Option Nat} {fuel : Nat} {hart : Hart} {memory : τ} {answer : RunEnd × τ} {core : Core Engine}
      (before : Chronicle spaces config ram past engine) (allowed : spaces space)
      (ran : LoopM.run fuel space handler limit memory ⟨hart, engine⟩ = .ok answer core) :
      Chronicle spaces config ram (LoopM.runRecord space handler limit fuel 0 none memory ⟨hart, engine⟩ ++ past) core.device
  | store {past : List Occurrence} {engine after : Engine} {pa : Nat} {data : List UInt8}
      {answer : Except OutOfRange StoreEffect} (before : Chronicle spaces config ram past engine)
      (ran : deviceStore pa data engine = .ok answer after) :
      Chronicle spaces config ram (LoopM.stores (written pa data.length answer) ++ past) after
  | fulfil {past : List Occurrence} {engine after : Engine} {count : Nat}
      (before : Chronicle spaces config ram past engine) (ran : fulfilAll engine = .ok count after) :
      Chronicle spaces config ram (.drained :: past) after

theorem setup_watch {config : Config} {host : Host} (built : setup config ram host = .ok (.ok engine)) :
    engine.watch.threshold = max config.promotionThreshold 1 ∧ (∀ f, engine.watch.state f = .normal) ∧
      (∀ pa, engine.watch.heat pa = 0) ∧ engine.watch.waiting = [] := by
  obtain ⟨arena, event, -, waiting, -, -, cache⟩ := setup_parts built
  have fresh : ∀ f, (FrameTable.fresh ram.baseFrame ram.pages).get f = .fresh := by
    intro f
    unfold FrameTable.get FrameTable.frame? FrameTable.fresh
    dsimp only
    split
    · rw [Array.getElem?_replicate]
      split <;> rfl
    · rfl
  have frames : engine.cache.frames = .fresh ram.baseFrame ram.pages := by rw [cache]; rfl
  refine ⟨?_, fun f => ?_, fun pa => ?_, ?_⟩
  · exact congrArg Cache.threshold cache
  · show engine.cache.frames.state f = _
    rw [frames, FrameTable.state, fresh]
    rfl
  · show engine.cache.frames.heat pa = _
    rw [frames, FrameTable.heat, fresh]
    rfl
  · show engine.queue.waiting.map _ = _
    rw [waiting]
    rfl

-- What an engine knows is what its past made of what it knew when it was new.
theorem Chronicle.path {spaces : AddressSpace → Prop} {config : Config} {past : List Occurrence}
    (chronicle : Chronicle spaces config ram past engine) :
    ∃ host new, Engine.setup config ram host = .ok (.ok new) ∧ new.watch.Path past engine.watch := by
  induction chronicle with
  | setup built => exact ⟨_, _, built, .start⟩
  | run _ _ ran ih =>
    obtain ⟨host, new, built, path⟩ := ih
    exact ⟨host, new, built, path.trans (LoopM.runFrom_path _ ran)⟩
  | @store _ engine _ pa data _ _ ran ih =>
    obtain ⟨host, new, built, path⟩ := ih
    have worked := (store_worked pa data engine).answer ran
    exact ⟨host, new, built, path.trans (worked.watch ▸ LoopM.stores_path _ _)⟩
  | fulfil _ ran ih =>
    obtain ⟨host, new, built, path⟩ := ih
    exact ⟨host, new, built, (fulfilAll_watch _).answer ran ▸ path.step trivial⟩

end Engine
end TieredHart
