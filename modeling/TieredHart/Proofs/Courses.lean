import TieredHart.Engine.Run
import TieredHart.Proofs.BlockWrites
import TieredHart.Proofs.Commits

namespace TieredHart

variable {σ α β τ : Type} {space : AddressSpace} {handler : TrapHandler τ}

namespace Engine

-- Operations in any order, with bookkeeping in between that neither memory nor the cache shows.
inductive Course (start : Engine) : Engine → Prop where
  | start : Course start start
  | does {engine after : Engine} {deed : Deed} (before : Course start engine) (does : Does engine deed after) :
      Course start after
  | upkeep {engine after : Engine} (before : Course start engine) (same : Upkeep engine after) : Course start after

namespace Course

variable {start middle final : Engine}

theorem trans (first : Course start middle) (second : Course middle final) : Course start final := by
  induction second with
  | start => exact first
  | does _ does ih => exact .does ih does
  | upkeep _ same ih => exact .upkeep ih same

theorem kept (ram : final.ram = start.ram) (cache : final.cache = start.cache) : Course start final :=
  .upkeep .start ⟨ram, cache ▸ .refl _⟩

theorem reported (ram : final.ram = start.ram) (event : Event) (cache : final.cache = start.cache.report event) :
    Course start final := .upkeep .start ⟨ram, cache ▸ .reported ..⟩

end Course

end Engine

-- An action that does nothing to the engine but by operations.
def Along (view : σ → Engine) (action : EStateM Failure σ α) : Prop :=
  ∀ s, Ends action s (fun _ t => (view s).Course (view t)) fun _ _ => True

namespace Along

variable {view : σ → Engine}

theorem pure {a : α} : Along view (Pure.pure a : EStateM Failure σ α) := fun _ => .start

theorem throw {e : Failure} : Along view (throw e : EStateM Failure σ α) := fun _ => trivial

theorem get : Along view (MonadState.get : EStateM Failure σ σ) := fun _ => .start

theorem bind {action : EStateM Failure σ α} {next : α → EStateM Failure σ β} (first : Along view action)
    (later : ∀ a, Along view (next a)) : Along view (action >>= next) := by
  intro s
  rw [ends_bind]
  refine (first s).weaken fun a t early => ?_
  exact (later a t).weaken fun _ _ late => early.trans late

theorem sequenced : Sequenced fun {α} (action : EStateM Failure σ α) => Along view action :=
  ⟨fun _ => .pure, fun _ => .throw, .bind⟩

theorem ofExcept {result : Except Failure α} : Along view (MonadExcept.ofExcept result : EStateM Failure σ α) :=
  sequenced.ofExcept result

theorem ite {condition : Prop} [Decidable condition] {yes no : EStateM Failure σ α} (positive : Along view yes)
    (negative : Along view no) : Along view (if condition then yes else no) := by
  split
  · exact positive
  · exact negative

theorem still {action : EStateM Failure σ α} {bad : σ → Failure → σ → Prop}
    (same : ∀ s, Ends action s (fun _ t => view t = view s) (bad s)) : Along view action := by
  intro s
  refine (same s).mono ?_ fun _ _ _ => trivial
  intro _ t there
  rw [there]
  exact .start

theorem modify {change : σ → σ} (course : ∀ s, (view s).Course (view (change s))) :
    Along view (modify change : EStateM Failure σ PUnit) := course

end Along

namespace Engine

variable {pc : Word} {pa : Nat}

theorem report_along (event : Event) : Along id (report event) :=
  fun _ => .reported rfl event rfl

theorem count_along (change : RunCounts → RunCounts) : Along id (count change) := fun _ => .kept rfl rfl

theorem refreshShortcuts_along : Along id refreshShortcuts := by
  refine .modify fun engine => ?_
  show Course engine (if _ then _ else _)
  split
  · exact .start
  · exact .kept rfl rfl

theorem Upkeep.along {action : EngineM α}
    (upkeep : ∀ engine, Ends action engine (fun _ after => engine.Upkeep after) fun _ _ => True) : Along id action :=
  fun engine => (upkeep engine).weaken fun _ _ same => .upkeep .start same

theorem usableBlock_along : Along id (usableBlock space pc pa) := by
  refine .bind (Upkeep.along (lookupBlock_upkeep pa)) fun found => ?_
  cases found with
  | none => exact .pure
  | some block => exact .bind .get fun _ => .ite .pure (.ite .throw .pure)

theorem fetchInsn_along {first : Bool} : Along id (fetchInsn space pc pa first) :=
  .still (fetchInsn_reads space pc pa first)

theorem store_along {data : List UInt8} {fetch : Option Nat} : Along id (store pa data fetch) :=
  fun _ => .intro (fun _ _ ran => .does .start (.store ran)) fun _ _ _ => trivial

theorem phases_along (request : CompileRequest) : Along id (phases request) := by
  have captured : Along id (capture request) :=
    fun _ => .intro (fun _ _ ran => .does .start (.capture ran)) fun _ _ _ => trivial
  refine .bind captured fun answer => ?_
  cases answer with
  | error refusal => exact .pure
  | ok taken =>
    have compiled : Along id (compile taken) := .bind .get fun engine => fun _ =>
      .intro (fun _ _ ran => .does .start (.compile ran)) fun _ _ _ => trivial
    refine .bind compiled fun answer => ?_
    cases answer with
    | error refusal => exact .pure
    | ok code => exact fun _ => .intro (fun _ _ ran => .does .start (.publish ran)) fun _ _ _ => trivial

theorem fulfil_along (request : CompileRequest) : Along id (fulfil request) := by
  refine .bind (phases_along request) fun answer => .bind (.modify fun _ => .kept rfl rfl) fun _ => ?_
  cases answer with
  | ok block => exact .pure
  | error refusal =>
    refine .bind (.modify fun engine => .upkeep .start ⟨rfl, ?_⟩) fun _ => .bind (report_along _) fun _ => .pure
    cases refusal <;> exact .booked _ _ _ rfl rfl rfl

theorem fulfilFrom_along (more : Nat) : Along id (fulfilFrom more) := by
  induction more with
  | zero => exact .pure
  | succ more ih =>
    refine .bind .get fun engine => ?_
    cases engine.queue.receive? with
    | none => exact .pure
    | some received =>
      refine .bind (.modify fun _ => .kept rfl rfl) fun _ => ?_
      exact .bind (fulfil_along _) fun _ => .bind ih fun _ => .pure

theorem fulfilAll_along : Along id fulfilAll := .bind .get fun _ => fulfilFrom_along _

end Engine

namespace DataSide

variable {frame : Nat} {codeFrames : List Nat}

theorem onEngine_along {action : EngineM α} (along : Along id action) :
    Along (fun s : Attached DataSide => s.device.engine) (onEngine action) :=
  fun s => ends_onEngine.mpr (along s.device.engine)

theorem locate_along {kind : Access} {va : Word} :
    Along (fun s : Attached DataSide => s.device.engine) (AddressSpace.locate space kind va) :=
  .still fun s => (space.locate_reads kind va s).weaken fun _ _ found => congrArg DataSide.engine found.1

theorem store_along {va value : Word} {width : Width} :
    Along (fun s : Attached DataSide => s.device.engine) (store space frame codeFrames va width value) := by
  refine .bind locate_along fun place => ?_
  cases place with
  | error fault => exact .pure
  | ok pa =>
    refine .bind (onEngine_along Engine.store_along) fun answer => ?_
    cases answer with
    | error range => exact .pure
    | ok outcome => exact .ite (.bind (.modify fun _ => .start) fun _ => .pure) .pure

end DataSide

variable {frame : Nat} {codeFrames : List Nat} {insn : Instruction} {pc : Word}

theorem DataSide.onBus_along {action : EStateM Failure (Attached DataSide) α}
    (along : Along (fun s : Attached DataSide => s.device.engine) action) :
    Along (fun core => core.device.engine) (Core.onBus action) := fun core => ends_onBus.mpr (along core.attached)

theorem execute_along :
    Along (fun core => core.device.engine) (execute (DataSide.codeBus space frame codeFrames).toBus insn pc) := by
  have updated : ∀ change, Along (fun core : Core DataSide => core.device.engine) (Core.updateHart change) := by
    intro change core
    unfold Ends Core.updateHart
    cases change core.hart with
    | ok hart => exact .start
    | error failure => trivial
  have loaded : ∀ va width, Along (fun s : Attached DataSide => s.device.engine) (DataSide.load space va width) :=
    fun va width => .still fun s => (DataSide.load_reads space va width s).weaken fun _ _ => congrArg DataSide.engine
  exact execute_kept Along.sequenced _ insn pc (fun _ => .bind .get fun _ => .pure) (fun _ => .modify fun _ => .start) updated
    (fun _ _ _ => DataSide.onBus_along (loaded _ _)) fun _ _ _ _ => DataSide.onBus_along DataSide.store_along

theorem ThreadedCode.runFrom_along {code : Array UInt8} {entry : Entry} {cursor : Cursor} (fuel : Nat) :
    Along (fun core => core.device.engine) (runFrom code (DataSide.codeBus space frame codeFrames) entry fuel cursor) := by
  have polled : Along (fun core => core.device.engine) (poll (DataSide.codeBus space frame codeFrames)) := fun _ => .start
  exact runFrom_kept Along.sequenced (fun _ => .modify fun _ => .start) polled
    (fun yes no => .bind .get fun _ => .ite yes no) (fun _ _ => execute_along) fuel

namespace LoopM

variable {pa n : Nat} {memory : τ}

theorem onEngine_along {action : EngineM α} (along : Along id action) :
    Along (fun core => core.device) (onEngine action) := fun core => ends_onEngine.mpr (along core.device)

theorem onDataSide_along {action : EStateM Failure (Core DataSide) α} (along : Along (fun core => core.device.engine) action) :
    Along (fun core => core.device) (onDataSide action) :=
  fun core => ends_onDataSide.mpr (along ⟨core.hart, ⟨core.device, false⟩⟩)

theorem setPc_along : Along (fun core : Core Engine => core.device) (setPc pc) := .modify fun _ => .start

theorem executeOne_along : Along (fun core => core.device) (executeOne space frame insn pc) := by
  refine .bind (onDataSide_along execute_along) fun answer => ?_
  dsimp only
  split
  · exact .bind (onEngine_along (Engine.report_along _)) fun _ => .pure
  · exact .pure

theorem interpretFrom_along (more : Nat) : Along (fun core => core.device) (interpretFrom space frame more pc pa n) :=
  interpretFrom_kept Along.sequenced (fun _ _ _ => onEngine_along Engine.fetchInsn_along) (fun _ _ => executeOne_along)
    (fun _ => setPc_along) more

theorem runInterpreted_along : Along (fun core => core.device) (runInterpreted space pa) :=
  .bind .get fun _ => .bind (interpretFrom_along _) fun _ =>
    .bind (onEngine_along (.bind (Engine.count_along _) fun _ => Engine.report_along _)) fun _ => .pure

theorem runCompiled_along {fuel : Nat} {block : Block} :
    Along (fun core => core.device) (runCompiled fuel space block pa) := by
  refine .bind (onEngine_along (.modify fun _ => .does .start (.markUsed block.id))) fun _ => .bind .get fun core => ?_
  refine .bind .ofExcept fun code => .bind (onDataSide_along (ThreadedCode.runFrom_along fuel)) fun exit => ?_
  refine .bind setPc_along fun _ => .bind (onEngine_along (.bind (Engine.count_along _) fun _ => ?_)) fun _ => ?_
  · cases exit.refusedCsr with
    | none => exact Engine.report_along _
    | some csr => exact .bind (Engine.report_along _) fun _ => Engine.report_along _
  · cases exit.cause <;> exact .pure

theorem enterBlock_along {fuel : Nat} : Along (fun core => core.device) (enterBlock fuel space pc pa) := by
  refine .bind (onEngine_along (Engine.Upkeep.along (Engine.enterFrame_upkeep _))) fun _ => .bind .get fun core => ?_
  refine .ite (.bind (onEngine_along (Engine.count_along _)) fun _ => runInterpreted_along) ?_
  refine .bind (onEngine_along Engine.usableBlock_along) fun found => ?_
  cases found with
  | some block => exact runCompiled_along
  | none => exact .bind (onEngine_along (Engine.Upkeep.along (Engine.miss_upkeep _ _ _))) fun _ => runInterpreted_along

theorem runNext_along {fuel : Nat} {chain : Option Nat} : Along (fun core => core.device) (runNext fuel space chain) := by
  refine .bind .get fun core => ?_
  cases chain with
  | some pa => exact .bind (onEngine_along (Engine.count_along _)) fun _ => enterBlock_along
  | none =>
    refine .ite .pure ?_
    cases space .fetch core.hart.pc with
    | some location => exact enterBlock_along
    | none => exact .pure

theorem raise_along {trap : Trap} : Along (fun core => core.device) (raise handler trap memory) :=
  .bind .get fun _ => .bind (onEngine_along (Engine.report_along _)) fun _ => .bind .get fun _ =>
    .bind .ofExcept fun _ => .bind (.modify fun _ => .start) fun _ => .pure

theorem settle_along {step : Step} : Along (fun core => core.device) (settle handler step memory) := by
  cases step with
  | next chain => exact .pure
  | fault fault =>
    refine .bind (onEngine_along (Engine.count_along _)) fun _ => .bind raise_along fun answer => ?_
    rcases answer with ⟨_ | _, kept⟩ <;> exact .pure

theorem takeInterrupt_along {chain : Option Nat} : Along (fun core => core.device) (takeInterrupt handler chain memory) := by
  refine .bind .get fun core => ?_
  cases core.hart.interruptToTake with
  | none => exact .pure
  | some code =>
    refine .bind (onEngine_along (Engine.count_along _)) fun _ => .bind raise_along fun answer => ?_
    rcases answer with ⟨_ | _, kept⟩ <;> exact .pure

theorem turn_along {fuel : Nat} {chain : Option Nat} :
    Along (fun core => core.device) (turn fuel space handler chain memory) := by
  refine .bind (onEngine_along Engine.refreshShortcuts_along) fun _ => .bind runNext_along fun step => ?_
  refine .bind settle_along fun settled => ?_
  cases settled with
  | ended reason kept => exact .pure
  | again chain kept => exact takeInterrupt_along

theorem runFrom_along {limit : Option Nat} (fuel : Nat) : ∀ {blocks chain memory},
    Along (fun core => core.device) (runFrom space handler limit fuel blocks chain memory) := by
  induction fuel with
  | zero =>
    intro blocks chain memory
    exact .ite .pure .throw
  | succ fuel ih =>
    intro blocks chain memory
    refine .ite .pure (.bind turn_along fun result => ?_)
    cases result with
    | ended reason kept => exact .pure
    | again chain kept => exact ih

end LoopM

namespace Cache

variable {cache after : Cache} {deed : Deed}

theorem Effect.covers (effect : cache.Effect deed after) : after.frames.covers = cache.frames.covers := by
  have alike : cache.frames.Alike after.frames → after.frames.covers = cache.frames.covers :=
    fun alike => funext fun f => alike.covers f
  cases effect with
  | undisturbed same => exact alike same.frames
  | used id => rfl
  | dropped f => exact (Calm.dropFrame cache f).1.covers
  | recycled ran =>
    obtain ⟨kept, pool, -, rfl⟩ := recycle_parts ran
    rfl
  | published published => exact alike published.alike
  | filled filled =>
    cases filled with
    | refused cleared => exact alike cleared.alike
    | seated _ given seated => exact alike (given.alike.trans seated.alike)
  | reserved granted => exact alike granted.alike
  | placed => rfl
  | seated entered =>
    rw [entered.after]
    exact funext fun f => (enter_alike ..).covers f
  | stored same =>
    exact (funext fun f => same.frames.covers f).trans (framesWritten_overwritten ..).1.covers

end Cache

namespace Engine

namespace Course

variable {start final : Engine}

theorem indexed (course : start.Course final) (indexed : start.cache.Indexed) : final.cache.Indexed := by
  induction course with
  | start => exact indexed
  | does _ does ih => exact does.effect.indexed ih
  | upkeep _ same ih => exact ih.retuned same.cache.toRetuned

theorem covers (course : start.Course final) : final.cache.frames.covers = start.cache.frames.covers := by
  induction course with
  | start => rfl
  | does _ does ih => exact does.effect.covers.trans ih
  | upkeep _ same ih => exact (funext fun f => same.cache.frames.covers f).trans ih

theorem memory (course : start.Course final) : final.ram.base = start.ram.base ∧ final.ram.size = start.ram.size := by
  induction course with
  | start => exact ⟨rfl, rfl⟩
  | does _ does ih => exact ⟨does.memory.1.trans ih.1, does.memory.2.trans ih.2⟩
  | upkeep _ same ih =>
    rw [same.ram]
    exact ih

end Course

-- Whatever was done with an engine since it was set up: single operations, runs and processed compilations.
inductive Operated (ram : Ram) : Engine → Prop where
  | setup {config : Config} {engine : Engine} {host : Host} (built : Engine.setup config ram host = .ok (.ok engine)) :
      Operated ram engine
  | does {engine after : Engine} {deed : Deed} (before : Operated ram engine) (does : Does engine deed after) :
      Operated ram after
  | run {τ : Type} {engine : Engine} {space : AddressSpace} {handler : TrapHandler τ} {limit : Option Nat} {fuel : Nat}
      {hart : Hart} {memory : τ} {answer : RunEnd × τ} {core : Core Engine} (before : Operated ram engine)
      (ran : LoopM.run fuel space handler limit memory ⟨hart, engine⟩ = .ok answer core) : Operated ram core.device
  | fulfil {engine after : Engine} {request : CompileRequest} {answer : Except Refusal Block}
      (before : Operated ram engine) (ran : Engine.fulfil request engine = .ok answer after) : Operated ram after
  | fulfilAll {engine after : Engine} {count : Nat} (before : Operated ram engine)
      (ran : Engine.fulfilAll engine = .ok count after) : Operated ram after

theorem Operated.course {ram : Ram} {engine : Engine} (operated : Operated ram engine) :
    ∃ host config start, Engine.setup config ram host = .ok (.ok start) ∧ start.Course engine := by
  induction operated with
  | setup built => exact ⟨_, _, _, built, .start⟩
  | does _ does ih =>
    obtain ⟨host, config, start, built, course⟩ := ih
    exact ⟨host, config, start, built, .does course does⟩
  | run _ ran ih =>
    obtain ⟨host, config, start, built, course⟩ := ih
    exact ⟨host, config, start, built, course.trans ((LoopM.runFrom_along _ _).answer ran)⟩
  | fulfil _ ran ih =>
    obtain ⟨host, config, start, built, course⟩ := ih
    exact ⟨host, config, start, built, course.trans ((fulfil_along _ _).answer ran)⟩
  | fulfilAll _ ran ih =>
    obtain ⟨host, config, start, built, course⟩ := ih
    exact ⟨host, config, start, built, course.trans ((fulfilAll_along _).answer ran)⟩

structure Operated.Keeps (ram : Ram) (engine : Engine) : Prop where
  indexed : engine.cache.Indexed
  base : engine.ram.base = ram.base
  size : engine.ram.size = ram.size
  covers : ∀ f, engine.cache.frames.covers f = true ↔ ram.base / 4096 ≤ f ∧ f < ram.base / 4096 + ram.size / 4096

theorem Operated.keeps {ram : Ram} {engine : Engine} (operated : Operated ram engine) : Operated.Keeps ram engine := by
  obtain ⟨host, config, start, built, course⟩ := operated.course
  obtain ⟨sound, memory⟩ := setup_sound built
  obtain ⟨base, size⟩ := course.memory
  rw [memory] at base size
  refine ⟨course.indexed (setup_indexed built), base, size, fun f => ?_⟩
  rw [course.covers, sound.framed.covers_iff, memory]

end Engine
end TieredHart
