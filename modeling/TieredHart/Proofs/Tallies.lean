import TieredHart.Proofs.Courses

namespace TieredHart

variable {σ α β γ : Type} {space : AddressSpace} {pc : Word} {pa frame : Nat} {codeFrames : List Nat}

def Steady (view : σ → γ) (action : EStateM Failure σ α) : Prop :=
  ∀ s, Ends action s (fun _ t => view t = view s) fun _ _ => True

namespace Steady

variable {view : σ → γ}

theorem pure {a : α} : Steady view (Pure.pure a : EStateM Failure σ α) := fun _ => rfl

theorem throw {e : Failure} : Steady view (throw e : EStateM Failure σ α) := fun _ => trivial

theorem get : Steady view (MonadState.get : EStateM Failure σ σ) := fun _ => rfl

theorem modify {change : σ → σ} (same : ∀ s, view (change s) = view s) :
    Steady view (modify change : EStateM Failure σ PUnit) := same

theorem bind {action : EStateM Failure σ α} {next : α → EStateM Failure σ β} (first : Steady view action)
    (later : ∀ a, Steady view (next a)) : Steady view (action >>= next) := by
  intro s
  rw [ends_bind]
  refine (first s).weaken fun a t early => ?_
  exact (later a t).weaken fun _ _ late => late.trans early

theorem sequenced : Sequenced fun {α} (action : EStateM Failure σ α) => Steady view action :=
  ⟨fun _ => .pure, fun _ => .throw, .bind⟩

theorem ofExcept {result : Except Failure α} : Steady view (MonadExcept.ofExcept result : EStateM Failure σ α) :=
  sequenced.ofExcept result

theorem ite {condition : Prop} [Decidable condition] {yes no : EStateM Failure σ α} (positive : Steady view yes)
    (negative : Steady view no) : Steady view (if condition then yes else no) := by
  split
  · exact positive
  · exact negative

end Steady

namespace Cache

variable {cache middle after : Cache} {code : HostCode}

def lookups (cache : Cache) : Nat := cache.counts.hits + cache.counts.misses

theorem lookups_lookup (cache : Cache) (pa : Nat) : (cache.lookup pa).2.lookups = cache.lookups + 1 := by
  unfold lookup
  cases cache.find? pa with
  | some block =>
    show cache.counts.hits + 1 + cache.counts.misses = _
    unfold lookups
    omega
  | none => rfl

theorem Removed.lookups {why : Departure} {block : Block} (removed : Removed pa why block cache after) :
    after.lookups = cache.lookups := by
  unfold Cache.lookups
  rw [removed.counts]
  cases why <;> rfl

theorem lookups_dropFrame (cache : Cache) (f : Nat) : (cache.dropFrame f).2.lookups = cache.lookups := by
  have cleared : { cache with frames := cache.frames.clearEntries f }.lookups = cache.lookups := rfl
  have all := removeAll_keeps (P := fun left => left.lookups = cache.lookups) cleared
    (fun before removed => removed.lookups.trans before) (cache.frames.entries f)
  unfold dropFrame
  dsimp only
  split <;> exact all

theorem lookups_framesWritten (cache : Cache) (fetch : Option Nat) (fs : List Nat) :
    (cache.framesWritten fetch fs).2.lookups = cache.lookups := by
  induction fs generalizing cache with
  | nil => rfl
  | cons f rest ih => exact (ih _).trans (lookups_dropFrame cache f)

theorem Cleared.lookups (cleared : Cleared cache after) : after.lookups = cache.lookups := by
  induction cleared with
  | start => rfl
  | recycled _ ran ih =>
    obtain ⟨_, _, -, rfl⟩ := recycle_parts ran
    exact ih
  | @evicted middle pa _ _ ih =>
    cases left : (victim middle).2.remove pa .evicted with
    | none => exact ih
    | some after =>
      obtain ⟨_, removed⟩ := remove_removed left
      exact removed.lookups.trans ih
  | exhausted _ _ ih => exact ih

theorem Published.lookups {answer : Except Refusal Block} (published : Published code cache answer after) :
    after.lookups = cache.lookups := by
  cases published with
  | stale => rfl
  | occupied => rfl
  | refused _ _ cleared => exact cleared.lookups
  | seated _ _ given seated =>
    obtain ⟨cleared, -⟩ := given
    obtain ⟨-, -, entered⟩ := seated
    rw [entered.after]
    exact cleared.lookups

end Cache

-- Blocks that were run, answers to how a block is to be run, and instructions that blocks retired.
@[ext] structure Tally where
  ran : Nat
  found : Nat
  insns : Nat

def Tally.ask (tally : Tally) : Tally := { tally with found := tally.found + 1 }

def Tally.finish (tally : Tally) (insns : Nat) : Tally :=
  { tally with ran := tally.ran + 1, insns := tally.insns + insns }

namespace Engine

variable {engine after : Engine}

def tally (engine : Engine) : Tally where
  ran := engine.counts.interpBlocks + engine.counts.compiledBlocks
  found := engine.counts.forcedInterp + engine.counts.shortcutHits + engine.cache.lookups
  insns := engine.counts.interpInsns + engine.counts.compiledInsns

theorem tally_eq (counts : after.counts = engine.counts) (lookups : after.cache.lookups = engine.cache.lookups) :
    after.tally = engine.tally := by
  unfold tally
  rw [counts, lookups]

theorem setup_tally {host : Host} {config : Config} {ram : Ram} (built : setup config ram host = .ok (.ok engine)) :
    engine.tally = ⟨0, 0, 0⟩ := by
  obtain ⟨arena, event, -, -, -, counts, cache⟩ := setup_parts built
  unfold tally
  rw [counts, cache]
  rfl

theorem report_steady (event : Event) : Steady tally (report event) := .modify fun _ => rfl

theorem refreshShortcuts_steady : Steady tally refreshShortcuts := by
  refine .modify fun engine => ?_
  split <;> rfl

theorem store_tally (pa : Nat) (data : List UInt8) (fetch : Option Nat) (engine : Engine) :
    Ends (store pa data fetch) engine (fun _ after => after.tally = engine.tally) fun _ after => after = engine := by
  refine (store_done pa data fetch engine).mono (fun _ _ done => ?_) fun _ _ failed => failed.1
  cases done with
  | empty => rfl
  | refused => rfl
  | wrote _ _ _ noted =>
    refine tally_eq rfl ?_
    rcases noted with rfl | rfl <;> exact Cache.lookups_framesWritten ..

theorem promote_steady : Steady tally (promote space pc pa) := by
  refine .bind .get fun engine => ?_
  dsimp only
  refine .ite .pure ?_
  cases engine.queue.offer ⟨pa, pc, (space .fetch pc.nextPage).map (·.pa)⟩ with
  | mk answer queue =>
    refine .bind (.modify fun _ => rfl) fun _ => ?_
    cases answer with
    | sent => exact .bind (.modify fun _ => rfl) fun _ => report_steady _
    | busy => exact .pure
    | full => exact .bind (.modify fun _ => rfl) fun _ => report_steady _

theorem miss_steady : Steady tally (miss space pc pa) :=
  .bind (.modify fun _ => rfl) fun _ => .bind .get fun _ => .ite promote_steady .pure

theorem enterFrame_steady : Steady tally (enterFrame frame) := by
  refine .bind .get fun engine => ?_
  have moved : Steady tally (modify fun engine : Engine => { engine with fetchFrame := some frame }) :=
    .modify fun _ => rfl
  cases engine.fetchFrame with
  | none => exact moved
  | some previous =>
    have restored : Steady tally (restoreFrame previous) := .bind (.modify fun _ => rfl) fun _ => report_steady _
    exact .ite (.bind restored fun _ => moved) moved

theorem phases_steady (request : CompileRequest) : Steady tally (phases request) := by
  have captured : Steady tally (capture request) := fun engine =>
    (capture_captured request engine).mono (fun _ _ done => congrArg tally done.1) fun _ _ _ => trivial
  refine .bind captured fun answer => ?_
  cases answer with
  | error refusal => exact .pure
  | ok taken =>
    have compiled : Steady tally (compile taken) := by
      refine .bind .get fun engine => .bind .get fun _ => .bind .ofExcept fun answer => ?_
      cases answer with
      | error refusal => exact .pure
      | ok code => exact .bind (report_steady _) fun _ => .pure
    refine .bind compiled fun answer => ?_
    cases answer with
    | error refusal => exact .pure
    | ok code =>
      intro engine
      unfold publish
      rw [ends_onCache]
      refine (Cache.publish_published code engine.cache).weaken fun _ _ published => ?_
      exact tally_eq rfl published.lookups

theorem fulfil_steady (request : CompileRequest) : Steady tally (fulfil request) := by
  refine .bind (phases_steady request) fun answer => .bind (.modify fun _ => rfl) fun _ => ?_
  cases answer with
  | ok block => exact .pure
  | error refusal =>
    refine .bind (.modify fun engine => tally_eq rfl ?_) fun _ => .bind (report_steady _) fun _ => .pure
    cases refusal <;> rfl

theorem fulfilFrom_steady (more : Nat) : Steady tally (fulfilFrom more) := by
  induction more with
  | zero => exact .pure
  | succ more ih =>
    refine .bind .get fun engine => ?_
    cases engine.queue.receive? with
    | none => exact .pure
    | some received =>
      refine .bind (.modify fun _ => rfl) fun _ => ?_
      exact .bind (fulfil_steady _) fun _ => .bind ih fun _ => .pure

theorem fulfilAll_steady : Steady tally fulfilAll := .bind .get fun _ => fulfilFrom_steady _

-- How the block at an address is to be run: a usable one as it is compiled, and nothing of the kind by interpretation.
def selectBlock (space : AddressSpace) (pc : Word) (pa : Nat) : EngineM (Option Block) := do
  enterFrame (Page.frame pa)
  if (← get).cache.frames.state (Page.frame pa) = .smcDetected then
    count fun counts => { counts with forcedInterp := counts.forcedInterp + 1 }
    return none
  else
    match ← usableBlock space pc pa with
    | some block => return some block
    | none =>
      miss space pc pa
      return none

def Asked (engine after : Engine) : Prop := after.tally = engine.tally.ask

theorem lookupBlock_asked (engine : Engine) : Ends (lookupBlock pa) engine (fun _ after => Asked engine after)
    fun _ _ => True := by
  have looked := Cache.lookups_lookup engine.cache pa
  unfold lookupBlock
  rw [ends_modifyGet]
  split
  · refine Tally.ext rfl ?_ rfl
    show engine.counts.forcedInterp + (engine.counts.shortcutHits + 1) + engine.cache.lookups =
      engine.counts.forcedInterp + engine.counts.shortcutHits + engine.cache.lookups + 1
    omega
  · cases answered : engine.cache.lookup pa with
    | mk found cache =>
      rw [answered] at looked
      have more : engine.counts.forcedInterp + engine.counts.shortcutHits + cache.lookups =
          engine.counts.forcedInterp + engine.counts.shortcutHits + engine.cache.lookups + 1 := congrArg _ looked
      cases found <;> exact Tally.ext rfl more rfl

theorem Asked.later {action : EngineM α} (asked : Asked engine after) (steady : Steady tally action) :
    Ends action after (fun _ final => Asked engine final) fun _ _ => True :=
  (steady after).weaken fun _ _ same => same.trans asked

theorem usableBlock_asked (engine : Engine) :
    Ends (usableBlock space pc pa) engine (fun _ after => Asked engine after) fun _ _ => True := by
  unfold usableBlock
  rw [ends_bind]
  refine (lookupBlock_asked engine).weaken fun answer after asked => ?_
  cases answer with
  | none => exact asked
  | some block => exact asked.later (.bind .get fun _ => .ite .pure (.ite .throw .pure))

theorem selectBlock_asked (engine : Engine) :
    Ends (selectBlock space pc pa) engine (fun _ after => Asked engine after) fun _ _ => True := by
  unfold selectBlock
  rw [ends_bind]
  refine (enterFrame_steady engine).weaken fun _ entered same => ?_
  rw [ends_bind, ends_get]
  unfold Asked
  rw [← same]
  split
  · refine Tally.ext rfl ?_ rfl
    show entered.counts.forcedInterp + 1 + entered.counts.shortcutHits + entered.cache.lookups =
      entered.counts.forcedInterp + entered.counts.shortcutHits + entered.cache.lookups + 1
    omega
  · rw [ends_bind]
    refine (usableBlock_asked entered).weaken fun answer looked asked => ?_
    cases answer with
    | some block => exact asked
    | none => exact asked.later (.bind miss_steady fun _ => .pure)

end Engine

def Core.tally (core : Core Engine) : Tally := core.device.tally

theorem Engine.tally_tells (frame : Nat) (engine : Engine) : engine.Tells frame fun _ after => after.tally = engine.tally :=
  ⟨rfl, fun pa data => store_tally pa data (some frame) engine, fun _ _ _ same => same⟩

namespace DataSide

def told (core : Core DataSide) : Tally := core.device.engine.tally

theorem execute_steady (insn : Instruction) (pc : Word) :
    Steady told (execute (codeBus space frame codeFrames).toBus insn pc) := fun core =>
  (execute_told (Engine.tally_tells frame core.device.engine) insn pc).mono (fun _ _ same => same) fun _ _ _ => trivial

end DataSide

theorem ThreadedCode.runFrom_steady {code : Array UInt8} {entry : Entry} {cursor : Cursor} (fuel : Nat) :
    Steady DataSide.told (runFrom code (DataSide.codeBus space frame codeFrames) entry fuel cursor) := by
  have polled : Steady DataSide.told (poll (DataSide.codeBus space frame codeFrames)) := fun _ => rfl
  exact runFrom_kept Steady.sequenced (fun _ => .modify fun _ => rfl) polled
    (fun yes no => .bind .get fun _ => .ite yes no) DataSide.execute_steady fuel

namespace LoopM

theorem interpretFrom_steady (more : Nat) {n : Nat} : Steady Core.tally (interpretFrom space frame more pc pa n) := fun _ =>
  (interpretFrom_told (fun engine (_ : True) => Engine.tally_tells frame engine) (fun _ _ => trivial)
    (fun first second => second.trans first) more trivial).mono (fun _ _ same => same) fun _ _ _ => trivial

theorem onEngine_bind (action : EngineM α) (next : α → EngineM β) :
    onEngine (action >>= next) = onEngine action >>= fun a => onEngine (next a) := by
  funext core
  show onEngine (EStateM.bind action next) core = EStateM.bind (onEngine action) (fun a => onEngine (next a)) core
  unfold EStateM.bind onEngine
  cases ran : action core.device <;> simp only [ran]

theorem enterBlock_eq (fuel : Nat) (space : AddressSpace) (pc : Word) (pa : Nat) :
    enterBlock fuel space pc pa = onEngine (Engine.selectBlock space pc pa) >>= fun found =>
      found.elim (runInterpreted space pa) fun block => runCompiled fuel space block pa := by
  unfold enterBlock Engine.selectBlock
  rw [onEngine_bind, bind_assoc]
  refine bind_congr fun _ => ?_
  funext core
  show (if core.device.cache.frames.state (Page.frame pa) = .smcDetected then _ else _ : LoopM Step) core =
    (onEngine (if core.device.cache.frames.state (Page.frame pa) = .smcDetected then _ else _) >>= _) core
  by_cases hit : core.device.cache.frames.state (Page.frame pa) = .smcDetected
  · rw [if_pos hit, if_pos hit, onEngine_bind, bind_assoc]
    rfl
  · rw [if_neg hit, if_neg hit, onEngine_bind, bind_assoc]
    refine congrFun (bind_congr fun found => ?_) core
    cases found with
    | some block => rfl
    | none =>
      dsimp only
      rw [onEngine_bind, bind_assoc]
      rfl

end LoopM
end TieredHart
