import TieredHart.Engine.Run
import TieredHart.Proofs.Blindness

namespace TieredHart

variable {α τ : Type} {space : AddressSpace} {pc : Word} {pa n : Nat} {frame : Nat}

namespace Engine

def withChained (engine : Engine) (n : Nat) : Engine := { engine with counts := { engine.counts with chained := n } }

def Rechained (engine other : Engine) : Prop := ∃ n, other = engine.withChained n

theorem blind_get {next : Engine → EngineM α} (unseen : ∀ engine n, next engine = next (engine.withChained n))
    (later : ∀ engine, Blind Rechained (next engine)) : Blind Rechained (get >>= next) := by
  refine .get_bind ?_ later
  rintro engine _ ⟨n, rfl⟩
  exact unseen engine n

theorem blind_modify {change : Engine → Engine}
    (kept : ∀ engine n, change (engine.withChained n) = (change engine).withChained n) :
    Blind Rechained (modify change : EngineM Unit) := by
  refine .modify ?_
  rintro engine _ ⟨n, rfl⟩
  exact ⟨n, kept engine n⟩

theorem count_blind {change : RunCounts → RunCounts}
    (kept : ∀ counts n, change { counts with chained := n } = { change counts with chained := n }) :
    Blind Rechained (count change) :=
  blind_modify fun engine n => congrArg (fun counts => { engine with counts := counts }) (kept engine.counts n)

theorem chained_blind : Blind Rechained (count fun counts => { counts with chained := counts.chained + 1 }) := by
  refine .modify ?_
  rintro engine _ ⟨n, rfl⟩
  exact ⟨n + 1, rfl⟩

theorem report_blind {event : Event} : Blind Rechained (report event) := blind_modify fun _ _ => rfl

theorem readRam_blind {len : Nat} : Blind Rechained (readRam pa len) :=
  blind_get (fun _ _ => rfl) fun _ => .ofExcept

theorem store_blind {data : List UInt8} {fetch : Option Nat} : Blind Rechained (store pa data fetch) := by
  refine .ite .pure (.ite .throw (blind_get (fun _ _ => rfl) fun engine => .bind .ofExcept fun written => ?_))
  cases written with
  | error error => exact .pure
  | ok ram =>
    refine .bind ?_ fun removed => .ite (.bind report_blind fun _ => .pure) .pure
    rintro engine _ ⟨n, rfl⟩
    exact .ok ⟨n, rfl⟩

theorem fetchHigh_blind {crosses : Bool} {low : List UInt8} : Blind Rechained (fetchHigh pc crosses low pa) := by
  refine .bind readRam_blind fun answer => ?_
  cases answer with
  | error error => exact .pure
  | ok high => exact .pure

theorem fetchInsn_blind {first : Bool} : Blind Rechained (fetchInsn space pc pa first) := by
  refine .bind readRam_blind fun answer => ?_
  cases answer with
  | error error => exact .pure
  | ok low =>
    refine .ite .pure (.ite ?_ (.bind .ofExcept fun _ => fetchHigh_blind))
    cases space .fetch (pc + 2) with
    | some location => exact fetchHigh_blind
    | none => exact .ite .pure .pure

theorem refreshShortcuts_blind : Blind Rechained refreshShortcuts := by
  refine blind_modify fun engine n => ?_
  show (if engine.cache.retirements = engine.seenRetirements then _ else _) = _
  split <;> rfl

theorem lookupBlock_blind : Blind Rechained (lookupBlock pa) := by
  rintro engine _ ⟨n, rfl⟩
  unfold lookupBlock
  show Alike Rechained (.ok _ _) (.ok _ _)
  dsimp only [withChained]
  rcases engine.shortcuts.lookup engine.cache.block? pa with ⟨_ | block, shortcuts⟩
  · dsimp only
    rcases engine.cache.lookup pa with ⟨_ | block, cache⟩
    · exact .ok ⟨n, rfl⟩
    · exact .ok ⟨n, rfl⟩
  · exact .ok ⟨n, rfl⟩

theorem usableBlock_blind : Blind Rechained (usableBlock space pc pa) := by
  refine .bind lookupBlock_blind fun found => ?_
  cases found with
  | none => exact .pure
  | some block => exact blind_get (fun _ _ => rfl) fun _ => .ite .pure (.ite .throw .pure)

theorem promote_blind : Blind Rechained (promote space pc pa) := by
  refine blind_get (fun _ _ => rfl) fun engine => ?_
  dsimp only
  refine .ite .pure ?_
  generalize engine.queue.offer ⟨pa, pc, (space .fetch pc.nextPage).map (·.pa)⟩ = offered
  refine .bind (blind_modify fun _ _ => rfl) fun _ => ?_
  cases offered.1 with
  | sent => exact .bind (count_blind fun _ _ => rfl) fun _ => report_blind
  | busy => exact .pure
  | full => exact .bind (count_blind fun _ _ => rfl) fun _ => report_blind

theorem miss_blind : Blind Rechained (miss space pc pa) :=
  .bind (blind_modify fun _ _ => rfl) fun _ => blind_get (fun _ _ => rfl) fun _ => .ite promote_blind .pure

theorem restoreFrame_blind : Blind Rechained (restoreFrame frame) :=
  .bind (blind_modify fun _ _ => rfl) fun _ => report_blind

theorem enterFrame_blind : Blind Rechained (enterFrame frame) := by
  refine blind_get (fun _ _ => rfl) fun engine => ?_
  have entered : Blind Rechained (modify fun engine => { engine with fetchFrame := some frame } : EngineM Unit) :=
    blind_modify fun _ _ => rfl
  cases engine.fetchFrame with
  | none => exact entered
  | some previous => exact .ite (.bind restoreFrame_blind fun _ => entered) entered

end Engine

open Engine (Rechained)

namespace DataSide

def Rechained (side other : DataSide) : Prop := side.exit = other.exit ∧ side.engine.Rechained other.engine

theorem onEngine_blind {action : EngineM α} (blind : Blind Engine.Rechained action) :
    Blind (Attached.Same Rechained) (onEngine action) := by
  rintro ⟨lines, ⟨engine, exit⟩⟩ ⟨_, ⟨other, _⟩⟩ ⟨rfl, rfl, there⟩
  have alike := blind engine other there
  unfold onEngine
  dsimp only at alike ⊢
  generalize action engine = left at alike ⊢
  generalize action other = right at alike ⊢
  cases alike with
  | ok after => exact .ok ⟨rfl, rfl, after⟩
  | error after => exact .error ⟨rfl, rfl, after⟩

theorem locate_blind {kind : Access} {va : Word} :
    Blind (Attached.Same Rechained) (AddressSpace.locate space kind va) := by
  unfold AddressSpace.locate
  cases space kind va with
  | none => exact .pure
  | some location =>
    dsimp only
    cases location.irq with
    | none => exact .pure
    | some code =>
      refine .get_bind ?_ fun s => .bind .ofExcept fun lines => .bind (.modify ?_) fun _ => .pure
      · rintro ⟨lines, device⟩ ⟨_, other⟩ ⟨rfl, -⟩
        rfl
      · exact fun _ _ there => ⟨rfl, there.2⟩

theorem codeBus_blind {codeFrames : List Nat} : (codeBus space frame codeFrames).Blind Rechained where
  load := by
    refine .bind locate_blind fun place => ?_
    cases place with
    | error fault => exact .pure
    | ok pa =>
      refine .bind (onEngine_blind Engine.readRam_blind) fun answer => ?_
      cases answer with
      | error error => exact .pure
      | ok bytes => exact .pure
  store := by
    refine .bind locate_blind fun place => ?_
    cases place with
    | error fault => exact .pure
    | ok pa =>
      refine .bind (onEngine_blind Engine.store_blind) fun answer => ?_
      cases answer with
      | error error => exact .pure
      | ok outcome => exact .ite (.bind (.modify fun _ _ there => ⟨there.1, rfl, there.2.2⟩) fun _ => .pure) .pure
  poll := fun _ _ _ there => ⟨rfl, there⟩
  mustLeave := fun _ _ there => there.1

end DataSide

namespace LoopM

variable {handler : TrapHandler τ} {memory : τ}

theorem onEngine_blind {action : EngineM α} (blind : Blind Rechained action) :
    Blind (Core.Same Rechained) (onEngine action) := by
  rintro ⟨hart, engine⟩ ⟨_, other⟩ ⟨rfl, there⟩
  have alike := blind engine other there
  unfold onEngine
  dsimp only at alike ⊢
  generalize action engine = left at alike ⊢
  generalize action other = right at alike ⊢
  cases alike with
  | ok after => exact .ok ⟨rfl, after⟩
  | error after => exact .error ⟨rfl, after⟩

theorem onDataSide_blind {action : EStateM Failure (Core DataSide) α} (blind : Blind (Core.Same DataSide.Rechained) action) :
    Blind (Core.Same Rechained) (onDataSide action) := by
  rintro ⟨hart, engine⟩ ⟨_, other⟩ ⟨rfl, there⟩
  have alike := blind ⟨hart, ⟨engine, false⟩⟩ ⟨hart, ⟨other, false⟩⟩ ⟨rfl, rfl, there⟩
  unfold onDataSide
  dsimp only at alike ⊢
  generalize action ⟨hart, ⟨engine, false⟩⟩ = left at alike ⊢
  generalize action ⟨hart, ⟨other, false⟩⟩ = right at alike ⊢
  cases alike with
  | ok after => exact .ok ⟨after.1, after.2.2⟩
  | error after => exact .error ⟨after.1, after.2.2⟩

theorem blind_get {next : Core Engine → LoopM α}
    (unseen : ∀ hart engine n, next ⟨hart, engine⟩ = next ⟨hart, engine.withChained n⟩)
    (later : ∀ core, Blind (Core.Same Rechained) (next core)) : Blind (Core.Same Rechained) (get >>= next) := by
  refine .getCore ?_ later
  rintro hart engine _ ⟨n, rfl⟩
  exact unseen hart engine n

theorem executeOne_blind {insn : Instruction} : Blind (Core.Same Rechained) (executeOne space frame insn pc) := by
  refine .bind (onDataSide_blind (execute_blind DataSide.codeBus_blind.toBlind)) fun result => ?_
  cases result with
  | ok flow => exact .pure
  | error fault =>
    dsimp only
    cases insn.readOnlyCsr? with
    | none => exact .pure
    | some csr => exact .bind (onEngine_blind Engine.report_blind) fun _ => .pure

theorem interpretFrom_blind (more : Nat) : Blind (Core.Same Rechained) (interpretFrom space frame more pc pa n) :=
  interpretFrom_kept Blind.sequenced (fun _ _ _ => onEngine_blind Engine.fetchInsn_blind) (fun _ _ => executeOne_blind)
    (fun _ => .modifyHart) more

theorem runInterpreted_blind : Blind (Core.Same Rechained) (runInterpreted space pa) :=
  blind_get (fun _ _ _ => rfl) fun _ => .bind (interpretFrom_blind _) fun _ =>
    .bind (onEngine_blind (.bind (Engine.count_blind fun _ _ => rfl) fun _ => Engine.report_blind)) fun _ => .pure

theorem runCompiled_blind {fuel : Nat} {block : Block} :
    Blind (Core.Same Rechained) (runCompiled fuel space block pa) := by
  refine .bind (onEngine_blind (Engine.blind_modify fun _ _ => rfl)) fun _ => blind_get (fun _ _ _ => rfl) fun core => ?_
  refine .bind .ofExcept fun code => ?_
  refine .bind (onDataSide_blind (ThreadedCode.runFrom_blind DataSide.codeBus_blind fuel)) fun exit => ?_
  refine .bind .modifyHart fun _ => .bind (onEngine_blind (.bind (Engine.count_blind fun _ _ => rfl) fun _ => ?_)) fun _ => ?_
  · cases exit.refusedCsr with
    | none => exact Engine.report_blind
    | some csr => exact .bind Engine.report_blind fun _ => Engine.report_blind
  · cases exit.cause <;> exact .pure

theorem enterBlock_blind {fuel : Nat} : Blind (Core.Same Rechained) (enterBlock fuel space pc pa) := by
  refine .bind (onEngine_blind Engine.enterFrame_blind) fun _ => blind_get (fun _ _ _ => rfl) fun core => ?_
  refine .ite (.bind (onEngine_blind (Engine.count_blind fun _ _ => rfl)) fun _ => runInterpreted_blind) ?_
  refine .bind (onEngine_blind Engine.usableBlock_blind) fun found => ?_
  cases found with
  | some block => exact runCompiled_blind
  | none => exact .bind (onEngine_blind Engine.miss_blind) fun _ => runInterpreted_blind

theorem runNext_blind {fuel : Nat} {chain : Option Nat} : Blind (Core.Same Rechained) (runNext fuel space chain) := by
  refine blind_get (fun _ _ _ => rfl) fun core => ?_
  cases chain with
  | some pa => exact .bind (onEngine_blind (Engine.chained_blind)) fun _ => enterBlock_blind
  | none =>
    refine .ite .pure ?_
    cases space .fetch core.hart.pc with
    | some location => exact enterBlock_blind
    | none => exact .pure

theorem raise_blind {trap : Trap} : Blind (Core.Same Rechained) (raise handler trap memory) :=
  blind_get (fun _ _ _ => rfl) fun _ => .bind (onEngine_blind Engine.report_blind) fun _ =>
    blind_get (fun _ _ _ => rfl) fun _ => .bind .ofExcept fun _ => .bind .modifyHart fun _ => .pure

theorem settle_blind {step : Step} : Blind (Core.Same Rechained) (settle handler step memory) := by
  cases step with
  | next chain => exact .pure
  | fault fault =>
    refine .bind (onEngine_blind (Engine.count_blind fun _ _ => rfl)) fun _ => .bind raise_blind fun answer => ?_
    rcases answer with ⟨_ | _, kept⟩ <;> exact .pure

theorem takeInterrupt_blind {chain : Option Nat} : Blind (Core.Same Rechained) (takeInterrupt handler chain memory) := by
  refine blind_get (fun _ _ _ => rfl) fun core => ?_
  cases core.hart.interruptToTake with
  | none => exact .pure
  | some code =>
    refine .bind (onEngine_blind (Engine.count_blind fun _ _ => rfl)) fun _ => .bind raise_blind fun answer => ?_
    rcases answer with ⟨_ | _, kept⟩ <;> exact .pure

theorem afterBlock_blind {step : Step} : Blind (Core.Same Rechained) (settle handler step memory >>= fun
    | .ended reason memory => pure (.ended reason memory)
    | .again chain memory => takeInterrupt handler chain memory) := by
  refine .bind settle_blind fun result => ?_
  cases result with
  | ended reason kept => exact .pure
  | again chain kept => exact takeInterrupt_blind

theorem turn_blind {fuel : Nat} {chain : Option Nat} :
    Blind (Core.Same Rechained) (turn fuel space handler chain memory) :=
  .bind (onEngine_blind Engine.refreshShortcuts_blind) fun _ => .bind runNext_blind fun _ => afterBlock_blind

end LoopM
end TieredHart
