import TieredHart.Engine.Interpret
import TieredHart.Proofs.Attempts
import TieredHart.Proofs.Records

namespace TieredHart

variable {σ : Type}

def Core.atPc (core : Core σ) (pc : Word) : Core σ := { core with hart := { core.hart with pc := pc } }

namespace ThreadedCode

variable {code : Array UInt8} {bus : CodeBus σ} {entry : Entry} {micro : MicroOp} {insn : Instruction} {pc : Word}
  {flow : Flow} {cursor : Cursor} {core : Core σ}

theorem ends_setPc {good : Unit → Core σ → Prop} {bad : Failure → Core σ → Prop} :
    Ends (setPc pc) core good bad ↔ good () (core.atPc pc) := Iff.rfl

theorem ends_poll {good : Bool → Core σ → Prop} {bad : Failure → Core σ → Prop} : Ends (poll bus) core good bad ↔
    good (bus.poll core.hart core.device).1 ⟨core.hart, (bus.poll core.hart core.device).2⟩ := Iff.rfl

inductive Polls (bus : CodeBus σ) (micro : MicroOp) (pc : Word) (cursor : Cursor) (core : Core σ) :
    Progress → Core σ → Prop where
  | passed (early : cursor.sincePoll < micro.pollAfter) :
      Polls bus micro pc cursor core (.further { cursor with index := cursor.index + 1 }) core
  | polled {device : σ} (due : micro.pollAfter ≤ cursor.sincePoll)
      (answer : bus.poll (core.atPc pc).hart core.device = (false, device)) :
      Polls bus micro pc cursor core (.further ⟨cursor.index + 1, cursor.insns, 0⟩) ⟨(core.atPc pc).hart, device⟩
  | interrupted {device : σ} (due : micro.pollAfter ≤ cursor.sincePoll)
      (answer : bus.poll (core.atPc pc).hart core.device = (true, device)) :
      Polls bus micro pc cursor core (.left ⟨pc, .interrupt, none, cursor.insns, none⟩) ⟨(core.atPc pc).hart, device⟩

theorem stepSafepoint_polls : Ends (stepSafepoint bus micro pc cursor) core (Polls bus micro pc cursor core)
    fun _ _ => False := by
  unfold stepSafepoint
  split
  · rename_i due
    rw [ends_bind, ends_setPc, ends_bind, ends_poll]
    cases answer : bus.poll (core.atPc pc).hart (core.atPc pc).device with
    | mk pending device =>
      cases pending with
      | true => exact .interrupted due answer
      | false => exact .polled due answer
  · rename_i early
    exact .passed (Nat.lt_of_not_le early)

-- Once an instruction has retired, the block is left on request, goes on, goes back to its loop, or is left by a jump.
inductive Departs (bus : CodeBus σ) (entry : Entry) (micro : MicroOp) (insn : Instruction) (pc : Word) (cursor : Cursor)
    (core : Core σ) : Flow → Progress → Core σ → Prop where
  | asked {flow : Flow} (leaves : bus.mustLeave core.device = true) : Departs bus entry micro insn pc cursor core flow
      (.left ⟨flow.target pc insn.len, .toInterpreter, none, cursor.insns + 1, none⟩) (core.atPc (flow.target pc insn.len))
  | onward (stays : bus.mustLeave core.device = false) : Departs bus entry micro insn pc cursor core .next
      (.further ⟨cursor.index + 1, cursor.insns + 1, cursor.sincePoll + 1⟩) core
  | looped {target : Word} (stays : bus.mustLeave core.device = false) (loops : micro.kind = .loopBranch) :
      Departs bus entry micro insn pc cursor core (.jump target)
        (.further ⟨micro.aux.toNat, cursor.insns + 1, cursor.sincePoll + 1⟩) core
  | jumped {target : Word} (stays : bus.mustLeave core.device = false) :
      Departs bus entry micro insn pc cursor core (.jump target)
        (.left ⟨target, .fallthrough, if insn.role = .directBranch then chain? entry target else none, cursor.insns + 1, none⟩)
        (core.atPc target)

theorem afterRetired_departs : Ends (afterRetired bus entry micro insn pc flow cursor) core
    (Departs bus entry micro insn pc cursor core flow) fun _ _ => False := by
  unfold afterRetired
  rw [ends_bind, ends_get]
  cases leaves : bus.mustLeave core.device with
  | true => exact .asked leaves
  | false =>
    cases flow with
    | next => exact .onward leaves
    | jump target =>
      show Ends (if micro.kind = .loopBranch then _ else _) _ _ _
      split
      · rename_i loops
        exact .looped leaves loops
      · exact .jumped leaves

inductive Tries (bus : CodeBus σ) (entry : Entry) (micro : MicroOp) (insn : Instruction) (pc : Word) (cursor : Cursor)
    (core : Core σ) : Progress → Core σ → Prop where
  | faulted {fault : Fault} {after : Core σ} (ran : execute bus.toBus insn pc core = .ok (.error fault) after) :
      Tries bus entry micro insn pc cursor core
        (.left ⟨pc, .exception fault, none, cursor.insns, insn.readOnlyCsr?⟩) (after.atPc pc)
  | retired {flow : Flow} {middle after : Core σ} {progress : Progress}
      (ran : execute bus.toBus insn pc core = .ok (.ok flow) middle)
      (departs : Departs bus entry micro insn pc cursor middle flow progress after) :
      Tries bus entry micro insn pc cursor core progress after

theorem stepInsn_tries (named : micro.instruction? = some insn) : Ends (stepInsn bus entry micro pc cursor) core
    (Tries bus entry micro insn pc cursor core) fun failure after => execute bus.toBus insn pc core = .error failure after := by
  unfold stepInsn
  rw [named]
  dsimp only
  rw [ends_bind]
  refine .intro (fun answer middle ran => ?_) fun _ _ failed => failed
  cases answer with
  | error fault => exact .faulted ran
  | ok flow => exact afterRetired_departs.mono (fun _ _ departs => .retired ran departs) fun _ _ impossible => impossible.elim

theorem step_safepoint (there : MicroOp.decode? code cursor.index = some micro) (kind : micro.kind = .safepoint) :
    step code bus entry cursor = stepSafepoint bus micro (entry.pc + BitVec.ofNat 64 micro.pcOffset.toNat) cursor := by
  simp only [step, there, kind]

theorem step_executes (there : MicroOp.decode? code cursor.index = some micro) (kind : micro.Executes) :
    step code bus entry cursor = stepInsn bus entry micro (entry.pc + BitVec.ofNat 64 micro.pcOffset.toNat) cursor := by
  rcases kind with kind | kind <;> simp only [step, there, kind]

theorem step_exit (there : MicroOp.decode? code cursor.index = some micro) (kind : micro.kind = .exit) :
    step code bus entry cursor = setPc (entry.pc + BitVec.ofNat 64 micro.pcOffset.toNat) >>= fun _ =>
      pure (.left ⟨entry.pc + BitVec.ofNat 64 micro.pcOffset.toNat, .fallthrough,
        chain? entry (entry.pc + BitVec.ofNat 64 micro.pcOffset.toNat), cursor.insns, none⟩) := by
  simp only [step, there, kind]

inductive Stepped (code : Array UInt8) (bus : CodeBus σ) (entry : Entry) (cursor : Cursor) (core : Core σ) :
    Progress → Core σ → Prop where
  | safepoint {micro : MicroOp} {progress : Progress} {after : Core σ}
      (there : MicroOp.decode? code cursor.index = some micro) (kind : micro.kind = .safepoint)
      (polls : Polls bus micro (entry.pc + BitVec.ofNat 64 micro.pcOffset.toNat) cursor core progress after) :
      Stepped code bus entry cursor core progress after
  | insn {micro : MicroOp} {insn : Instruction} {progress : Progress} {after : Core σ}
      (there : MicroOp.decode? code cursor.index = some micro) (kind : micro.Executes)
      (named : micro.instruction? = some insn)
      (tries : Tries bus entry micro insn (entry.pc + BitVec.ofNat 64 micro.pcOffset.toNat) cursor core progress after) :
      Stepped code bus entry cursor core progress after
  | exit {micro : MicroOp} (there : MicroOp.decode? code cursor.index = some micro) (kind : micro.kind = .exit) :
      Stepped code bus entry cursor core
        (.left ⟨entry.pc + BitVec.ofNat 64 micro.pcOffset.toNat, .fallthrough,
          chain? entry (entry.pc + BitVec.ofNat 64 micro.pcOffset.toNat), cursor.insns, none⟩)
        (core.atPc (entry.pc + BitVec.ofNat 64 micro.pcOffset.toNat))

inductive Stuck (code : Array UInt8) (bus : CodeBus σ) (entry : Entry) (cursor : Cursor) (core : Core σ) (failure : Failure) :
    Core σ → Prop where
  | malformed : Stuck code bus entry cursor core failure core
  | insn {micro : MicroOp} {insn : Instruction} {after : Core σ} (there : MicroOp.decode? code cursor.index = some micro)
      (kind : micro.Executes) (named : micro.instruction? = some insn)
      (failed : execute bus.toBus insn (entry.pc + BitVec.ofNat 64 micro.pcOffset.toNat) core = .error failure after) :
      Stuck code bus entry cursor core failure after

theorem step_stepped : Ends (step code bus entry cursor) core (Stepped code bus entry cursor core)
    (Stuck code bus entry cursor core) := by
  cases there : MicroOp.decode? code cursor.index with
  | none =>
    simp only [step, there]
    exact .malformed
  | some micro =>
    have executes : micro.Executes → Ends (step code bus entry cursor) core (Stepped code bus entry cursor core)
        (Stuck code bus entry cursor core) := by
      intro kind
      rw [step_executes there kind]
      cases named : micro.instruction? with
      | none =>
        simp only [stepInsn, named]
        exact .malformed
      | some insn => exact (stepInsn_tries named).mono (fun _ _ => .insn there kind named) fun _ _ => .insn there kind named
    cases kind : micro.kind with
    | safepoint =>
      rw [step_safepoint there kind]
      exact stepSafepoint_polls.mono (fun _ _ => .safepoint there kind) fun _ _ impossible => impossible.elim
    | insn => exact executes (.inl kind)
    | loopBranch => exact executes (.inr kind)
    | exit =>
      rw [step_exit there kind]
      exact .exit there kind

-- What a run is made of, for properties that doing one thing after the other keeps.
section Kept

variable {holds : ∀ {α : Type}, EStateM Failure (Core σ) α → Prop} (keeps : Sequenced @holds)
  (moved : ∀ pc, holds (setPc pc)) (polled : holds (poll bus))
  (asked : ∀ {α : Type} {yes no : EStateM Failure (Core σ) α}, holds yes → holds no →
    holds (get >>= fun core => if bus.mustLeave core.device then yes else no))
  (executed : ∀ insn pc, holds (execute bus.toBus insn pc))

include keeps moved polled asked executed

theorem step_kept : holds (step code bus entry cursor) := by
  have retired : ∀ micro insn pc flow, holds (afterRetired bus entry micro insn pc flow cursor) := by
    intro micro insn pc flow
    refine asked (keeps.bind (moved _) fun _ => keeps.pure _) ?_
    cases flow with
    | next => exact keeps.pure _
    | jump target =>
      show holds (if micro.kind = .loopBranch then _ else _)
      split
      · exact keeps.pure _
      · exact keeps.bind (moved _) fun _ => keeps.pure _
  have tried : ∀ micro pc, holds (stepInsn bus entry micro pc cursor) := by
    intro micro pc
    unfold stepInsn
    cases micro.instruction? with
    | none => exact keeps.throw _
    | some insn =>
      refine keeps.bind (executed insn pc) fun answer => ?_
      cases answer with
      | ok flow => exact retired ..
      | error fault => exact keeps.bind (moved _) fun _ => keeps.pure _
  unfold step
  cases MicroOp.decode? code cursor.index with
  | none => exact keeps.throw _
  | some micro =>
    dsimp only
    cases micro.kind with
    | safepoint =>
      show holds (if micro.pollAfter ≤ cursor.sincePoll then _ else _)
      split
      · refine keeps.bind (moved _) fun _ => keeps.bind polled fun pending => ?_
        cases pending <;> exact keeps.pure _
      · exact keeps.pure _
    | insn => exact tried ..
    | loopBranch => exact tried ..
    | exit => exact keeps.bind (moved _) fun _ => keeps.pure _

theorem runFrom_kept (fuel : Nat) : holds (runFrom code bus entry fuel cursor) := by
  induction fuel generalizing cursor with
  | zero => exact keeps.throw _
  | succ fuel ih =>
    refine keeps.bind (step_kept keeps moved polled asked executed) fun progress => ?_
    cases progress with
    | further next => exact ih
    | left exit => exact keeps.pure _

end Kept

end ThreadedCode

namespace LoopM

variable {α : Type} {space : AddressSpace} {frame : Nat} {insn : Instruction} {pc : Word} {pa n more : Nat}
  {core : Core Engine} {good : α → Core Engine → Prop} {bad : Failure → Core Engine → Prop}

theorem ends_onEngine {action : EngineM α} : Ends (onEngine action) core good bad ↔ Ends action core.device
    (fun a engine => good a { core with device := engine }) fun e engine => bad e { core with device := engine } := by
  unfold Ends onEngine
  cases action core.device <;> rfl

theorem ends_onDataSide {action : EStateM Failure (Core DataSide) α} : Ends (onDataSide action) core good bad ↔
    Ends action ⟨core.hart, ⟨core.device, false⟩⟩ (fun a c => good a ⟨c.hart, c.device.engine⟩)
      fun e c => bad e ⟨c.hart, c.device.engine⟩ := by
  unfold Ends onDataSide
  cases action ⟨core.hart, ⟨core.device, false⟩⟩ <;> rfl

theorem ends_setPc {good : Unit → Core Engine → Prop} : Ends (setPc pc) core good bad ↔ good () (core.atPc pc) := Iff.rfl

inductive ExecutesOne (space : AddressSpace) (frame : Nat) (insn : Instruction) (pc : Word) (core : Core Engine) :
    Except Fault Flow → Core Engine → Prop where
  | quiet {answer : Except Fault Flow} {side : Core DataSide}
      (ran : execute (DataSide.codeBus space frame []).toBus insn pc ⟨core.hart, ⟨core.device, false⟩⟩ = .ok answer side) :
      ExecutesOne space frame insn pc core answer ⟨side.hart, side.device.engine⟩
  | reported {fault : Fault} {csr : Nat} {side : Core DataSide} (refused : insn.readOnlyCsr? = some csr)
      (ran : execute (DataSide.codeBus space frame []).toBus insn pc ⟨core.hart, ⟨core.device, false⟩⟩ =
        .ok (.error fault) side) : ExecutesOne space frame insn pc core (.error fault)
          ⟨side.hart, { side.device.engine with cache := side.device.engine.cache.report (.refusedCsr csr pc) }⟩

theorem executeOne_executes (space : AddressSpace) (frame : Nat) (insn : Instruction) (pc : Word) (core : Core Engine) :
    Ends (executeOne space frame insn pc) core (ExecutesOne space frame insn pc core) fun failure after =>
      ∃ side, execute (DataSide.codeBus space frame []).toBus insn pc ⟨core.hart, ⟨core.device, false⟩⟩ =
        .error failure side ∧ after = ⟨side.hart, side.device.engine⟩ := by
  unfold executeOne
  rw [ends_bind, ends_onDataSide]
  refine .intro (fun answer side ran => ?_) fun _ side failed => ⟨side, failed, rfl⟩
  cases answer with
  | ok flow => exact .quiet ran
  | error fault =>
    cases refused : insn.readOnlyCsr? with
    | none => exact .quiet ran
    | some csr => exact .reported refused ran

inductive InterpretsOne (space : AddressSpace) (frame : Nat) (pc : Word) (pa n : Nat) (core : Core Engine) :
    Interpreted → Core Engine → Prop where
  | unfetched {fault : Fault} {engine : Engine}
      (fetched : Engine.fetchInsn space pc pa (n = 0) core.device = .ok (.fault fault) engine) :
      InterpretsOne space frame pc pa n core (.over n (.fault fault)) ⟨core.hart, engine⟩
  | stopped {engine : Engine} (fetched : Engine.fetchInsn space pc pa (n = 0) core.device = .ok .stop engine) :
      InterpretsOne space frame pc pa n core (.over n (.next none)) ⟨core.hart, engine⟩
  | faulted {insn : Instruction} {crosses : Bool} {engine : Engine} {fault : Fault} {after : Core Engine}
      (fetched : Engine.fetchInsn space pc pa (n = 0) core.device = .ok (.insn insn crosses) engine)
      (ran : executeOne space frame insn pc ⟨core.hart, engine⟩ = .ok (.error fault) after) :
      InterpretsOne space frame pc pa n core (.over n (.fault fault)) after
  | last {insn : Instruction} {crosses : Bool} {engine : Engine} {flow : Flow} {after : Core Engine}
      (fetched : Engine.fetchInsn space pc pa (n = 0) core.device = .ok (.insn insn crosses) engine)
      (ran : executeOne space frame insn pc ⟨core.hart, engine⟩ = .ok (.ok flow) after)
      (closes : (insn.isTerminal || crosses) = true) :
      InterpretsOne space frame pc pa n core (.over (n + 1) (.next none)) (after.atPc (flow.target pc insn.len))
  | inner {insn : Instruction} {crosses : Bool} {engine : Engine} {flow : Flow} {after : Core Engine}
      (fetched : Engine.fetchInsn space pc pa (n = 0) core.device = .ok (.insn insn crosses) engine)
      (ran : executeOne space frame insn pc ⟨core.hart, engine⟩ = .ok (.ok flow) after)
      (continues : (insn.isTerminal || crosses) = false) :
      InterpretsOne space frame pc pa n core (.further (flow.target pc insn.len) insn.len)
        (after.atPc (flow.target pc insn.len))

inductive FailsOne (space : AddressSpace) (frame : Nat) (pc : Word) (pa n : Nat) (core : Core Engine) (failure : Failure) :
    Core Engine → Prop where
  | fetch {engine : Engine} (failed : Engine.fetchInsn space pc pa (n = 0) core.device = .error failure engine) :
      FailsOne space frame pc pa n core failure ⟨core.hart, engine⟩
  | insn {insn : Instruction} {crosses : Bool} {engine : Engine} {after : Core Engine}
      (fetched : Engine.fetchInsn space pc pa (n = 0) core.device = .ok (.insn insn crosses) engine)
      (failed : executeOne space frame insn pc ⟨core.hart, engine⟩ = .error failure after) :
      FailsOne space frame pc pa n core failure after

theorem interpretOne_interprets (space : AddressSpace) (frame : Nat) (pc : Word) (pa n : Nat) (core : Core Engine) :
    Ends (interpretOne space frame pc pa n) core (InterpretsOne space frame pc pa n core)
      (FailsOne space frame pc pa n core) := by
  unfold interpretOne
  rw [ends_bind, ends_onEngine]
  refine .intro (fun found engine fetched => ?_) fun _ _ failed => .fetch failed
  cases found with
  | fault fault => exact .unfetched fetched
  | stop => exact .stopped fetched
  | insn insn crosses =>
    dsimp only
    rw [ends_bind]
    refine .intro (fun answer after ran => ?_) fun _ _ failed => .insn fetched failed
    cases answer with
    | error fault => exact .faulted fetched ran
    | ok flow =>
      dsimp only
      rw [ends_bind, ends_setPc]
      cases closes : insn.isTerminal || crosses with
      | true => exact .last fetched ran closes
      | false => exact .inner fetched ran closes

-- A block ends with an instruction that ends it, with the last there is room for, or with the last of its frame.
inductive Interprets (space : AddressSpace) (frame : Nat) :
    Nat → Word → Nat → Nat → Core Engine → Nat × Step → Core Engine → Prop where
  | ended {more : Nat} {pc : Word} {pa n insns : Nat} {core after : Core Engine} {step : Step}
      (one : interpretOne space frame pc pa n core = .ok (.over insns step) after) :
      Interprets space frame more pc pa n core (insns, step) after
  | full {pc next : Word} {pa n len : Nat} {core after : Core Engine}
      (one : interpretOne space frame pc pa n core = .ok (.further next len) after) :
      Interprets space frame 0 pc pa n core (n + 1, .next none) after
  | beyond {more : Nat} {pc next : Word} {pa pa' n len : Nat} {core after : Core Engine}
      (one : interpretOne space frame pc pa n core = .ok (.further next len) after) (added : checkedAdd pa len = .ok pa')
      (other : Page.frame pa' ≠ frame) : Interprets space frame (more + 1) pc pa n core (n + 1, .next none) after
  | onward {more : Nat} {pc next : Word} {pa pa' n len : Nat} {core middle after : Core Engine} {answer : Nat × Step}
      (one : interpretOne space frame pc pa n core = .ok (.further next len) middle) (added : checkedAdd pa len = .ok pa')
      (same : Page.frame pa' = frame) (later : Interprets space frame more next pa' (n + 1) middle answer after) :
      Interprets space frame (more + 1) pc pa n core answer after

inductive Fails (space : AddressSpace) (frame : Nat) (failure : Failure) :
    Nat → Word → Nat → Nat → Core Engine → Core Engine → Prop where
  | one {more : Nat} {pc : Word} {pa n : Nat} {core after : Core Engine}
      (failed : interpretOne space frame pc pa n core = .error failure after) : Fails space frame failure more pc pa n core after
  | address {more : Nat} {pc next : Word} {pa n len : Nat} {core after : Core Engine}
      (one : interpretOne space frame pc pa n core = .ok (.further next len) after)
      (failed : checkedAdd pa len = .error failure) : Fails space frame failure (more + 1) pc pa n core after
  | onward {more : Nat} {pc next : Word} {pa pa' n len : Nat} {core middle after : Core Engine}
      (one : interpretOne space frame pc pa n core = .ok (.further next len) middle) (added : checkedAdd pa len = .ok pa')
      (same : Page.frame pa' = frame) (later : Fails space frame failure more next pa' (n + 1) middle after) :
      Fails space frame failure (more + 1) pc pa n core after

theorem interpretFrom_interprets (space : AddressSpace) (frame more : Nat) (pc : Word) (pa n : Nat) (core : Core Engine) :
    Ends (interpretFrom space frame more pc pa n) core (Interprets space frame more pc pa n core)
      fun failure => Fails space frame failure more pc pa n core := by
  induction more generalizing pc pa n core with
  | zero =>
    unfold interpretFrom
    rw [ends_bind]
    refine .intro (fun result after one => ?_) fun _ _ failed => .one failed
    rcases result with ⟨insns, step⟩ | ⟨next, len⟩
    · exact .ended one
    · exact .full one
  | succ more ih =>
    unfold interpretFrom
    rw [ends_bind]
    refine .intro (fun result middle one => ?_) fun _ _ failed => .one failed
    rcases result with ⟨insns, step⟩ | ⟨next, len⟩
    · exact .ended one
    · dsimp only
      rw [ends_bind, ends_ofExcept]
      refine ⟨fun pa' added => ?_, fun _ failed => .address one failed⟩
      by_cases same : Page.frame pa' = frame
      · rw [if_neg (fun other => other same)]
        exact (ih next pa' (n + 1) middle).mono (fun _ _ => .onward one added same) fun _ _ => .onward one added same
      · rw [if_pos same]
        exact .beyond one added same

section Kept

variable {holds : ∀ {α : Type}, LoopM α → Prop} (keeps : Sequenced @holds)
  (fetched : ∀ pc pa first, holds (onEngine (Engine.fetchInsn space pc pa first)))
  (executed : ∀ insn pc, holds (executeOne space frame insn pc)) (moved : ∀ pc, holds (setPc pc))

include keeps fetched executed moved

theorem interpretOne_kept : holds (interpretOne space frame pc pa n) := by
  refine keeps.bind (fetched _ _ _) fun found => ?_
  cases found with
  | fault fault => exact keeps.pure _
  | stop => exact keeps.pure _
  | insn insn crosses =>
    refine keeps.bind (executed _ _) fun answer => ?_
    cases answer with
    | error fault => exact keeps.pure _
    | ok flow =>
      refine keeps.bind (moved _) fun _ => ?_
      split <;> exact keeps.pure _

theorem interpretFrom_kept (more : Nat) : holds (interpretFrom space frame more pc pa n) := by
  induction more generalizing pc pa n with
  | zero =>
    unfold interpretFrom
    refine keeps.bind (interpretOne_kept keeps fetched executed moved) fun result => ?_
    cases result <;> exact keeps.pure _
  | succ more ih =>
    unfold interpretFrom
    refine keeps.bind (interpretOne_kept keeps fetched executed moved) fun result => ?_
    rcases result with ⟨insns, step⟩ | ⟨next, len⟩
    · exact keeps.pure _
    · refine keeps.bind (keeps.ofExcept _) fun pa' => ?_
      split
      · exact keeps.pure _
      · exact ih

end Kept

end LoopM
end TieredHart
