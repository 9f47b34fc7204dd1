import TieredHart.Proofs.Execution

namespace TieredHart

variable {σ : Type}

def Hart.put (hart : Hart) (r : Nat) (value : Word) : Hart :=
  if r = 0 then hart else if h : r < 32 then { hart with regs := hart.regs.set r value } else hart

theorem Hart.writeReg_eq {hart : Hart} {r : Nat} (known : r < 32) (value : Word) :
    hart.writeReg r value = .ok (hart.put r value) := by
  simp only [writeReg, put, known, dif_pos]
  split <;> rfl

namespace Instruction

variable {insn : Instruction} {update : CsrUpdate} {operand : CsrSource} {old source new : Word}

-- The register that an instruction writes besides a general one: setting or clearing with a zero field writes none.
def writtenCsr? (insn : Instruction) : Option Csr :=
  match insn.op with
  | .csr update _ => if update = .write ∨ insn.rs1 ≠ 0 then Csr.ofNumber? insn.csrNumber else none
  | _ => none

theorem csrNew_asked (writes : csrNew? update insn.rs1 old source = some new) : update = .write ∨ insn.rs1 ≠ 0 := by
  cases update with
  | write => exact .inl rfl
  | set | clear =>
    right
    intro zero
    rw [zero] at writes
    cases writes

theorem csrNumber_mod (insn : Instruction) : insn.csrNumber % 65536 = insn.csrNumber := by
  apply Nat.mod_eq_of_lt
  unfold csrNumber
  omega

theorem writtenCsr_of_write (named : insn.op = .csr update operand)
    (writes : csrNew? update insn.rs1 old source = some new) : insn.writtenCsr? = Csr.ofNumber? insn.csrNumber := by
  simp [writtenCsr?, named, csrNew_asked writes]

end Instruction

namespace Core

def attached (core : Core σ) : Attached σ := ⟨core.hart.mip, core.device⟩

def reattached (core : Core σ) (t : Attached σ) : Core σ := ⟨{ core.hart with mip := t.lines }, t.device⟩

theorem reattached_attached (core : Core σ) : core.reattached core.attached = core := rfl

end Core

namespace Execute

variable {core : Core σ} {bus : Bus σ} {insn : Instruction} {t : Attached σ} {rd : Nat}

theorem read_eq {r : Nat} (known : r < 32) {α : Type} (next : Word → EStateM Failure (Core σ) α) :
    (get >>= fun core => MonadExcept.ofExcept (core.hart.reg r) >>= next) core = next core.hart.regs[r] core := by
  have there : core.hart.reg r = .ok core.hart.regs[r] := by simp [Hart.reg, known]
  show (MonadExcept.ofExcept (core.hart.reg r) >>= next) core = _
  rw [there]
  rfl

def retired (hart : Hart) (rd : Nat) (value : Option Word) : Hart := (value.elim hart (hart.put rd)).retire

theorem finish_eq (known : rd < 32) (value : Option Word) (flow : Flow) :
    finish rd value flow core = .ok (.ok flow) { core with hart := retired core.hart rd value } := by
  cases value with
  | none => rfl
  | some value =>
    have written : Core.updateHart (·.writeReg rd value) core = .ok () { core with hart := core.hart.put rd value } := by
      simp only [Core.updateHart, Hart.writeReg_eq known]
    unfold finish
    dsimp only
    rw [EStateM.bind_ok written]
    rfl

def settled {α : Type} (core : Core σ) (rd : Nat) (value : α → Option Word) :
    EStateM.Result Failure (Attached σ) (Except Fault α) → EStateM.Result Failure (Core σ) (Except Fault Flow)
  | .ok (.ok a) t => .ok (.ok .next) ⟨retired (core.reattached t).hart rd (value a), t.device⟩
  | .ok (.error fault) t => .ok (.error fault) (core.reattached t)
  | .error failure t => .error failure (core.reattached t)

theorem load_misaligned {op : LoadOp} {addr : Word} (odd : addr.toNat % op.width.bytes ≠ 0) :
    load bus op rd addr core = .ok (.error (.loadMisaligned addr)) core := by
  unfold load
  rw [if_pos odd]
  rfl

theorem load_aligned (known : rd < 32) {op : LoadOp} {addr : Word} (aligned : addr.toNat % op.width.bytes = 0) :
    load bus op rd addr core =
      settled core rd (fun raw => some (op.extend raw)) (bus.load addr op.width core.attached) := by
  unfold load
  rw [if_neg (fun odd => odd aligned)]
  show EStateM.bind _ _ _ = _
  unfold EStateM.bind Core.onBus
  show _ = settled core rd _ (bus.load addr op.width ⟨core.hart.mip, core.device⟩)
  cases bus.load addr op.width ⟨core.hart.mip, core.device⟩ with
  | error failure t => rfl
  | ok answer t =>
    cases answer with
    | error fault => rfl
    | ok raw => exact finish_eq known _ _

theorem store_misaligned {op : StoreOp} {addr value : Word} (odd : addr.toNat % op.width.bytes ≠ 0) :
    store bus op rd addr value core = .ok (.error (.storeMisaligned addr)) core := by
  unfold store
  rw [if_pos odd]
  rfl

theorem store_aligned (known : rd < 32) {op : StoreOp} {addr value : Word} (aligned : addr.toNat % op.width.bytes = 0) :
    store bus op rd addr value core =
      settled core rd (fun _ => none) (bus.store addr op.width value core.attached) := by
  unfold store
  rw [if_neg (fun odd => odd aligned)]
  show EStateM.bind _ _ _ = _
  unfold EStateM.bind Core.onBus
  show _ = settled core rd _ (bus.store addr op.width value ⟨core.hart.mip, core.device⟩)
  cases bus.store addr op.width value ⟨core.hart.mip, core.device⟩ with
  | error failure t => rfl
  | ok answer t =>
    cases answer with
    | error fault => rfl
    | ok done => exact finish_eq known _ _

theorem trapReturn_eq : trapReturn rd core =
    .ok (.ok (.jump core.hart.mepc)) { core with
      hart := retired { core.hart with mstatus := Hart.unstackInterruptEnable core.hart.mstatus } rd none } := rfl

theorem csr_eq (known : insn.rd < 32) (update : CsrUpdate) (source : Word) : csr insn update source core =
    (exchanged? core.hart insn update source).elim (.ok (.error (.illegalInstruction 0)) core)
      fun exchanged => .ok (.ok .next) { core with hart := retired exchanged.2 insn.rd (some exchanged.1) } := by
  show exchange insn.rd (exchanged? core.hart insn update source) core = _
  cases exchanged? core.hart insn update source with
  | none => rfl
  | some exchanged =>
    show finish insn.rd (some exchanged.1) .next { core with hart := exchanged.2 } = _
    exact finish_eq known _ _

end Execute

theorem execute_known {core : Core σ} {insn : Instruction} (first : insn.rs1 < 32) (second : insn.rs2 < 32) (bus : Bus σ)
    (pc : Word) : execute bus insn pc core =
      (insn.action pc core.hart.regs[insn.rs1] core.hart.regs[insn.rs2]).perform bus insn core := by
  unfold execute
  rw [Execute.read_eq first, Execute.read_eq second]

theorem ends_onBus {α : Type} {action : EStateM Failure (Attached σ) α} {core : Core σ} {good : α → Core σ → Prop}
    {bad : Failure → Core σ → Prop} : Ends (Core.onBus action) core good bad ↔ Ends action core.attached
      (fun a t => good a (core.reattached t)) fun e t => bad e (core.reattached t) := by
  unfold Ends Core.onBus Core.attached Core.reattached
  cases action ⟨core.hart.mip, core.device⟩ <;> rfl

-- The bus brings the host down on an access that is aligned, and leaves what is attached to it so.
def Bus.Fails (bus : Bus σ) (failure : Failure) (t : Attached σ) : Prop :=
  ∃ va width s, va.toNat % width.bytes = 0 ∧
    (bus.load va width s = .error failure t ∨ ∃ value, bus.store va width value s = .error failure t)

-- All that an attempt at an instruction can come to, if it does not bring the host down.
inductive Executed (bus : Bus σ) (insn : Instruction) (pc : Word) (core : Core σ) : Except Fault Flow → Core σ → Prop where
  | computed {value : Option Word} {flow : Flow} (other : ∀ op, insn.op ≠ .store op) (goes : insn.Goes pc flow) :
      Executed bus insn pc core (.ok flow) ⟨Execute.retired core.hart insn.rd value, core.device⟩
  | loaded {op : LoadOp} {base raw : Word} {t : Attached σ} (named : insn.op = .load op)
      (held : core.hart.reg insn.rs1 = .ok base)
      (answered : bus.load (base + Word.ofImmediate insn.imm) op.width core.attached = .ok (.ok raw) t) :
      Executed bus insn pc core (.ok .next)
        ⟨Execute.retired (core.reattached t).hart insn.rd (some (op.extend raw)), t.device⟩
  | unloaded {op : LoadOp} {base : Word} {fault : Fault} {t : Attached σ} (named : insn.op = .load op)
      (held : core.hart.reg insn.rs1 = .ok base)
      (answered : bus.load (base + Word.ofImmediate insn.imm) op.width core.attached = .ok (.error fault) t) :
      Executed bus insn pc core (.error fault) (core.reattached t)
  | stored {op : StoreOp} {base value : Word} {t : Attached σ} (named : insn.op = .store op)
      (held : core.hart.reg insn.rs1 = .ok base)
      (answered : bus.store (base + Word.ofImmediate insn.imm) op.width value core.attached = .ok (.ok ()) t) :
      Executed bus insn pc core (.ok .next) ⟨Execute.retired (core.reattached t).hart insn.rd none, t.device⟩
  | unstored {op : StoreOp} {base value : Word} {fault : Fault} {t : Attached σ} (named : insn.op = .store op)
      (held : core.hart.reg insn.rs1 = .ok base)
      (answered : bus.store (base + Word.ofImmediate insn.imm) op.width value core.attached = .ok (.error fault) t) :
      Executed bus insn pc core (.error fault) (core.reattached t)
  | misaligned {va : Word} {fault : Fault} (odd : fault = .loadMisaligned va ∨ fault = .storeMisaligned va) :
      Executed bus insn pc core (.error fault) core
  | called (named : insn.op = .ecall) : Executed bus insn pc core (.error .environmentCall) core
  | halted (named : insn.op = .ebreak) : Executed bus insn pc core (.error (.breakpoint pc)) core
  | returned (named : insn.op = .mret) : Executed bus insn pc core (.ok (.jump core.hart.mepc))
      ⟨Execute.retired { core.hart with mstatus := Hart.unstackInterruptEnable core.hart.mstatus } insn.rd none, core.device⟩
  | exchanged {update : CsrUpdate} {operand : CsrSource} {source old : Word} {hart : Hart}
      (named : insn.op = .csr update operand) (done : Execute.exchanged? core.hart insn update source = some (old, hart)) :
      Executed bus insn pc core (.ok .next) ⟨Execute.retired hart insn.rd (some old), core.device⟩
  | denied {update : CsrUpdate} {operand : CsrSource} {source : Word} (named : insn.op = .csr update operand)
      (refused : Execute.exchanged? core.hart insn update source = none) :
      Executed bus insn pc core (.error (.illegalInstruction 0)) core

-- All that it can fail by: the bus, or a number that no legal instruction has.
inductive Broken (bus : Bus σ) (insn : Instruction) (core : Core σ) (failure : Failure) : Core σ → Prop where
  | load {op : LoadOp} {va : Word} {t : Attached σ} (named : insn.op = .load op) (aligned : va.toNat % op.width.bytes = 0)
      (failed : bus.load va op.width core.attached = .error failure t) : Broken bus insn core failure (core.reattached t)
  | store {op : StoreOp} {va value : Word} {t : Attached σ} (named : insn.op = .store op)
      (aligned : va.toNat % op.width.bytes = 0) (failed : bus.store va op.width value core.attached = .error failure t) :
      Broken bus insn core failure (core.reattached t)
  | unfit {op : LoadOp} {va raw : Word} {t : Attached σ} (illegal : ¬ insn.Legal) (named : insn.op = .load op)
      (answered : bus.load va op.width core.attached = .ok (.ok raw) t) : Broken bus insn core failure (core.reattached t)
  | illegal {after : Core σ} (illegal : ¬ insn.Legal) (same : after.device = core.device) :
      Broken bus insn core failure after

theorem Broken.fails {bus : Bus σ} {insn : Instruction} {core after : Core σ} {failure : Failure}
    (broken : Broken bus insn core failure after) (legal : insn.Legal) : bus.Fails failure after.attached := by
  cases broken with
  | load _ aligned failed => exact ⟨_, _, _, aligned, .inl failed⟩
  | store _ aligned failed => exact ⟨_, _, _, aligned, .inr ⟨_, failed⟩⟩
  | unfit illegal => exact absurd legal illegal
  | illegal illegal => exact absurd legal illegal

namespace Execute

variable {core : Core σ} {bus : Bus σ} {insn : Instruction} {pc : Word}

theorem finish_ends {middle : Core σ} {value : Option Word} {flow : Flow} {good : Except Fault Flow → Core σ → Prop}
    {bad : Failure → Core σ → Prop} (done : good (.ok flow) ⟨retired middle.hart insn.rd value, middle.device⟩)
    (refused : ∀ failure, ¬ insn.Legal → bad failure middle) : Ends (finish insn.rd value flow) middle good bad := by
  by_cases known : insn.rd < 32
  · unfold Ends
    rw [finish_eq known]
    exact done
  · cases value with
    | none => exact done
    | some value =>
      have unwritten : Core.updateHart (·.writeReg insn.rd value) middle = .error .registerNumber middle := by
        have other : insn.rd ≠ 0 := by omega
        simp only [Core.updateHart, Hart.writeReg, known, other, if_false, dif_neg, not_false_eq_true]
      unfold finish
      rw [ends_bind]
      unfold Ends
      rw [unwritten]
      exact refused _ fun legal => known legal.rd

theorem load_executed {op : LoadOp} {base : Word} (named : insn.op = .load op) (held : core.hart.reg insn.rs1 = .ok base) :
    Ends (load bus op insn.rd (base + Word.ofImmediate insn.imm)) core (Executed bus insn pc core) (Broken bus insn core) := by
  unfold load
  split
  · exact .misaligned (.inl rfl)
  · rename_i aligned
    rw [ends_bind, ends_onBus]
    refine .intro (fun answer t answered => ?_) fun _ t failed => .load named (Decidable.not_not.mp aligned) failed
    cases answer with
    | ok raw => exact finish_ends (.loaded named held answered) fun _ illegal => .unfit illegal named answered
    | error fault => exact .unloaded named held answered

theorem store_executed {op : StoreOp} {base : Word} (named : insn.op = .store op) (held : core.hart.reg insn.rs1 = .ok base)
    (value : Word) : Ends (store bus op insn.rd (base + Word.ofImmediate insn.imm) value) core
      (Executed bus insn pc core) (Broken bus insn core) := by
  unfold store
  split
  · exact .misaligned (.inr rfl)
  · rename_i aligned
    rw [ends_bind, ends_onBus]
    refine .intro (fun answer t answered => ?_) fun _ t failed => .store named (Decidable.not_not.mp aligned) failed
    cases answer with
    | ok done => exact .stored named held answered
    | error fault => exact .unstored named held answered

theorem csr_executed {update : CsrUpdate} {operand : CsrSource} (named : insn.op = .csr update operand) (source : Word) :
    Ends (csr insn update source) core (Executed bus insn pc core) (Broken bus insn core) := by
  unfold csr
  rw [ends_bind, ends_get]
  cases done : exchanged? core.hart insn update source with
  | none => exact .denied named done
  | some exchanged =>
    show Ends (finish insn.rd (some exchanged.1) .next) { core with hart := exchanged.2 } _ _
    exact finish_ends (.exchanged named done) fun _ illegal => .illegal illegal rfl

end Execute

theorem execute_executed (bus : Bus σ) (insn : Instruction) (pc : Word) (core : Core σ) :
    Ends (execute bus insn pc) core (Executed bus insn pc core) (Broken bus insn core) := by
  have unread : ∀ {r : Nat} {failure : Failure}, core.hart.reg r = .error failure → ¬ r < 32 := by
    intro r failure refused known
    simp [Hart.reg, known] at refused
  unfold execute
  rw [ends_bind, ends_get, ends_bind, ends_ofExcept]
  refine ⟨fun a held => ?_, fun _ refused => .illegal (fun legal => unread refused legal.rs1) rfl⟩
  rw [ends_bind, ends_get, ends_bind, ends_ofExcept]
  refine ⟨fun b _ => ?_, fun _ refused => .illegal (fun legal => unread refused legal.rs2) rfl⟩
  have acts := insn.action_acts pc a b
  generalize insn.action pc a b = action at acts ⊢
  cases acts with
  | compute computes goes =>
    have other : ∀ op, insn.op ≠ .store op := fun op named => by simp [named, Op.Computes] at computes
    exact Execute.finish_ends (.computed other goes) fun _ illegal => .illegal illegal rfl
  | load named => exact Execute.load_executed named held
  | store named => exact Execute.store_executed named held b
  | exchange named => exact Execute.csr_executed named _
  | trapReturn named => exact .returned named
  | call named => exact .called named
  | halt named => exact .halted named
  | fail illegal => exact .illegal illegal rfl

-- What an instruction is made of, for properties that doing one thing after the other keeps.
theorem execute_kept {holds : ∀ {α : Type}, EStateM Failure (Core σ) α → Prop} (keeps : Sequenced @holds) (bus : Bus σ)
    (insn : Instruction) (pc : Word)
    (seen : ∀ {α : Type} (view : Hart → α), holds (get >>= fun core => pure (view core.hart)))
    (modified : ∀ change, holds (Core.modifyHart change)) (updated : ∀ change, holds (Core.updateHart change))
    (loaded : ∀ op va, insn.op = .load op → holds (Core.onBus (bus.load va op.width)))
    (stored : ∀ op va value, insn.op = .store op → holds (Core.onBus (bus.store va op.width value))) :
    holds (execute bus insn pc) := by
  have finished : ∀ rd value flow, holds (Execute.finish rd value flow) := by
    intro rd value flow
    unfold Execute.finish
    cases value with
    | none => exact keeps.bind (modified _) fun _ => keeps.pure _
    | some value => exact keeps.bind (updated _) fun _ => keeps.bind (modified _) fun _ => keeps.pure _
  have exchanged : ∀ exchanged, holds (Execute.exchange insn.rd exchanged) := by
    intro exchanged
    cases exchanged with
    | none => exact keeps.pure _
    | some exchanged => exact keeps.bind (modified _) fun _ => finished ..
  refine keeps.view (seen (·.reg insn.rs1)) fun first => keeps.bind (keeps.ofExcept first) fun a => ?_
  refine keeps.view (seen (·.reg insn.rs2)) fun second => keeps.bind (keeps.ofExcept second) fun b => ?_
  have acts := insn.action_acts pc a b
  generalize insn.action pc a b = action at acts ⊢
  cases acts with
  | compute => exact finished ..
  | @load op named =>
    dsimp only [Action.perform, Execute.load]
    split
    · exact keeps.pure _
    · refine keeps.bind (loaded op _ named) fun answer => ?_
      cases answer with
      | ok raw => exact finished ..
      | error fault => exact keeps.pure _
  | @store op named =>
    dsimp only [Action.perform, Execute.store]
    split
    · exact keeps.pure _
    · refine keeps.bind (stored op _ _ named) fun answer => ?_
      cases answer with
      | ok done => exact finished ..
      | error fault => exact keeps.pure _
  | @exchange update operand source => exact keeps.view (seen (Execute.exchanged? · insn update source)) exchanged
  | trapReturn =>
    have jump : ∀ target, holds (Core.modifyHart (fun hart =>
        { hart with mstatus := Hart.unstackInterruptEnable hart.mstatus }) >>= fun _ =>
          Execute.finish insn.rd none (.jump target)) :=
      fun _ => keeps.bind (modified _) fun _ => finished ..
    have returned := keeps.view (seen Hart.mepc) jump
    exact returned
  | call => exact keeps.pure _
  | halt => exact keeps.pure _
  | fail => exact keeps.throw _

def Bus.Refused (bus : Bus σ) (s t : Attached σ) : Prop :=
  (∃ va width fault, bus.load va width s = .ok (.error fault) t) ∨
    ∃ va width value fault, bus.store va width value s = .ok (.error fault) t

structure Attempted (bus : Bus σ) (insn : Instruction) (pc : Word) (core : Core σ) (answer : Except Fault Flow)
    (core' : Core σ) : Prop where
  straight : ∀ flow, answer = .ok flow → insn.role = .sequential → flow = .next
  branch : ∀ flow, answer = .ok flow → insn.role = .directBranch →
    flow = .next ∨ flow = .jump (pc + Word.ofImmediate insn.imm)
  fault : ∀ fault, answer = .error fault → core' = core ∨
    core'.hart = { core.hart with mip := core'.hart.mip } ∧
      bus.Refused ⟨core.hart.mip, core.device⟩ ⟨core'.hart.mip, core'.device⟩

variable {bus : Bus σ} {insn : Instruction} {pc : Word} {core after : Core σ} {flow : Flow}

theorem Instruction.Goes.straight (goes : insn.Goes pc flow) (role : insn.role = .sequential) : flow = .next := by
  cases goes with
  | next => rfl
  | aimed direct => simp [role] at direct
  | through named => simp [Instruction.role, named, Op.role] at role

theorem Instruction.Goes.branch (goes : insn.Goes pc flow) (role : insn.role = .directBranch) :
    flow = .next ∨ flow = .jump (pc + Word.ofImmediate insn.imm) := by
  cases goes with
  | next => exact .inl rfl
  | aimed => exact .inr rfl
  | through named => simp [Instruction.role, named, Op.role] at role

theorem Attempted.faulted {fault : Fault} (kept : after = core ∨ after.hart = { core.hart with mip := after.hart.mip } ∧
    bus.Refused ⟨core.hart.mip, core.device⟩ ⟨after.hart.mip, after.device⟩) :
    Attempted bus insn pc core (.error fault) after := by
  refine ⟨?_, ?_, fun _ _ => kept⟩
  · intro flow same
    cases same
  · intro flow same
    cases same

theorem Attempted.retired (straight : insn.role = .sequential → flow = .next)
    (branch : insn.role = .directBranch → flow = .next ∨ flow = .jump (pc + Word.ofImmediate insn.imm)) :
    Attempted bus insn pc core (.ok flow) after := by
  refine ⟨?_, ?_, ?_⟩
  · intro flow same
    exact Except.ok.inj same ▸ straight
  · intro flow same
    exact Except.ok.inj same ▸ branch
  · intro fault same
    cases same

theorem Executed.attempted {answer : Except Fault Flow} (executed : Executed bus insn pc core answer after) :
    Attempted bus insn pc core answer after := by
  cases executed with
  | computed _ goes => exact .retired goes.straight goes.branch
  | loaded | stored | exchanged => exact .retired (fun _ => rfl) fun _ => .inl rfl
  | unloaded _ _ answered => exact .faulted (.inr ⟨rfl, .inl ⟨_, _, _, answered⟩⟩)
  | unstored _ _ answered => exact .faulted (.inr ⟨rfl, .inr ⟨_, _, _, _, answered⟩⟩)
  | misaligned | called | halted | denied => exact .faulted (.inl rfl)
  | returned named =>
    have role : insn.role = .serializing := by simp [Instruction.role, named, Op.role]
    exact .retired (fun other => by simp [role] at other) fun other => by simp [role] at other

theorem execute_attempted (bus : Bus σ) (insn : Instruction) (pc : Word) (core : Core σ) :
    Ends (execute bus insn pc) core (fun answer core' => Attempted bus insn pc core answer core') fun _ _ => True :=
  (execute_executed bus insn pc core).mono (fun _ _ executed => executed.attempted) fun _ _ _ => trivial

end TieredHart
