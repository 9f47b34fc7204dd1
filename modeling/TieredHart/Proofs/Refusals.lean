import TieredHart.Proofs.Semantics

namespace TieredHart

variable {σ : Type}

-- A bus whose refused accesses leave everything attached to it as it was.
structure Bus.Atomic (bus : Bus σ) : Prop where
  load : ∀ va width s fault t, bus.load va width s = .ok (.error fault) t → t = s
  store : ∀ va width value s fault t, bus.store va width value s = .ok (.error fault) t → t = s

namespace Reference

def implemented : List Nat :=
  [0x300, 0x301, 0x304, 0x305, 0x340, 0x341, 0x342, 0x343, 0x344, 0xB02, 0xC02, 0xF14]

def readOnly : List Nat := [0xC02, 0xF14]

-- How an instruction can fault, and what it leaves then. An access out of alignment is not made: the bus has no part in
-- it. One that is made and refused leaves what the bus left, and the fault is the bus's.
def Refused (bus : Bus σ) (insn : Instruction) (pc : Word) (core : Core σ) (fault : Fault) (after : Core σ) : Prop :=
  match insn.op with
  | .load op =>
    if address insn core.hart.view % (loadWidth op).bytes = 0 then
      ∃ t, bus.load (BitVec.ofNat 64 (address insn core.hart.view)) (loadWidth op) core.attached = .ok (.error fault) t ∧
        after = core.reattached t
    else fault = .loadMisaligned (BitVec.ofNat 64 (address insn core.hart.view)) ∧ after = core
  | .store op =>
    if address insn core.hart.view % (storeWidth op).bytes = 0 then
      ∃ t, bus.store (BitVec.ofNat 64 (address insn core.hart.view)) (storeWidth op)
          (BitVec.ofNat 64 (core.hart.view.x insn.rs2)) core.attached = .ok (.error fault) t ∧
        after = core.reattached t
    else fault = .storeMisaligned (BitVec.ofNat 64 (address insn core.hart.view)) ∧ after = core
  | .ecall => fault = .environmentCall ∧ after = core
  | .ebreak => fault = .breakpoint pc ∧ after = core
  | .csr update _ => fault = .illegalInstruction 0 ∧ after = core ∧
    (insn.imm.toNat ∉ implemented ∨ insn.imm.toNat ∈ readOnly ∧ (update = .write ∨ insn.rs1 ≠ 0))
  | .lui | .auipc | .jal | .jalr | .branch _ | .immediate _ | .register _ | .immediateW _ | .registerW _ | .fence
  | .fenceI | .mret | .wfi => False

variable {bus : Bus σ} {insn : Instruction} {pc : Word} {core after : Core σ} {fault : Fault}

theorem settled_fault {α : Type} {rd : Nat} {value : α → Option Word}
    {result : EStateM.Result Failure (Attached σ) (Except Fault α)} :
    Execute.settled core rd value result = .ok (.error fault) after ↔
      ∃ t, result = .ok (.error fault) t ∧ after = core.reattached t := by
  constructor
  · intro settled
    rcases result with ⟨refusal | answer, t⟩ | ⟨failure, t⟩
    · cases settled
      exact ⟨t, rfl, rfl⟩
    · cases settled
    · cases settled
  · rintro ⟨t, rfl, rfl⟩
    rfl

theorem finish_fault {rd : Nat} (known : rd < 32) {value : Option Word} {flow : Flow} :
    ¬ Execute.finish rd value flow core = .ok (.error fault) after := by
  rw [Execute.finish_eq known]
  intro same
  cases same

theorem fault_iff {refusal : Fault} : (pure (.error refusal) : EStateM Failure (Core σ) (Except Fault Flow)) core =
    .ok (.error fault) after ↔ fault = refusal ∧ after = core := by
  constructor
  · intro same
    cases same
    exact ⟨rfl, rfl⟩
  · rintro ⟨rfl, rfl⟩
    rfl

theorem load_fault {rd : Nat} (known : rd < 32) {op : LoadOp} {va : Word} :
    Execute.load bus op rd va core = .ok (.error fault) after ↔
      if va.toNat % op.width.bytes = 0 then
        ∃ t, bus.load va op.width core.attached = .ok (.error fault) t ∧ after = core.reattached t
      else fault = .loadMisaligned va ∧ after = core := by
  split
  · rename_i aligned
    rw [Execute.load_aligned known aligned, settled_fault]
  · rename_i odd
    rw [Execute.load_misaligned odd]
    simp [eq_comm]

theorem store_fault {rd : Nat} (known : rd < 32) {op : StoreOp} {va value : Word} :
    Execute.store bus op rd va value core = .ok (.error fault) after ↔
      if va.toNat % op.width.bytes = 0 then
        ∃ t, bus.store va op.width value core.attached = .ok (.error fault) t ∧ after = core.reattached t
      else fault = .storeMisaligned va ∧ after = core := by
  split
  · rename_i aligned
    rw [Execute.store_aligned known aligned, settled_fault]
  · rename_i odd
    rw [Execute.store_misaligned odd]
    simp [eq_comm]

theorem csr_fault (known : insn.rd < 32) {update : CsrUpdate} {source : Word} :
    Execute.csr insn update source core = .ok (.error fault) after ↔
      fault = .illegalInstruction 0 ∧ after = core ∧ Execute.exchanged? core.hart insn update source = none := by
  rw [Execute.csr_eq known]
  cases Execute.exchanged? core.hart insn update source with
  | none => simp [eq_comm]
  | some exchanged => simp

theorem readCsr_none {s : State} {number : Nat} : readCsr? s number = none ↔ number ∉ implemented := by
  unfold readCsr? implemented
  split
  case h_13 => simp_all
  all_goals simp

theorem writeCsr_none {s : State} {number value : Nat} :
    writeCsr? s number value = none ↔ number ∉ implemented ∨ number ∈ readOnly := by
  unfold writeCsr? implemented readOnly
  split
  case h_11 => simp_all; omega
  all_goals simp

theorem exchanged_none (hart : Hart) {number : Nat} (small : number < 4096) (numbered : insn.csrNumber = number)
    (update : CsrUpdate) (source : Word) : Execute.exchanged? hart insn update source = none ↔
      number ∉ implemented ∨ number ∈ readOnly ∧ (update = .write ∨ insn.rs1 ≠ 0) := by
  have exchanged := exchanged_eq hart small numbered update source
  rw [← Option.map_eq_none_iff, exchanged]
  cases found : readCsr? hart.view number with
  | none => exact iff_of_true rfl (.inl (readCsr_none.mp found))
  | some old =>
    have there : number ∈ implemented := Decidable.not_not.mp fun missing => by
      rw [readCsr_none.mpr missing] at found
      cases found
    have write : ∀ value, writeCsr? hart.view number value = none ↔ number ∈ readOnly := by
      intro value
      rw [writeCsr_none]
      simp only [there, not_true_eq_false, false_or]
    simp only [Option.bind_some, Option.map_eq_none_iff, there, not_true_eq_false, false_or]
    cases update with
    | write => simp [updateCsr?, write]
    | set =>
      simp only [updateCsr?]
      split <;> simp_all
    | clear =>
      simp only [updateCsr?]
      split <;> simp_all

theorem refused_computes (computes : insn.op.Computes) : ¬ Refused bus insn pc core fault after := by
  intro refused
  unfold Refused at refused
  split at refused
  all_goals simp_all [Op.Computes]

theorem execute_refused (legal : insn.Legal) (fits : { insn with len := 4 }.Fits) :
    execute bus insn pc core = .ok (.error fault) after ↔ Refused bus insn pc core fault after := by
  obtain ⟨-, -, -, -, operands⟩ := fits
  have rd := legal.rd
  have first := legal.rs1
  have second := legal.rs2
  have b : core.hart.view.x insn.rs2 = core.hart.regs[insn.rs2].toNat := Hart.view_x second
  have place : address insn core.hart.view = (core.hart.regs[insn.rs1] + Word.ofImmediate insn.imm).toNat :=
    address_eq first
  rw [execute_known first second]
  have acts := insn.action_acts pc core.hart.regs[insn.rs1] core.hart.regs[insn.rs2]
  generalize insn.action pc core.hart.regs[insn.rs1] core.hart.regs[insn.rs2] = action at acts ⊢
  cases acts with
  | compute computes => exact iff_of_false (finish_fault rd) (refused_computes computes)
  | load named =>
    simp only [Refused, named, place, loadWidth_eq, word_ofNat]
    exact load_fault rd
  | store named =>
    simp only [Refused, named, place, storeWidth_eq, b, word_ofNat]
    exact store_fault rd
  | exchange named =>
    simp only [named] at operands
    obtain ⟨-, positive, below⟩ := operands
    have small : insn.imm.toNat < 4096 := by omega
    have numbered : insn.csrNumber = insn.imm.toNat := by
      simp only [Instruction.csrNumber]
      omega
    simp only [Refused, named]
    exact (csr_fault rd).trans (by rw [exchanged_none core.hart small numbered])
  | trapReturn named =>
    simp only [Refused, named, iff_false]
    show ¬ Execute.trapReturn insn.rd core = _
    rw [Execute.trapReturn_eq]
    intro same
    cases same
  | call named =>
    simp only [Refused, named]
    exact fault_iff
  | halt named =>
    simp only [Refused, named]
    exact fault_iff
  | fail illegal => exact absurd legal illegal

theorem Refused.unchanged (atomic : bus.Atomic) (refused : Refused bus insn pc core fault after) : after = core := by
  unfold Refused at refused
  split at refused
  · split at refused
    · obtain ⟨t, answered, rfl⟩ := refused
      rw [atomic.load _ _ _ _ _ answered]
      exact core.reattached_attached
    · exact refused.2
  · split at refused
    · obtain ⟨t, answered, rfl⟩ := refused
      rw [atomic.store _ _ _ _ _ _ answered]
      exact core.reattached_attached
    · exact refused.2
  · exact refused.2
  · exact refused.2
  · exact refused.2.1
  all_goals exact refused.elim

end Reference

-- A decoded instruction faults in exactly these ways, and none of them writes to the hart. Over a bus whose refused
-- accesses leave no trace, nothing at all has changed.
theorem execute_faults_atomically {bus : Bus σ} {bytes : List UInt8} {insn : Instruction}
    (decoded : Instruction.decode bytes = .ok insn) (pc : Word) (core : Core σ) (fault : Fault) (after : Core σ) :
    (execute bus insn pc core = .ok (.error fault) after ↔ Reference.Refused bus insn pc core fault after) ∧
    (bus.Atomic → execute bus insn pc core = .ok (.error fault) after → after = core) := by
  have refused : execute bus insn pc core = .ok (.error fault) after ↔ Reference.Refused bus insn pc core fault after :=
    Reference.execute_refused (Instruction.decode_legal decoded) (Instruction.operands_fit decoded)
  exact ⟨refused, fun atomic faulted => (refused.mp faulted).unchanged atomic⟩

theorem FlatMemory.bus_atomic : FlatMemory.bus.Atomic := by
  constructor
  · intro va width s fault t refused
    have ends : Ends (FlatMemory.bus.load va width) s (fun _ t => t = s) fun _ _ => True := by
      simp only [FlatMemory.bus, ends_bind, ends_get]
      split <;> rfl
    exact ends.answer refused
  · intro va width value s fault t refused
    have ends : Ends (FlatMemory.bus.store va width value) s (fun answer t => ∀ fault, answer = .error fault → t = s)
        fun _ _ => True := by
      simp only [FlatMemory.bus, ends_bind, ends_get]
      split
      · intro fault same
        cases same
      · exact fun _ _ => rfl
    exact ends.answer refused fault rfl

theorem load_faults_atomically :
    Instruction.decode [0x83, 0x22, 0x80, 0x00] = .ok ⟨.load .lw, 5, 0, 0, 8, 4⟩ ∧ FlatMemory.bus.Atomic ∧
    (∃ after, execute FlatMemory.bus ⟨.load .lw, 5, 0, 0, 8, 4⟩ 0x80 ⟨Hart.reset, ⟨#[1, 2, 3, 4]⟩⟩ =
      .ok (.error (.loadAccess 8)) after ∧ after = ⟨Hart.reset, ⟨#[1, 2, 3, 4]⟩⟩) ∧
    execute FlatMemory.bus ⟨.load .lw, 5, 0, 0, 2, 4⟩ 0x80 ⟨Hart.reset, ⟨#[1, 2, 3, 4]⟩⟩ =
      .ok (.error (.loadMisaligned 2)) ⟨Hart.reset, ⟨#[1, 2, 3, 4]⟩⟩ := by
  have far : Instruction.decode [0x83, 0x22, 0x80, 0x00] = .ok ⟨.load .lw, 5, 0, 0, 8, 4⟩ := rfl
  have odd : Instruction.decode [0x83, 0x22, 0x20, 0x00] = .ok ⟨.load .lw, 5, 0, 0, 2, 4⟩ := rfl
  have faulted : execute FlatMemory.bus ⟨.load .lw, 5, 0, 0, 8, 4⟩ 0x80 ⟨Hart.reset, ⟨#[1, 2, 3, 4]⟩⟩ =
    .ok (.error (.loadAccess 8)) ⟨Hart.reset, ⟨#[1, 2, 3, 4]⟩⟩ := rfl
  refine ⟨far, FlatMemory.bus_atomic, ⟨_, faulted, ?_⟩, ?_⟩
  · exact (execute_faults_atomically far _ _ _ _).2 FlatMemory.bus_atomic faulted
  · exact (execute_faults_atomically odd _ _ _ _).1.mpr ⟨rfl, rfl⟩

end TieredHart
