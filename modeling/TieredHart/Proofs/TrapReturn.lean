import TieredHart.FlatMemory
import TieredHart.Proofs.Attempts
import TieredHart.Proofs.HartLaws

namespace TieredHart

variable {σ : Type}

namespace Status

variable {status other : Word}

theorem and_mie (status : Word) : status &&& mie = if status.getLsbD 3 then mie else 0 := BitVec.and_twoPow status 3

theorem and_mpie (status : Word) : status &&& mpie = if status.getLsbD 7 then mpie else 0 := BitVec.and_twoPow status 7

theorem mie_clear : status &&& mie = 0 ↔ status.getLsbD 3 = false := by
  rw [and_mie]
  cases status.getLsbD 3 <;> decide

theorem mpie_clear : status &&& mpie = 0 ↔ status.getLsbD 7 = false := by
  rw [and_mpie]
  cases status.getLsbD 7 <;> decide

theorem mie_eq (same : status &&& mie = 0 ↔ other &&& mie = 0) : status &&& mie = other &&& mie := by
  rw [mie_clear, mie_clear] at same
  rw [and_mie, and_mie]
  revert same
  cases status.getLsbD 3 <;> cases other.getLsbD 3 <;> decide

theorem mie_bits : mie.getLsbD 3 = true ∧ mie.getLsbD 7 = false := by decide

theorem mpie_bits : mpie.getLsbD 3 = false ∧ mpie.getLsbD 7 = true := by decide

theorem stack_mpie (status : Word) : Hart.stackInterruptEnable status &&& mpie = 0 ↔ status &&& mie = 0 := by
  rw [mpie_clear]
  unfold Hart.stackInterruptEnable
  split
  · rename_i disabled
    simp only [BitVec.getLsbD_and, BitVec.getLsbD_not, mpie_bits, disabled]
    simp
  · rename_i enabled
    simp only [BitVec.getLsbD_and, BitVec.getLsbD_or, BitVec.getLsbD_not, mie_bits, mpie_bits, enabled]
    simp

theorem unstack_mie (status : Word) : Hart.unstackInterruptEnable status &&& mie = 0 ↔ status &&& mpie = 0 := by
  rw [mie_clear]
  unfold Hart.unstackInterruptEnable
  split
  · rename_i disabled
    simp only [BitVec.getLsbD_and, BitVec.getLsbD_or, BitVec.getLsbD_not, mie_bits, mpie_bits, disabled]
    simp
  · rename_i enabled
    simp only [BitVec.getLsbD_or, mie_bits, enabled]
    simp

theorem Legal.masked (legal : Legal status) : (status &&& (mie ||| mpie)) ||| mpp = status := by
  obtain ⟨enabled, previous, rfl⟩ := legal.eq_ofBits
  cases enabled <;> cases previous <;> rfl

end Status

theorem Word.cleared_of_even {word : Word} (even : word.toNat % 2 = 0) : word &&& ~~~1 = word := by
  apply BitVec.eq_of_getLsbD_eq
  intro i inside
  rw [BitVec.getLsbD_and, BitVec.getLsbD_not]
  rcases Nat.eq_zero_or_pos i with rfl | above
  · have low : word.getLsbD 0 = false := by simp only [BitVec.getLsbD, Nat.testBit_zero, even, Nat.zero_ne_one, decide_false]
    rw [low, Bool.false_and]
  · have other : (1 : Word).getLsbD i = false := by
      rw [show (1 : Word) = BitVec.twoPow 64 0 from rfl, BitVec.getLsbD_twoPow, decide_eq_false (Nat.ne_of_lt above), Bool.and_false]
    rw [other, decide_eq_true inside]
    simp

namespace Hart

variable {hart middle after : Hart} {pc status : Word}

structure Retains (hart after : Hart) : Prop where
  mepc : after.mepc = hart.mepc
  mstatus : after.mstatus = hart.mstatus

theorem Retains.trans (first : hart.Retains middle) (second : middle.Retains after) : hart.Retains after :=
  ⟨second.mepc.trans first.mepc, second.mstatus.trans first.mstatus⟩

theorem retired_retains (hart : Hart) (rd : Nat) (value : Option Word) : hart.Retains (Execute.retired hart rd value) := by
  unfold Execute.retired
  cases value with
  | none => exact ⟨rfl, rfl⟩
  | some value =>
    dsimp only [Option.elim_some]
    unfold put
    split
    · exact ⟨rfl, rfl⟩
    · split <;> exact ⟨rfl, rfl⟩

theorem writeCsr_retains {number : Nat} {value : Word} (mepc : Csr.ofNumber? (number % 65536) ≠ some .mepc)
    (mstatus : Csr.ofNumber? (number % 65536) ≠ some .mstatus) (written : hart.writeCsrAt? number value = some after) :
    hart.Retains after := by
  obtain ⟨csr, named, written⟩ := Option.bind_eq_some_iff.mp written
  cases csr with
  | mepc => exact absurd named mepc
  | mstatus => exact absurd named mstatus
  | instret | mhartid => cases written
  | misa | mie | mtvec | mscratch | mcause | mtval | mip | minstret =>
    cases written
    exact ⟨rfl, rfl⟩

structure Resumes (hart : Hart) (pc status : Word) : Prop where
  target : hart.mepc = pc
  enable : hart.mstatus &&& Status.mpie = 0 ↔ status &&& Status.mie = 0

theorem Resumes.retained (resumes : hart.Resumes pc status) (retains : hart.Retains after) : after.Resumes pc status :=
  ⟨retains.mepc.trans resumes.target, retains.mstatus ▸ resumes.enable⟩

theorem enterTrap_parts (handled : hart.mtvec ≠ 0) (raised : Trap) : (hart.enterTrap raised).1 = .resume ∧
    (hart.enterTrap raised).2.mepc = hart.pc ∧
    (hart.enterTrap raised).2.mstatus = stackInterruptEnable hart.mstatus := by
  unfold enterTrap
  rw [if_neg handled]
  exact ⟨rfl, rfl, rfl⟩

theorem enterTrap_resumes (handled : hart.mtvec ≠ 0) (raised : Trap) :
    (hart.enterTrap raised).2.Resumes hart.pc hart.mstatus := by
  obtain ⟨-, mepc, mstatus⟩ := enterTrap_parts handled raised
  refine ⟨mepc, ?_⟩
  rw [mstatus]
  exact Status.stack_mpie hart.mstatus

def writeBack (hart : Hart) : List (Nat × Word) → Option Hart
  | [] => some hart
  | (number, value) :: rest => (hart.writeCsrAt? number value).bind (writeBack · rest)

-- Writing back what an entry left makes up for anything done since, as long as the writes keep it whole.
theorem writeBack_resumes (hart : Hart) (even : pc.toNat % 2 = 0) (legal : Status.Legal status) {writes : List (Nat × Word)}
    (order : writes = [(0x341, pc), (0x300, stackInterruptEnable status)] ∨
      writes = [(0x300, stackInterruptEnable status), (0x341, pc)]) :
    ∃ restored, hart.writeBack writes = some restored ∧ restored.Resumes pc status := by
  have enable : (stackInterruptEnable status &&& (Status.mie ||| Status.mpie)) ||| Status.mpp =
      stackInterruptEnable status := legal.stack.masked
  refine ⟨{ hart with
    mepc := pc &&& ~~~1
    mstatus := (stackInterruptEnable status &&& (Status.mie ||| Status.mpie)) ||| Status.mpp }, ?_, ?_, ?_⟩
  · rcases order with rfl | rfl <;> rfl
  · exact Word.cleared_of_even even
  · rw [enable]
    exact Status.stack_mpie status

end Hart

structure Decoded where
  bytes : List UInt8
  insn : Instruction
  decoded : Instruction.decode bytes = .ok insn

namespace Decoded

theorem legal (code : Decoded) : code.insn.Legal := Instruction.decode_legal code.decoded

def Spares (code : Decoded) : Prop :=
  code.insn.op ≠ .mret ∧ code.insn.writtenCsr? ≠ some .mepc ∧ code.insn.writtenCsr? ≠ some .mstatus

end Decoded

namespace Execute

theorem exchanged_retains {hart after : Hart} {insn : Instruction} {update : CsrUpdate} {operand : CsrSource}
    {source old : Word} (named : insn.op = .csr update operand) (mepc : insn.writtenCsr? ≠ some .mepc)
    (mstatus : insn.writtenCsr? ≠ some .mstatus) (done : exchanged? hart insn update source = some (old, after)) :
    hart.Retains after := by
  rcases exchanged_cases done with rfl | ⟨new, writes, written⟩
  · exact ⟨rfl, rfl⟩
  · rw [Instruction.writtenCsr_of_write named writes, ← Instruction.csrNumber_mod] at mepc mstatus
    exact Hart.writeCsr_retains mepc mstatus written

end Execute

-- Only a return and a write that names one of the two registers touch what a return reads, fault or not.
theorem execute_retains {bus : Bus σ} {code : Decoded} {pc : Word} {core after : Core σ} {answer : Except Fault Flow}
    (spares : code.Spares) (ran : execute bus code.insn pc core = .ok answer after) : core.hart.Retains after.hart := by
  obtain ⟨stays, mepc, mstatus⟩ := spares
  have moved : ∀ t, core.hart.Retains (core.reattached t).hart := fun _ => ⟨rfl, rfl⟩
  cases (execute_executed bus code.insn pc core).answer ran with
  | computed => exact Hart.retired_retains ..
  | loaded | stored => exact (moved _).trans (Hart.retired_retains ..)
  | unloaded | unstored => exact moved _
  | misaligned | called | halted | denied => exact ⟨rfl, rfl⟩
  | returned named => exact absurd named stays
  | exchanged named done => exact (Execute.exchanged_retains named mepc mstatus done).trans (Hart.retired_retains ..)

inductive Incident (σ : Type) where
  -- An attempt at an instruction, at any address and over any bus. Its fault, if it has one, is not taken.
  | attempt (bus : Bus σ) (code : Decoded) (pc : Word)
  | trap (raised : Trap)
  -- Whoever runs the core moves pc, and devices move the lines and themselves.
  | outside (pc lines : Word) (device : σ)

namespace Incident

variable {core after : Core σ}

def perform : Incident σ → EStateM Failure (Core σ) Unit
  | attempt bus code pc => do let _ ← execute bus code.insn pc
  | trap raised => Core.modifyHart fun hart => (hart.enterTrap raised).2
  | outside pc lines device => modify fun core => ⟨{ core.hart with pc := pc, mip := lines }, device⟩

def performAll : List (Incident σ) → EStateM Failure (Core σ) Unit
  | [] => pure ()
  | incident :: rest => do
    incident.perform
    performAll rest

def Spares : Incident σ → Prop
  | attempt _ code _ => code.Spares
  | trap _ => False
  | outside .. => True

theorem perform_retains {incident : Incident σ} (spares : incident.Spares) (ran : incident.perform core = .ok () after) :
    core.hart.Retains after.hart := by
  cases incident with
  | attempt bus code pc =>
    obtain ⟨answer, middle, executed, done⟩ := EStateM.bind_eq_ok ran
    cases done
    exact execute_retains spares executed
  | trap raised => exact spares.elim
  | outside pc lines device =>
    cases ran
    exact ⟨rfl, rfl⟩

theorem performAll_retains {incidents : List (Incident σ)} (spares : ∀ incident ∈ incidents, incident.Spares)
    (ran : performAll incidents core = .ok () after) : core.hart.Retains after.hart := by
  induction incidents generalizing core with
  | nil =>
    cases ran
    exact ⟨rfl, rfl⟩
  | cons incident rest ih =>
    obtain ⟨⟨⟩, middle, first, others⟩ := EStateM.bind_eq_ok ran
    obtain ⟨here, behind⟩ := List.forall_mem_cons.mp spares
    exact (perform_retains here first).trans (ih behind others)

end Incident

def Core.ReturnsTo (core : Core σ) (code : Decoded) (earlier : Hart) : Prop :=
  ∀ bus pc, ∃ returned, execute bus code.insn pc core = .ok (.ok (.jump earlier.pc)) returned ∧
    returned.hart.mstatus &&& Status.mie = earlier.mstatus &&& Status.mie

theorem Hart.Resumes.returns {core : Core σ} {earlier : Hart} (resumes : core.hart.Resumes earlier.pc earlier.mstatus)
    {code : Decoded} (returns : code.insn.op = .mret) : core.ReturnsTo code earlier := by
  intro bus pc
  have ran : execute bus code.insn pc core = Execute.trapReturn code.insn.rd core := by
    rw [execute_known code.legal.rs1 code.legal.rs2, Instruction.action_return returns]
    rfl
  rw [Execute.trapReturn_eq, resumes.target] at ran
  exact ⟨_, ran, Status.mie_eq ((Status.unstack_mie core.hart.mstatus).trans resumes.enable)⟩

-- A return undoes the entry to a trap. It does so behind anything that spares the two registers it reads. Behind anything
-- at all, traps and returns included, it does so once the two are written back as they were read after the entry, in
-- either order; then pc has to be even and the status legal at the trap, since a write keeps no other values.
theorem Core.return_undoes_entry (before : Hart) (handled : before.mtvec ≠ 0) (raised : Trap) (code : Decoded)
    (returns : code.insn.op = .mret) :
    ∃ entered, TrapHandler.machine.handle raised before () = .ok (.resume, entered, ()) ∧
      (∀ (device : σ) incidents after, Incident.performAll incidents ⟨entered, device⟩ = .ok () after →
        (∀ incident ∈ incidents, incident.Spares) → after.ReturnsTo code before) ∧
      (before.pc.toNat % 2 = 0 → Status.Legal before.mstatus → ∃ mepc mstatus,
        entered.readCsrAt? 0x341 = some mepc ∧ entered.readCsrAt? 0x300 = some mstatus ∧
        ∀ (device : σ) incidents after, Incident.performAll incidents ⟨entered, device⟩ = .ok () after →
          ∀ writes, writes = [(0x341, mepc), (0x300, mstatus)] ∨ writes = [(0x300, mstatus), (0x341, mepc)] →
            ∃ restored, after.hart.writeBack writes = some restored ∧
              Core.ReturnsTo ⟨restored, after.device⟩ code before) := by
  obtain ⟨resume, mepc, mstatus⟩ := Hart.enterTrap_parts handled raised
  refine ⟨(before.enterTrap raised).2, ?_, ?_, ?_⟩
  · show Except.ok ((before.enterTrap raised).1, (before.enterTrap raised).2, ()) = _
    rw [resume]
  · intro device incidents after ran spares
    have kept := Incident.performAll_retains spares ran
    exact ((Hart.enterTrap_resumes handled raised).retained kept).returns returns
  · intro even legal
    refine ⟨before.pc, Hart.stackInterruptEnable before.mstatus, congrArg some mepc, congrArg some mstatus, ?_⟩
    intro device incidents after _ writes order
    obtain ⟨restored, written, resumes⟩ := after.hart.writeBack_resumes even legal order
    exact ⟨restored, written, Hart.Resumes.returns resumes returns⟩

def Hart.calling : Hart := { Hart.reset with pc := 0x1004, mtvec := 0x100, mstatus := 0x1808 }

namespace Decoded

def readsMepc : Decoded := ⟨[0x73, 0x25, 0x10, 0x34], ⟨.csr .set .register, 10, 0, 0, 0x341, 4⟩, rfl⟩

def writesMepc : Decoded := ⟨[0x73, 0x10, 0x15, 0x34], ⟨.csr .write .register, 0, 10, 0, 0x341, 4⟩, rfl⟩

def calls : Decoded := ⟨[0x73, 0x00, 0x00, 0x00], ⟨.ecall, 0, 0, 0, 0, 4⟩, rfl⟩

def returns : Decoded := ⟨[0x73, 0x00, 0x20, 0x30], ⟨.mret, 0, 0, 0, 0, 4⟩, rfl⟩

end Decoded

namespace Incident

def reading : List (Incident FlatMemory) :=
  [.attempt FlatMemory.bus .readsMepc 0x100, .attempt FlatMemory.bus .calls 0x104, .outside 0x108 0x80 ⟨#[1]⟩]

def nesting : List (Incident FlatMemory) :=
  [.attempt FlatMemory.bus .writesMepc 0x100, .trap (.interrupt 7), .attempt FlatMemory.bus .returns 0x100]

end Incident

theorem Core.calling_undone : Hart.calling.mtvec ≠ 0 ∧ ∃ entered,
    TrapHandler.machine.handle (.exception .environmentCall) Hart.calling () = .ok (.resume, entered, ()) ∧
    (∃ after, Incident.performAll Incident.reading ⟨entered, ⟨#[]⟩⟩ = .ok () after ∧ after.ReturnsTo .returns Hart.calling) ∧
    ∃ after restored, Incident.performAll Incident.nesting ⟨entered, ⟨#[]⟩⟩ = .ok () after ∧ after.hart.mepc = 0x100 ∧
      after.hart.writeBack [(0x300, 0x1880), (0x341, 0x1004)] = some restored ∧
      Core.ReturnsTo ⟨restored, after.device⟩ .returns Hart.calling := by
  have handled : Hart.calling.mtvec ≠ 0 := by decide
  have legal : Status.Legal Hart.calling.mstatus := Status.ofBits_legal true false
  have spares : ∀ incident ∈ Incident.reading, incident.Spares := by
    simp [Incident.reading, Incident.Spares, Decoded.Spares, Instruction.writtenCsr?, Decoded.readsMepc, Decoded.calls]
  have computed : (∃ done after, Incident.performAll Incident.reading
        ⟨(Hart.calling.enterTrap (.exception .environmentCall)).2, ⟨#[]⟩⟩ = .ok done after ∧ after.hart.mip = 0x80) ∧
      ∃ done after, Incident.performAll Incident.nesting
        ⟨(Hart.calling.enterTrap (.exception .environmentCall)).2, ⟨#[]⟩⟩ = .ok done after ∧ after.hart.mepc = 0x100 := by
    decide +kernel
  obtain ⟨⟨⟨⟩, read, reads, -⟩, ⟨⟩, nested, nests, moved⟩ := computed
  obtain ⟨entered, entry, spared, restored⟩ :=
    return_undoes_entry Hart.calling handled (.exception .environmentCall) .returns rfl
  cases entry
  obtain ⟨mepc, mstatus, epc, status, restores⟩ := restored (by decide) legal
  cases epc
  cases status
  obtain ⟨back, written, returns⟩ := restores _ _ _ nests _ (.inr rfl)
  exact ⟨handled, _, rfl, ⟨read, reads, spared _ _ _ reads spares⟩, nested, back, nests, moved, written, returns⟩

end TieredHart
