import TieredHart.Execute

namespace TieredHart.Reference

-- RV64 on integers. A register holds a number below 2^64; what an instruction computes is an integer, of which the
-- register keeps the remainder. No operation on words appears here.

def unsigned (width : Nat) (value : Int) : Nat := (value % (1 <<< width : Nat)).toNat

def signed (width : Nat) (value : Int) : Int := value.bmod (1 <<< width)

structure State where
  x : Nat → Nat
  pc : Nat
  mstatus : Nat
  mie : Nat
  mtvec : Nat
  mscratch : Nat
  mepc : Nat
  mcause : Nat
  mtval : Nat
  instret : Nat
  hartid : Nat
  mip : Nat

def truth (condition : Bool) : Int := if condition then 1 else 0

def taken : Condition → Nat → Nat → Bool
  | .eq, a, b => a = b
  | .ne, a, b => a ≠ b
  | .lt, a, b => signed 64 a < signed 64 b
  | .ge, a, b => signed 64 b ≤ signed 64 a
  | .ltu, a, b => a < b
  | .geu, a, b => b ≤ a

-- Shifts are products and quotients; the amount is the low six bits of the register.
def arithmetic : RegOp → Nat → Nat → Int
  | .add, a, b => a + b
  | .sub, a, b => a - b
  | .sll, a, b => a * (1 <<< (b % 64) : Nat)
  | .slt, a, b => truth (signed 64 a < signed 64 b)
  | .sltu, a, b => truth (a < b)
  | .xor, a, b => (a ^^^ b : Nat)
  | .srl, a, b => (a / 1 <<< (b % 64) : Nat)
  | .sra, a, b => signed 64 a / (1 <<< (b % 64) : Nat)
  | .or, a, b => (a ||| b : Nat)
  | .and, a, b => (a &&& b : Nat)

def arithmeticImmediate : ImmOp → Nat → Int → Int
  | .addi, a, imm => a + imm
  | .slti, a, imm => truth (signed 64 a < imm)
  | .sltiu, a, imm => truth (a < unsigned 64 imm)
  | .xori, a, imm => (a ^^^ unsigned 64 imm : Nat)
  | .ori, a, imm => (a ||| unsigned 64 imm : Nat)
  | .andi, a, imm => (a &&& unsigned 64 imm : Nat)
  | .slli, a, imm => a * (1 <<< imm.toNat : Nat)
  | .srli, a, imm => (a / 1 <<< imm.toNat : Nat)
  | .srai, a, imm => signed 64 a / (1 <<< imm.toNat : Nat)

-- Operations on words of 32 bits; of their results the low 32 bits count, sign-extended.
def arithmeticWord : RegOpW → Nat → Nat → Int
  | .addw, a, b => a + b
  | .subw, a, b => a - b
  | .sllw, a, b => a * (1 <<< (b % 32) : Nat)
  | .srlw, a, b => (unsigned 32 a / 1 <<< (b % 32) : Nat)
  | .sraw, a, b => signed 32 a / (1 <<< (b % 32) : Nat)

def arithmeticWordImmediate : ImmOpW → Nat → Int → Int
  | .addiw, a, imm => a + imm
  | .slliw, a, imm => a * (1 <<< imm.toNat : Nat)
  | .srliw, a, imm => (unsigned 32 a / 1 <<< imm.toNat : Nat)
  | .sraiw, a, imm => signed 32 a / (1 <<< imm.toNat : Nat)

def loaded : LoadOp → Nat → Int
  | .lb, raw => signed 8 raw
  | .lh, raw => signed 16 raw
  | .lw, raw => signed 32 raw
  | .ld, raw => unsigned 64 raw
  | .lbu, raw => unsigned 8 raw
  | .lhu, raw => unsigned 16 raw
  | .lwu, raw => unsigned 32 raw

def loadWidth : LoadOp → Width
  | .lb | .lbu => .byte
  | .lh | .lhu => .half
  | .lw | .lwu => .word
  | .ld => .double

def storeWidth : StoreOp → Width
  | .sb => .byte
  | .sh => .half
  | .sw => .word
  | .sd => .double

inductive Access where
  | load (address : Nat) (width : Width)
  | store (address : Nat) (width : Width) (value : Nat)

def address (insn : Instruction) (s : State) : Nat := unsigned 64 (s.x insn.rs1 + insn.imm)

def access (insn : Instruction) (s : State) : Option Access :=
  match insn.op with
  | .load op => some (.load (address insn s) (loadWidth op))
  | .store op => some (.store (address insn s) (storeWidth op) (s.x insn.rs2))
  | _ => none

-- Control and status registers by number. Two numbers read the count of retired instructions, and only one of them
-- writes it.
def readCsr? (s : State) : Nat → Option Nat
  | 0x300 => some s.mstatus
  | 0x301 => some 0x8000000000000104
  | 0x304 => some s.mie
  | 0x305 => some s.mtvec
  | 0x340 => some s.mscratch
  | 0x341 => some s.mepc
  | 0x342 => some s.mcause
  | 0x343 => some s.mtval
  | 0x344 => some s.mip
  | 0xB02 | 0xC02 => some s.instret
  | 0xF14 => some s.hartid
  | _ => none

-- Of a status only the two enable bits can be written, and the previous mode is machine mode. A vector is a multiple
-- of four, a return address is even.
def writeCsr? (s : State) (number value : Nat) : Option State :=
  match number with
  | 0x300 => some { s with mstatus := value / 8 % 2 * 8 + value / 128 % 2 * 128 + 0x1800 }
  | 0x301 => some s
  | 0x304 => some { s with mie := value }
  | 0x305 => some { s with mtvec := value / 4 * 4 }
  | 0x340 => some { s with mscratch := value }
  | 0x341 => some { s with mepc := value / 2 * 2 }
  | 0x342 => some { s with mcause := value }
  | 0x343 => some { s with mtval := value }
  | 0x344 => some { s with mip := value }
  | 0xB02 => some { s with instret := value }
  | _ => none

-- Setting and clearing with a zero register field writes nothing, not even the old value.
def updateCsr? (s : State) (number : Nat) (update : CsrUpdate) (field old source : Nat) : Option State :=
  match update with
  | .write => writeCsr? s number source
  | .set => if field = 0 then some s else writeCsr? s number (old ||| source)
  | .clear => if field = 0 then some s else writeCsr? s number (old - (old &&& source))

def csrSource (s : State) (field : Nat) : CsrSource → Nat
  | .register => s.x field
  | .field => field

def returned (status : Nat) : Nat :=
  status - status / 8 % 2 * 8 - status / 128 % 2 * 128 + status / 128 % 2 * 8 + 128

structure Effect where
  value : Option Int
  next : Int
  rest : State

def effect? (insn : Instruction) (pc raw : Nat) (s : State) : Option Effect :=
  let a := s.x insn.rs1
  let b := s.x insn.rs2
  let after : Int := pc + insn.len
  match insn.op with
  | .lui => some ⟨some insn.imm, after, s⟩
  | .auipc => some ⟨some (pc + insn.imm), after, s⟩
  | .jal => some ⟨some after, pc + insn.imm, s⟩
  | .jalr => some ⟨some after, (a + insn.imm) / 2 * 2, s⟩
  | .branch condition => some ⟨none, if taken condition a b then pc + insn.imm else after, s⟩
  | .load op => some ⟨some (loaded op raw), after, s⟩
  | .immediate op => some ⟨some (arithmeticImmediate op a insn.imm), after, s⟩
  | .register op => some ⟨some (arithmetic op a b), after, s⟩
  | .immediateW op => some ⟨some (signed 32 (arithmeticWordImmediate op a insn.imm)), after, s⟩
  | .registerW op => some ⟨some (signed 32 (arithmeticWord op a b)), after, s⟩
  | .store _ | .fence | .fenceI | .wfi => some ⟨none, after, s⟩
  | .ecall | .ebreak => none
  | .mret => some ⟨none, s.mepc, { s with mstatus := returned s.mstatus }⟩
  | .csr update source => do
    let old ← readCsr? s insn.imm.toNat
    let written ← updateCsr? s insn.imm.toNat update insn.rs1 old (csrSource s insn.rs1 source)
    return ⟨some old, after, written⟩

def write (s : State) (rd : Nat) (value : Int) : State :=
  if rd = 0 then s else { s with x := fun r => if r = rd then unsigned 64 value else s.x r }

-- The state after an instruction and the address of the next. The register comes after everything else, the count last.
def retire? (insn : Instruction) (pc raw : Nat) (s : State) : Option (State × Nat) :=
  (effect? insn pc raw s).map fun effect =>
    let written := effect.value.elim effect.rest (write effect.rest insn.rd)
    ({ written with instret := unsigned 64 (written.instret + 1) }, unsigned 64 effect.next)

end Reference

def Hart.view (hart : Hart) : Reference.State where
  x r := if h : r < 32 then hart.regs[r].toNat else 0
  pc := hart.pc.toNat
  mstatus := hart.mstatus.toNat
  mie := hart.mie.toNat
  mtvec := hart.mtvec.toNat
  mscratch := hart.mscratch.toNat
  mepc := hart.mepc.toNat
  mcause := hart.mcause.toNat
  mtval := hart.mtval.toNat
  instret := hart.instret.toNat
  hartid := hart.hartid.toNat
  mip := hart.mip.toNat

theorem Hart.view_injective {hart other : Hart} (same : hart.view = other.view) : hart = other := by
  obtain ⟨regs, pc, mstatus, mie, mtvec, mscratch, mepc, mcause, mtval, instret, hartid, mip⟩ := hart
  obtain ⟨regs', pc', mstatus', mie', mtvec', mscratch', mepc', mcause', mtval', instret', hartid', mip'⟩ := other
  simp only [Hart.view, Reference.State.mk.injEq, BitVec.toNat_inj] at same
  obtain ⟨x, rfl, rfl, rfl, rfl, rfl, rfl, rfl, rfl, rfl, rfl, rfl⟩ := same
  have registers : regs = regs' := by
    ext1 r below
    have value := congrFun x r
    simpa only [below, dif_pos, BitVec.toNat_inj] using value
  rw [registers]

def Reference.Access.Made {σ : Type} (bus : Bus σ) (before after : Attached σ) (raw : Nat) : Option Access → Prop
  | none => after = before ∧ raw = 0
  | some (.load address width) => address % width.bytes = 0 ∧
    ∃ word, bus.load (BitVec.ofNat 64 address) width before = .ok (.ok word) after ∧ raw = word.toNat
  | some (.store address width value) => address % width.bytes = 0 ∧ raw = 0 ∧
    bus.store (BitVec.ofNat 64 address) width (BitVec.ofNat 64 value) before = .ok (.ok ()) after

-- An instruction retires at an address: its access is made first, and the lines are as that left them.
def Reference.Retires {σ : Type} (bus : Bus σ) (insn : Instruction) (pc : Word) (core after : Core σ) (next : Nat) : Prop :=
  ∃ attached raw, Access.Made bus ⟨core.hart.mip, core.device⟩ attached raw (access insn core.hart.view) ∧
    after.device = attached.device ∧
    retire? insn pc.toNat raw { core.hart with mip := attached.lines }.view = some (after.hart.view, next)

end TieredHart
