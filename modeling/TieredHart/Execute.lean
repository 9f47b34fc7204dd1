import TieredHart.Bus
import TieredHart.Hart.Csr
import TieredHart.Hart.TrapEntry

namespace TieredHart

inductive Flow where
  | next
  | jump (target : Word)
  deriving DecidableEq

def Flow.target (flow : Flow) (pc : Word) (len : Nat) : Word :=
  match flow with
  | next => pc + BitVec.ofNat 64 len
  | jump target => target

def Condition.holds : Condition → Word → Word → Bool
  | eq, a, b => a == b
  | ne, a, b => a != b
  | lt, a, b => a.slt b
  | ge, a, b => !a.slt b
  | ltu, a, b => a.ult b
  | geu, a, b => !a.ult b

def LoadOp.width : LoadOp → Width
  | lb | lbu => .byte
  | lh | lhu => .half
  | lw | lwu => .word
  | ld => .double

def LoadOp.extend : LoadOp → Word → Word
  | lb, raw => (raw.setWidth 8).signExtend 64
  | lh, raw => (raw.setWidth 16).signExtend 64
  | lw, raw => (raw.setWidth 32).signExtend 64
  | ld, raw | lbu, raw | lhu, raw | lwu, raw => raw

def StoreOp.width : StoreOp → Width
  | sb => .byte
  | sh => .half
  | sw => .word
  | sd => .double

def bit (b : Bool) : Word := if b then 1 else 0

def RegOp.apply : RegOp → Word → Word → Word
  | add, a, b => a + b
  | sub, a, b => a - b
  | sll, a, b => a <<< (b.toNat % 64)
  | slt, a, b => bit (a.slt b)
  | sltu, a, b => bit (a.ult b)
  | xor, a, b => a ^^^ b
  | srl, a, b => a >>> (b.toNat % 64)
  | sra, a, b => a.sshiftRight (b.toNat % 64)
  | or, a, b => a ||| b
  | and, a, b => a &&& b

def ImmOp.toReg : ImmOp → RegOp
  | addi => .add | slti => .slt | sltiu => .sltu | xori => .xor | ori => .or | andi => .and
  | slli => .sll | srli => .srl | srai => .sra

def RegOpW.low : RegOpW → BitVec 32 → BitVec 32 → BitVec 32
  | addw, a, b => a + b
  | subw, a, b => a - b
  | sllw, a, b => a <<< (b.toNat % 32)
  | srlw, a, b => a >>> (b.toNat % 32)
  | sraw, a, b => a.sshiftRight (b.toNat % 32)

def RegOpW.apply (op : RegOpW) (a b : Word) : Word := (op.low (a.setWidth 32) (b.setWidth 32)).signExtend 64

def ImmOpW.toReg : ImmOpW → RegOpW
  | addiw => .addw | slliw => .sllw | srliw => .srlw | sraiw => .sraw

-- Immediate shifts of low halves carry their amount in six bits, of which a legal encoding leaves the top one clear.
def ImmOpW.apply (op : ImmOpW) (a imm : Word) : Except Failure Word :=
  match op with
  | addiw => .ok (op.toReg.apply a imm)
  | slliw | srliw | sraiw =>
    if imm.toNat % 64 < 32 then .ok (op.toReg.apply a imm) else .error .shiftAmount

namespace Instruction

def csrNumber (insn : Instruction) : Nat := (insn.imm % 65536).toNat

-- The value a CSR instruction writes, if it writes: setting or clearing with a zero register field does not.
def csrNew? (update : CsrUpdate) (field : Nat) (old source : Word) : Option Word :=
  match update with
  | .write => some source
  | .set => if field = 0 then none else some (old ||| source)
  | .clear => if field = 0 then none else some (old &&& ~~~source)

-- The read-only register named by a CSR instruction. When such an instruction faults, the refused write is the reason.
def readOnlyCsr? (insn : Instruction) : Option Nat :=
  match insn.op with
  | .csr _ _ =>
    match Csr.ofNumber? insn.csrNumber with
    | some csr => if csr.readOnly then some insn.csrNumber else none
    | none => none
  | _ => none

end Instruction

namespace Execute

variable {σ : Type}

def finish (rd : Nat) (value : Option Word) (flow : Flow) : EStateM Failure (Core σ) (Except Fault Flow) := do
  match value with
  | some value => Core.updateHart (·.writeReg rd value)
  | none => pure ()
  Core.modifyHart Hart.retire
  return .ok flow

def load (bus : Bus σ) (op : LoadOp) (rd : Nat) (addr : Word) : EStateM Failure (Core σ) (Except Fault Flow) := do
  if addr.toNat % op.width.bytes ≠ 0 then return .error (.loadMisaligned addr)
  match ← Core.onBus (bus.load addr op.width) with
  | .ok raw => finish rd (some (op.extend raw)) .next
  | .error fault => return .error fault

def store (bus : Bus σ) (op : StoreOp) (rd : Nat) (addr value : Word) :
    EStateM Failure (Core σ) (Except Fault Flow) := do
  if addr.toNat % op.width.bytes ≠ 0 then return .error (.storeMisaligned addr)
  match ← Core.onBus (bus.store addr op.width value) with
  | .ok () => finish rd none .next
  | .error fault => return .error fault

def trapReturn (rd : Nat) : EStateM Failure (Core σ) (Except Fault Flow) := do
  let target := (← get).hart.mepc
  Core.modifyHart fun hart => { hart with mstatus := Hart.unstackInterruptEnable hart.mstatus }
  finish rd none (.jump target)

def exchanged? (hart : Hart) (insn : Instruction) (update : CsrUpdate) (source : Word) : Option (Word × Hart) :=
  (hart.readCsrAt? insn.csrNumber).bind fun old =>
    ((Instruction.csrNew? update insn.rs1 old source).elim (some hart) (hart.writeCsrAt? insn.csrNumber)).map (old, ·)

def exchange (rd : Nat) (exchanged : Option (Word × Hart)) : EStateM Failure (Core σ) (Except Fault Flow) := do
  match exchanged with
  | none => return .error (.illegalInstruction 0)
  | some (old, hart) =>
    Core.modifyHart fun _ => hart
    finish rd (some old) .next

def csr (insn : Instruction) (update : CsrUpdate) (source : Word) : EStateM Failure (Core σ) (Except Fault Flow) := do
  exchange insn.rd (exchanged? (← get).hart insn update source)

end Execute

-- What an instruction comes down to once its source registers are read.
inductive Action where
  | compute (value : Option Word) (flow : Flow)
  | load (op : LoadOp) (addr : Word)
  | store (op : StoreOp) (addr value : Word)
  | exchange (update : CsrUpdate) (source : Word)
  | trapReturn
  | refuse (fault : Fault)
  | fail (failure : Failure)

def Instruction.action (insn : Instruction) (pc a b : Word) : Action :=
  let imm := Word.ofImmediate insn.imm
  let after := pc + BitVec.ofNat 64 insn.len
  match insn.op with
  | .lui => .compute (some imm) .next
  | .auipc => .compute (some (pc + imm)) .next
  | .jal => .compute (some after) (.jump (pc + imm))
  | .jalr => .compute (some after) (.jump ((a + imm) &&& ~~~1))
  | .branch condition => .compute none (if condition.holds a b then .jump (pc + imm) else .next)
  | .load op => .load op (a + imm)
  | .store op => .store op (a + imm) b
  | .immediate op => .compute (some (op.toReg.apply a imm)) .next
  | .register op => .compute (some (op.apply a b)) .next
  | .immediateW op =>
    match op.apply a imm with
    | .ok value => .compute (some value) .next
    | .error failure => .fail failure
  | .registerW op => .compute (some (op.apply a b)) .next
  | .fence | .fenceI | .wfi => .compute none .next
  | .ecall => .refuse .environmentCall
  | .ebreak => .refuse (.breakpoint pc)
  | .mret => .trapReturn
  | .csr update source => .exchange update (match source with | .register => a | .field => BitVec.ofNat 64 insn.rs1)

def Action.perform {σ : Type} (bus : Bus σ) (insn : Instruction) : Action → EStateM Failure (Core σ) (Except Fault Flow)
  | compute value flow => Execute.finish insn.rd value flow
  | load op addr => Execute.load bus op insn.rd addr
  | store op addr value => Execute.store bus op insn.rd addr value
  | exchange update source => Execute.csr insn update source
  | trapReturn => Execute.trapReturn insn.rd
  | refuse fault => return .error fault
  | fail failure => throw failure

-- Execute one instruction at an address. A fault changes nothing; pc itself is left to the caller. Both source fields
-- are read whatever the operation.
def execute {σ : Type} (bus : Bus σ) (insn : Instruction) (pc : Word) :
    EStateM Failure (Core σ) (Except Fault Flow) := do
  let a ← MonadExcept.ofExcept ((← get).hart.reg insn.rs1)
  let b ← MonadExcept.ofExcept ((← get).hart.reg insn.rs2)
  (insn.action pc a b).perform bus insn

end TieredHart
