namespace TieredHart

inductive Width where
  | byte | half | word | double
  deriving DecidableEq

def Width.bytes : Width → Nat
  | byte => 1 | half => 2 | word => 4 | double => 8

inductive Condition where
  | eq | ne | lt | ge | ltu | geu
  deriving DecidableEq

inductive LoadOp where
  | lb | lh | lw | ld | lbu | lhu | lwu
  deriving DecidableEq

inductive StoreOp where
  | sb | sh | sw | sd
  deriving DecidableEq

inductive ImmOp where
  | addi | slti | sltiu | xori | ori | andi | slli | srli | srai
  deriving DecidableEq

inductive RegOp where
  | add | sub | sll | slt | sltu | xor | srl | sra | or | and
  deriving DecidableEq

inductive ImmOpW where
  | addiw | slliw | srliw | sraiw
  deriving DecidableEq

inductive RegOpW where
  | addw | subw | sllw | srlw | sraw
  deriving DecidableEq

inductive CsrUpdate where
  | write | set | clear
  deriving DecidableEq

inductive CsrSource where
  | register | field
  deriving DecidableEq

inductive Op where
  | lui | auipc | jal | jalr
  | branch (condition : Condition)
  | load (op : LoadOp)
  | store (op : StoreOp)
  | immediate (op : ImmOp)
  | register (op : RegOp)
  | immediateW (op : ImmOpW)
  | registerW (op : RegOpW)
  | fence | fenceI | ecall | ebreak | mret | wfi
  | csr (update : CsrUpdate) (source : CsrSource)
  deriving DecidableEq

namespace Op

-- Every operation, at the place of its number in micro-op records.
def all : List Op :=
  [.lui, .auipc, .jal, .jalr,
   .branch .eq, .branch .ne, .branch .lt, .branch .ge, .branch .ltu, .branch .geu,
   .load .lb, .load .lh, .load .lw, .load .ld, .load .lbu, .load .lhu, .load .lwu,
   .store .sb, .store .sh, .store .sw, .store .sd,
   .immediate .addi, .immediate .slti, .immediate .sltiu, .immediate .xori, .immediate .ori, .immediate .andi,
   .immediate .slli, .immediate .srli, .immediate .srai,
   .register .add, .register .sub, .register .sll, .register .slt, .register .sltu, .register .xor,
   .register .srl, .register .sra, .register .or, .register .and,
   .immediateW .addiw, .immediateW .slliw, .immediateW .srliw, .immediateW .sraiw,
   .registerW .addw, .registerW .subw, .registerW .sllw, .registerW .srlw, .registerW .sraw,
   .fence, .fenceI, .ecall, .ebreak, .mret, .wfi,
   .csr .write .register, .csr .set .register, .csr .clear .register,
   .csr .write .field, .csr .set .field, .csr .clear .field]

def ofNumber? (n : Nat) : Option Op := all[n]?

def number (op : Op) : Nat := all.idxOf op

def mnemonic : Op → String
  | lui => "lui" | auipc => "auipc" | jal => "jal" | jalr => "jalr"
  | branch .eq => "beq" | branch .ne => "bne" | branch .lt => "blt" | branch .ge => "bge"
  | branch .ltu => "bltu" | branch .geu => "bgeu"
  | load .lb => "lb" | load .lh => "lh" | load .lw => "lw" | load .ld => "ld"
  | load .lbu => "lbu" | load .lhu => "lhu" | load .lwu => "lwu"
  | store .sb => "sb" | store .sh => "sh" | store .sw => "sw" | store .sd => "sd"
  | immediate .addi => "addi" | immediate .slti => "slti" | immediate .sltiu => "sltiu"
  | immediate .xori => "xori" | immediate .ori => "ori" | immediate .andi => "andi"
  | immediate .slli => "slli" | immediate .srli => "srli" | immediate .srai => "srai"
  | register .add => "add" | register .sub => "sub" | register .sll => "sll" | register .slt => "slt"
  | register .sltu => "sltu" | register .xor => "xor" | register .srl => "srl" | register .sra => "sra"
  | register .or => "or" | register .and => "and"
  | immediateW .addiw => "addiw" | immediateW .slliw => "slliw"
  | immediateW .srliw => "srliw" | immediateW .sraiw => "sraiw"
  | registerW .addw => "addw" | registerW .subw => "subw" | registerW .sllw => "sllw"
  | registerW .srlw => "srlw" | registerW .sraw => "sraw"
  | fence => "fence" | fenceI => "fence.i" | ecall => "ecall" | ebreak => "ebreak" | mret => "mret" | wfi => "wfi"
  | csr .write .register => "csrrw" | csr .set .register => "csrrs" | csr .clear .register => "csrrc"
  | csr .write .field => "csrrwi" | csr .set .field => "csrrsi" | csr .clear .field => "csrrci"

end Op

inductive Role where
  | sequential
  | directBranch
  | indirectJump
  | serializing
  | trap
  deriving DecidableEq

def Role.name : Role → String
  | sequential => "Sequential" | directBranch => "DirectBranch" | indirectJump => "IndirectJump"
  | serializing => "Serializing" | trap => "Trap"

def Op.role : Op → Role
  | jal | branch _ => .directBranch
  | jalr => .indirectJump
  | fence | fenceI | mret | wfi | csr _ _ => .serializing
  | ecall | ebreak => .trap
  | lui | auipc | load _ | store _ | immediate _ | register _ | immediateW _ | registerW _ => .sequential

-- Every form of an instruction has the same fields; those a form lacks are zero when it was decoded. A CSR number is in
-- the immediate. Register numbers are below 32 in decoded instructions, but records of micro-ops may hold others.
structure Instruction where
  op : Op
  rd : Nat
  rs1 : Nat
  rs2 : Nat
  imm : Int
  len : Nat
  deriving DecidableEq

namespace Instruction

def role (insn : Instruction) : Role := insn.op.role

def isTerminal (insn : Instruction) : Bool := insn.role ≠ .sequential

def isLoad (insn : Instruction) : Bool :=
  match insn.op with
  | .load _ => true
  | _ => false

def isStore (insn : Instruction) : Bool :=
  match insn.op with
  | .store _ => true
  | _ => false

def branchTarget? (insn : Instruction) (pc : BitVec 64) : Option (BitVec 64) :=
  match insn.role with
  | .directBranch => some (pc + BitVec.ofInt 64 insn.imm)
  | _ => none

end Instruction
end TieredHart
