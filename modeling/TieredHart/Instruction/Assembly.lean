import TieredHart.Instruction.Op
import TieredHart.Text

namespace TieredHart.Instruction

def registerNames : List String :=
  ["zero", "ra", "sp", "gp", "tp", "t0", "t1", "t2", "s0", "s1", "a0", "a1", "a2", "a3", "a4", "a5", "a6", "a7",
   "s2", "s3", "s4", "s5", "s6", "s7", "s8", "s9", "s10", "s11", "t3", "t4", "t5", "t6"]

def registerName (r : Nat) : String := registerNames.getD (r % 32) ""

def assembly (insn : Instruction) : String :=
  let name := insn.op.mnemonic
  let rd := registerName insn.rd
  let rs1 := registerName insn.rs1
  let rs2 := registerName insn.rs2
  let imm := toString insn.imm
  let csr := Text.hex (insn.imm % 0x10000000000000000).toNat
  match insn.op with
  | .lui | .auipc => s!"{name} {rd}, " ++ Text.hex (insn.imm / 4096 % 1048576).toNat
  | .jal => s!"{name} {rd}, {imm}"
  | .jalr | .load _ => s!"{name} {rd}, {imm}({rs1})"
  | .branch _ => s!"{name} {rs1}, {rs2}, {imm}"
  | .store _ => s!"{name} {rs2}, {imm}({rs1})"
  | .immediate _ | .immediateW _ => s!"{name} {rd}, {rs1}, {imm}"
  | .csr _ .register => s!"{name} {rd}, {csr}, {rs1}"
  | .csr _ .field => s!"{name} {rd}, {csr}, {insn.rs1}"
  | .fence | .fenceI | .ecall | .ebreak | .mret | .wfi => name
  | .register _ | .registerW _ => s!"{name} {rd}, {rs1}, {rs2}"

end TieredHart.Instruction
