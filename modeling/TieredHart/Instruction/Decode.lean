import TieredHart.Bytes
import TieredHart.Fault
import TieredHart.Instruction.Op

namespace TieredHart.Instruction

def bits (w low width : Nat) : Nat := (w >>> low) % (1 <<< width)

def signed (width n : Nat) : Int := if n < 1 <<< (width - 1) then n else (n : Int) - (1 <<< width : Nat)

-- An instruction is long exactly when both low bits of its first parcel are set.
def lengthOf (parcel : Nat) : Nat := if parcel % 4 = 3 then 4 else 2

namespace Long

def immI (w : Nat) : Int := signed 12 (bits w 20 12)

def immS (w : Nat) : Int := signed 12 (bits w 25 7 <<< 5 + bits w 7 5)

def immB (w : Nat) : Int :=
  signed 13 (bits w 31 1 <<< 12 + bits w 7 1 <<< 11 + bits w 25 6 <<< 5 + bits w 8 4 <<< 1)

def immU (w : Nat) : Int := signed 32 (bits w 12 20 <<< 12)

def immJ (w : Nat) : Int :=
  signed 21 (bits w 31 1 <<< 20 + bits w 12 8 <<< 12 + bits w 20 1 <<< 11 + bits w 21 10 <<< 1)

def branchOp? : Nat → Option Condition
  | 0 => some .eq | 1 => some .ne | 4 => some .lt | 5 => some .ge | 6 => some .ltu | 7 => some .geu
  | _ => none

def loadOp? : Nat → Option LoadOp
  | 0 => some .lb | 1 => some .lh | 2 => some .lw | 3 => some .ld | 4 => some .lbu | 5 => some .lhu | 6 => some .lwu
  | _ => none

def storeOp? : Nat → Option StoreOp
  | 0 => some .sb | 1 => some .sh | 2 => some .sw | 3 => some .sd
  | _ => none

def immOp? (w : Nat) : Option (ImmOp × Int) :=
  let amount : Int := bits w 20 6
  match bits w 12 3, bits w 26 6 with
  | 0, _ => some (.addi, immI w)
  | 2, _ => some (.slti, immI w)
  | 3, _ => some (.sltiu, immI w)
  | 4, _ => some (.xori, immI w)
  | 6, _ => some (.ori, immI w)
  | 7, _ => some (.andi, immI w)
  | 1, 0 => some (.slli, amount)
  | 5, 0 => some (.srli, amount)
  | 5, 16 => some (.srai, amount)
  | _, _ => none

def immOpW? (w : Nat) : Option (ImmOpW × Int) :=
  let amount : Int := bits w 20 5
  match bits w 12 3, bits w 25 7 with
  | 0, _ => some (.addiw, immI w)
  | 1, 0 => some (.slliw, amount)
  | 5, 0 => some (.srliw, amount)
  | 5, 32 => some (.sraiw, amount)
  | _, _ => none

def regOp? (w : Nat) : Option RegOp :=
  match bits w 12 3, bits w 25 7 with
  | 0, 0 => some .add | 0, 32 => some .sub | 1, 0 => some .sll | 2, 0 => some .slt | 3, 0 => some .sltu
  | 4, 0 => some .xor | 5, 0 => some .srl | 5, 32 => some .sra | 6, 0 => some .or | 7, 0 => some .and
  | _, _ => none

def regOpW? (w : Nat) : Option RegOpW :=
  match bits w 12 3, bits w 25 7 with
  | 0, 0 => some .addw | 0, 32 => some .subw | 1, 0 => some .sllw | 5, 0 => some .srlw | 5, 32 => some .sraw
  | _, _ => none

def csrOp? : Nat → Option (CsrUpdate × CsrSource)
  | 1 => some (.write, .register) | 2 => some (.set, .register) | 3 => some (.clear, .register)
  | 5 => some (.write, .field) | 6 => some (.set, .field) | 7 => some (.clear, .field)
  | _ => none

def bareOp? : Nat → Option Op
  | 0x00000073 => some .ecall | 0x00100073 => some .ebreak | 0x30200073 => some .mret | 0x10500073 => some .wfi
  | _ => none

def fenceOp? : Nat → Option Op
  | 0 => some .fence | 1 => some .fenceI
  | _ => none

def decode? (w : Nat) : Option Instruction :=
  let rd := bits w 7 5
  let rs1 := bits w 15 5
  let rs2 := bits w 20 5
  match bits w 0 7 with
  | 0x37 => some ⟨.lui, rd, 0, 0, immU w, 4⟩
  | 0x17 => some ⟨.auipc, rd, 0, 0, immU w, 4⟩
  | 0x6f => some ⟨.jal, rd, 0, 0, immJ w, 4⟩
  | 0x67 => if bits w 12 3 = 0 then some ⟨.jalr, rd, rs1, 0, immI w, 4⟩ else none
  | 0x63 => (branchOp? (bits w 12 3)).map fun op => ⟨.branch op, 0, rs1, rs2, immB w, 4⟩
  | 0x03 => (loadOp? (bits w 12 3)).map fun op => ⟨.load op, rd, rs1, 0, immI w, 4⟩
  | 0x23 => (storeOp? (bits w 12 3)).map fun op => ⟨.store op, 0, rs1, rs2, immS w, 4⟩
  | 0x13 => (immOp? w).map fun (op, imm) => ⟨.immediate op, rd, rs1, 0, imm, 4⟩
  | 0x1b => (immOpW? w).map fun (op, imm) => ⟨.immediateW op, rd, rs1, 0, imm, 4⟩
  | 0x33 => (regOp? w).map fun op => ⟨.register op, rd, rs1, rs2, 0, 4⟩
  | 0x3b => (regOpW? w).map fun op => ⟨.registerW op, rd, rs1, rs2, 0, 4⟩
  | 0x0f => (fenceOp? (bits w 12 3)).map fun op => ⟨op, 0, 0, 0, 0, 4⟩
  | 0x73 =>
    if bits w 12 3 = 0 then (bareOp? w).map fun op => ⟨op, 0, 0, 0, 0, 4⟩
    else (csrOp? (bits w 12 3)).map fun (update, source) => ⟨.csr update source, rd, rs1, 0, bits w 20 12, 4⟩
  | _ => none

end Long

namespace Short

def register (h low : Nat) : Nat := 8 + bits h low 3

def imm6 (h : Nat) : Int := signed 6 (bits h 12 1 <<< 5 + bits h 2 5)

def amount (h : Nat) : Int := (bits h 12 1 <<< 5 + bits h 2 5 : Nat)

def immStackAddress (h : Nat) : Int :=
  (bits h 7 4 <<< 6 + bits h 11 2 <<< 4 + bits h 5 1 <<< 3 + bits h 6 1 <<< 2 : Nat)

def immStackAdjust (h : Nat) : Int :=
  signed 10 (bits h 12 1 <<< 9 + bits h 3 2 <<< 7 + bits h 5 1 <<< 6 + bits h 2 1 <<< 5 + bits h 6 1 <<< 4)

def immJump (h : Nat) : Int :=
  signed 12 (bits h 12 1 <<< 11 + bits h 8 1 <<< 10 + bits h 9 2 <<< 8 + bits h 6 1 <<< 7 +
    bits h 7 1 <<< 6 + bits h 2 1 <<< 5 + bits h 11 1 <<< 4 + bits h 3 3 <<< 1)

def immBranch (h : Nat) : Int :=
  signed 9 (bits h 12 1 <<< 8 + bits h 5 2 <<< 6 + bits h 2 1 <<< 5 + bits h 10 2 <<< 3 + bits h 3 2 <<< 1)

def offsetWord (h : Nat) : Int := (bits h 5 1 <<< 6 + bits h 10 3 <<< 3 + bits h 6 1 <<< 2 : Nat)

def offsetDouble (h : Nat) : Int := (bits h 5 2 <<< 6 + bits h 10 3 <<< 3 : Nat)

def offsetLoadWordStack (h : Nat) : Int :=
  (bits h 2 2 <<< 6 + bits h 12 1 <<< 5 + bits h 4 3 <<< 2 : Nat)

def offsetLoadDoubleStack (h : Nat) : Int :=
  (bits h 2 3 <<< 6 + bits h 12 1 <<< 5 + bits h 5 2 <<< 3 : Nat)

def offsetStoreWordStack (h : Nat) : Int := (bits h 7 2 <<< 6 + bits h 9 4 <<< 2 : Nat)

def offsetStoreDoubleStack (h : Nat) : Int := (bits h 7 3 <<< 6 + bits h 10 3 <<< 3 : Nat)

def pairOp? : Nat → Nat → Option Op
  | 0, 0 => some (.register .sub) | 0, 1 => some (.register .xor)
  | 0, 2 => some (.register .or) | 0, 3 => some (.register .and)
  | 1, 0 => some (.registerW .subw) | 1, 1 => some (.registerW .addw)
  | _, _ => none

def decodeArithmetic? (h : Nat) : Option Instruction :=
  let rd := register h 7
  match bits h 10 2 with
  | 0 => some ⟨.immediate .srli, rd, rd, 0, amount h, 2⟩
  | 1 => some ⟨.immediate .srai, rd, rd, 0, amount h, 2⟩
  | 2 => some ⟨.immediate .andi, rd, rd, 0, imm6 h, 2⟩
  | _ => (pairOp? (bits h 12 1) (bits h 5 2)).map fun op => ⟨op, rd, rd, register h 2, 0, 2⟩

def decodeMove? (h : Nat) : Option Instruction :=
  let rd := bits h 7 5
  let rs2 := bits h 2 5
  if bits h 12 1 = 0 then
    if rs2 = 0 then if rd = 0 then none else some ⟨.jalr, 0, rd, 0, 0, 2⟩
    else some ⟨.register .add, rd, 0, rs2, 0, 2⟩
  else if rs2 = 0 then
    if rd = 0 then some ⟨.ebreak, 0, 0, 0, 0, 2⟩ else some ⟨.jalr, 1, rd, 0, 0, 2⟩
  else some ⟨.register .add, rd, rd, rs2, 0, 2⟩

def decode? (h : Nat) : Option Instruction :=
  let rd := bits h 7 5
  let rs2 := bits h 2 5
  match bits h 0 2, bits h 13 3 with
  | 0, 0 => if immStackAddress h = 0 then none
            else some ⟨.immediate .addi, register h 2, 2, 0, immStackAddress h, 2⟩
  | 0, 2 => some ⟨.load .lw, register h 2, register h 7, 0, offsetWord h, 2⟩
  | 0, 3 => some ⟨.load .ld, register h 2, register h 7, 0, offsetDouble h, 2⟩
  | 0, 6 => some ⟨.store .sw, 0, register h 7, register h 2, offsetWord h, 2⟩
  | 0, 7 => some ⟨.store .sd, 0, register h 7, register h 2, offsetDouble h, 2⟩
  | 1, 0 => some ⟨.immediate .addi, rd, rd, 0, imm6 h, 2⟩
  | 1, 1 => if rd = 0 then none else some ⟨.immediateW .addiw, rd, rd, 0, imm6 h, 2⟩
  | 1, 2 => some ⟨.immediate .addi, rd, 0, 0, imm6 h, 2⟩
  | 1, 3 =>
    if rd = 2 then
      if immStackAdjust h = 0 then none else some ⟨.immediate .addi, 2, 2, 0, immStackAdjust h, 2⟩
    else if imm6 h = 0 ∨ rd = 0 then none
    else some ⟨.lui, rd, 0, 0, imm6 h * 4096, 2⟩
  | 1, 4 => decodeArithmetic? h
  | 1, 5 => some ⟨.jal, 0, 0, 0, immJump h, 2⟩
  | 1, 6 => some ⟨.branch .eq, 0, register h 7, 0, immBranch h, 2⟩
  | 1, 7 => some ⟨.branch .ne, 0, register h 7, 0, immBranch h, 2⟩
  | 2, 0 => some ⟨.immediate .slli, rd, rd, 0, amount h, 2⟩
  | 2, 2 => if rd = 0 then none else some ⟨.load .lw, rd, 2, 0, offsetLoadWordStack h, 2⟩
  | 2, 3 => if rd = 0 then none else some ⟨.load .ld, rd, 2, 0, offsetLoadDoubleStack h, 2⟩
  | 2, 4 => decodeMove? h
  | 2, 6 => some ⟨.store .sw, 0, 2, rs2, offsetStoreWordStack h, 2⟩
  | 2, 7 => some ⟨.store .sd, 0, 2, rs2, offsetStoreDoubleStack h, 2⟩
  | _, _ => none

end Short

def illegal (encoding : Nat) : Fault := .illegalInstruction (BitVec.ofNat 32 encoding)

-- The first instruction of a byte string. Bytes beyond it never matter; a string too short for the instruction that it
-- begins is illegal, and the fault carries the parcel that is there.
def decode : List UInt8 → Except Fault Instruction
  | b0 :: b1 :: rest =>
    let parcel := Bytes.value [b0, b1]
    if lengthOf parcel = 2 then
      match Short.decode? parcel with
      | some insn => .ok insn
      | none => .error (illegal parcel)
    else
      match rest with
      | b2 :: b3 :: _ =>
        let word := Bytes.value [b0, b1, b2, b3]
        match Long.decode? word with
        | some insn => .ok insn
        | none => .error (illegal word)
      | _ => .error (illegal parcel)
  | _ => .error (illegal 0)

end TieredHart.Instruction
