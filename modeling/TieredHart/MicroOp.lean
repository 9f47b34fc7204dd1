import TieredHart.ByteBuffer
import TieredHart.Instruction.Op

namespace TieredHart

inductive MicroKind where
  | insn
  -- Poll for interrupts when the immediate says it is time.
  | safepoint
  -- A branch back: taken, it goes on at the record given in aux.
  | loopBranch
  | exit
  deriving DecidableEq

namespace MicroKind

def number : MicroKind → UInt8
  | insn => 0 | safepoint => 1 | loopBranch => 2 | exit => 3

def ofNumber? (n : UInt8) : Option MicroKind :=
  if n = 0 then some insn else if n = 1 then some safepoint else if n = 2 then some loopBranch
  else if n = 3 then some exit else none

def name : MicroKind → String
  | insn => "Insn" | safepoint => "Safepoint" | loopBranch => "LoopBranch" | exit => "Exit"

end MicroKind

-- One record of threaded code. The offset of its guest address counts from the block's entry, so that code is valid
-- for every address its page is seen at.
structure MicroOp where
  kind : MicroKind
  op : UInt8
  rd : UInt8
  rs1 : UInt8
  rs2 : UInt8
  len : UInt8
  pcOffset : UInt16
  imm : Int32
  aux : UInt16
  deriving DecidableEq

namespace MicroOp

def control (kind : MicroKind) (pcOffset : UInt16) (imm : Int32) : MicroOp :=
  ⟨kind, 0, 0, 0, 0, 0, pcOffset, imm, 0⟩

def ofInstruction (kind : MicroKind) (insn : Instruction) (pcOffset aux : UInt16) : MicroOp :=
  ⟨kind, UInt8.ofNat insn.op.number, UInt8.ofNat insn.rd, UInt8.ofNat insn.rs1, UInt8.ofNat insn.rs2,
   UInt8.ofNat insn.len, pcOffset, Int32.ofInt insn.imm, aux⟩

def instruction? (micro : MicroOp) : Option Instruction :=
  (Op.ofNumber? micro.op.toNat).map fun op =>
    ⟨op, micro.rd.toNat, micro.rs1.toNat, micro.rs2.toNat, micro.imm.toInt, micro.len.toNat⟩

def toRecord (micro : MicroOp) : List UInt8 :=
  [micro.kind.number, micro.op, micro.rd, micro.rs1, micro.rs2, micro.len] ++
    Bytes.ofNat 2 micro.pcOffset.toNat ++ Bytes.ofNat 4 micro.imm.toUInt32.toNat ++ Bytes.ofNat 2 micro.aux.toNat ++
    [0, 0]

def ofRecord? : List UInt8 → Option MicroOp
  | [kind, op, rd, rs1, rs2, len, pc0, pc1, imm0, imm1, imm2, imm3, aux0, aux1, _, _] =>
    (MicroKind.ofNumber? kind).map fun kind =>
      ⟨kind, op, rd, rs1, rs2, len, UInt16.ofNat (Bytes.value [pc0, pc1]),
       (UInt32.ofNat (Bytes.value [imm0, imm1, imm2, imm3])).toInt32, UInt16.ofNat (Bytes.value [aux0, aux1])⟩
  | _ => none

def encode (micro : MicroOp) (buffer : ByteBuffer) : ByteBuffer := buffer.append micro.toRecord

def decode? (code : Array UInt8) (index : Nat) : Option MicroOp :=
  ofRecord? (code.extract (16 * index) (16 * index + 16)).toList

-- An index from outside: one whose record would start beyond the host's range is just not there, one whose record
-- would end beyond it fails.
def fetch (code : Array UInt8) (index : Nat) : Except Failure (Option MicroOp) := do
  if hostLimit ≤ 16 * index then return none
  let _ ← checkedAdd (16 * index) 16
  return decode? code index

-- Retired instructions after which a safepoint polls; a negative immediate stands for a number never reached.
def pollAfter (micro : MicroOp) : Nat := (micro.imm.toInt % 0x10000000000000000).toNat

end MicroOp
end TieredHart
