import TieredHart.Proofs.Encoding

namespace TieredHart

inductive PairOp where
  | sub | xor | or | and | subw | addw
  deriving DecidableEq

-- The short forms. Registers and immediates are those of the instruction that a form stands for.
inductive Compressed where
  | addi4spn (rd : Nat) (imm : Int)
  | lw (rd rs1 : Nat) (imm : Int)
  | ld (rd rs1 : Nat) (imm : Int)
  | sw (rs1 rs2 : Nat) (imm : Int)
  | sd (rs1 rs2 : Nat) (imm : Int)
  | addi (rd : Nat) (imm : Int)
  | addiw (rd : Nat) (imm : Int)
  | li (rd : Nat) (imm : Int)
  | addi16sp (imm : Int)
  | lui (rd : Nat) (imm : Int)
  | srli (rd : Nat) (imm : Int)
  | srai (rd : Nat) (imm : Int)
  | andi (rd : Nat) (imm : Int)
  | pair (op : PairOp) (rd rs2 : Nat)
  | j (imm : Int)
  | beqz (rs1 : Nat) (imm : Int)
  | bnez (rs1 : Nat) (imm : Int)
  | slli (rd : Nat) (imm : Int)
  | lwsp (rd : Nat) (imm : Int)
  | ldsp (rd : Nat) (imm : Int)
  | jr (rs1 : Nat)
  | mv (rd rs2 : Nat)
  | ebreak
  | jalr (rs1 : Nat)
  | add (rd rs2 : Nat)
  | swsp (rs2 : Nat) (imm : Int)
  | sdsp (rs2 : Nat) (imm : Int)

namespace PairOp

def high : PairOp → Nat
  | sub | xor | or | and => 0
  | subw | addw => 1

def low : PairOp → Nat
  | sub | subw => 0
  | xor | addw => 1
  | or => 2
  | and => 3

def op : PairOp → Op
  | sub => .register .sub | xor => .register .xor | or => .register .or | and => .register .and
  | subw => .registerW .subw | addw => .registerW .addw

end PairOp

namespace Compressed

open Instruction (pack complement bits)

def Near (register : Nat) : Prop := 8 ≤ register ∧ register < 16

def Within (imm : Int) (step : Int) (low high : Int) : Prop := imm % step = 0 ∧ low ≤ imm ∧ imm < high

-- What a form may hold. The rest of its places is reserved, or another form's.
def Legal : Compressed → Prop
  | addi4spn rd imm => Near rd ∧ Within imm 4 0 1024 ∧ imm ≠ 0
  | lw rd rs1 imm => Near rd ∧ Near rs1 ∧ Within imm 4 0 128
  | ld rd rs1 imm => Near rd ∧ Near rs1 ∧ Within imm 8 0 256
  | sw rs1 rs2 imm => Near rs1 ∧ Near rs2 ∧ Within imm 4 0 128
  | sd rs1 rs2 imm => Near rs1 ∧ Near rs2 ∧ Within imm 8 0 256
  | addi rd imm | li rd imm => rd < 32 ∧ Within imm 1 (-32) 32
  | addiw rd imm => rd < 32 ∧ rd ≠ 0 ∧ Within imm 1 (-32) 32
  | addi16sp imm => Within imm 16 (-512) 512 ∧ imm ≠ 0
  | lui rd imm => rd < 32 ∧ rd ≠ 0 ∧ rd ≠ 2 ∧ Within imm 4096 (-0x20000) 0x20000 ∧ imm ≠ 0
  | srli rd imm | srai rd imm => Near rd ∧ Within imm 1 0 64
  | andi rd imm => Near rd ∧ Within imm 1 (-32) 32
  | pair _ rd rs2 => Near rd ∧ Near rs2
  | j imm => Within imm 2 (-2048) 2048
  | beqz rs1 imm | bnez rs1 imm => Near rs1 ∧ Within imm 2 (-256) 256
  | slli rd imm => rd < 32 ∧ Within imm 1 0 64
  | lwsp rd imm => rd < 32 ∧ rd ≠ 0 ∧ Within imm 4 0 256
  | ldsp rd imm => rd < 32 ∧ rd ≠ 0 ∧ Within imm 8 0 512
  | jr rs1 | jalr rs1 => rs1 < 32 ∧ rs1 ≠ 0
  | mv rd rs2 | add rd rs2 => rd < 32 ∧ rs2 < 32 ∧ rs2 ≠ 0
  | ebreak => True
  | swsp rs2 imm => rs2 < 32 ∧ Within imm 4 0 256
  | sdsp rs2 imm => rs2 < 32 ∧ Within imm 8 0 512

def encode : Compressed → Nat
  | addi4spn rd imm =>
    pack [(2, 0), (3, rd - 8), (1, complement imm >>> 3), (1, complement imm >>> 2), (4, complement imm >>> 6),
      (2, complement imm >>> 4), (3, 0)]
  | lw rd rs1 imm =>
    pack [(2, 0), (3, rd - 8), (1, complement imm >>> 6), (1, complement imm >>> 2), (3, rs1 - 8),
      (3, complement imm >>> 3), (3, 2)]
  | ld rd rs1 imm =>
    pack [(2, 0), (3, rd - 8), (2, complement imm >>> 6), (3, rs1 - 8), (3, complement imm >>> 3), (3, 3)]
  | sw rs1 rs2 imm =>
    pack [(2, 0), (3, rs2 - 8), (1, complement imm >>> 6), (1, complement imm >>> 2), (3, rs1 - 8),
      (3, complement imm >>> 3), (3, 6)]
  | sd rs1 rs2 imm =>
    pack [(2, 0), (3, rs2 - 8), (2, complement imm >>> 6), (3, rs1 - 8), (3, complement imm >>> 3), (3, 7)]
  | addi rd imm => pack [(2, 1), (5, complement imm >>> 0), (5, rd), (1, complement imm >>> 5), (3, 0)]
  | addiw rd imm => pack [(2, 1), (5, complement imm >>> 0), (5, rd), (1, complement imm >>> 5), (3, 1)]
  | li rd imm => pack [(2, 1), (5, complement imm >>> 0), (5, rd), (1, complement imm >>> 5), (3, 2)]
  | addi16sp imm =>
    pack [(2, 1), (1, complement imm >>> 5), (2, complement imm >>> 7), (1, complement imm >>> 6),
      (1, complement imm >>> 4), (5, 2), (1, complement imm >>> 9), (3, 3)]
  | lui rd imm => pack [(2, 1), (5, complement imm >>> 12), (5, rd), (1, complement imm >>> 17), (3, 3)]
  | srli rd imm =>
    pack [(2, 1), (5, complement imm >>> 0), (3, rd - 8), (2, 0), (1, complement imm >>> 5), (3, 4)]
  | srai rd imm =>
    pack [(2, 1), (5, complement imm >>> 0), (3, rd - 8), (2, 1), (1, complement imm >>> 5), (3, 4)]
  | andi rd imm =>
    pack [(2, 1), (5, complement imm >>> 0), (3, rd - 8), (2, 2), (1, complement imm >>> 5), (3, 4)]
  | pair op rd rs2 => pack [(2, 1), (3, rs2 - 8), (2, op.low), (3, rd - 8), (2, 3), (1, op.high), (3, 4)]
  | j imm =>
    pack [(2, 1), (1, complement imm >>> 5), (3, complement imm >>> 1), (1, complement imm >>> 7),
      (1, complement imm >>> 6), (1, complement imm >>> 10), (2, complement imm >>> 8), (1, complement imm >>> 4),
      (1, complement imm >>> 11), (3, 5)]
  | beqz rs1 imm =>
    pack [(2, 1), (1, complement imm >>> 5), (2, complement imm >>> 1), (2, complement imm >>> 6), (3, rs1 - 8),
      (2, complement imm >>> 3), (1, complement imm >>> 8), (3, 6)]
  | bnez rs1 imm =>
    pack [(2, 1), (1, complement imm >>> 5), (2, complement imm >>> 1), (2, complement imm >>> 6), (3, rs1 - 8),
      (2, complement imm >>> 3), (1, complement imm >>> 8), (3, 7)]
  | slli rd imm => pack [(2, 2), (5, complement imm >>> 0), (5, rd), (1, complement imm >>> 5), (3, 0)]
  | lwsp rd imm =>
    pack [(2, 2), (2, complement imm >>> 6), (3, complement imm >>> 2), (5, rd), (1, complement imm >>> 5), (3, 2)]
  | ldsp rd imm =>
    pack [(2, 2), (3, complement imm >>> 6), (2, complement imm >>> 3), (5, rd), (1, complement imm >>> 5), (3, 3)]
  | jr rs1 => pack [(2, 2), (5, 0), (5, rs1), (1, 0), (3, 4)]
  | mv rd rs2 => pack [(2, 2), (5, rs2), (5, rd), (1, 0), (3, 4)]
  | ebreak => pack [(2, 2), (5, 0), (5, 0), (1, 1), (3, 4)]
  | jalr rs1 => pack [(2, 2), (5, 0), (5, rs1), (1, 1), (3, 4)]
  | add rd rs2 => pack [(2, 2), (5, rs2), (5, rd), (1, 1), (3, 4)]
  | swsp rs2 imm => pack [(2, 2), (5, rs2), (2, complement imm >>> 6), (4, complement imm >>> 2), (3, 6)]
  | sdsp rs2 imm => pack [(2, 2), (5, rs2), (3, complement imm >>> 6), (3, complement imm >>> 3), (3, 7)]

def expand : Compressed → Instruction
  | addi4spn rd imm => ⟨.immediate .addi, rd, 2, 0, imm, 4⟩
  | lw rd rs1 imm => ⟨.load .lw, rd, rs1, 0, imm, 4⟩
  | ld rd rs1 imm => ⟨.load .ld, rd, rs1, 0, imm, 4⟩
  | sw rs1 rs2 imm => ⟨.store .sw, 0, rs1, rs2, imm, 4⟩
  | sd rs1 rs2 imm => ⟨.store .sd, 0, rs1, rs2, imm, 4⟩
  | addi rd imm => ⟨.immediate .addi, rd, rd, 0, imm, 4⟩
  | addiw rd imm => ⟨.immediateW .addiw, rd, rd, 0, imm, 4⟩
  | li rd imm => ⟨.immediate .addi, rd, 0, 0, imm, 4⟩
  | addi16sp imm => ⟨.immediate .addi, 2, 2, 0, imm, 4⟩
  | lui rd imm => ⟨.lui, rd, 0, 0, imm, 4⟩
  | srli rd imm => ⟨.immediate .srli, rd, rd, 0, imm, 4⟩
  | srai rd imm => ⟨.immediate .srai, rd, rd, 0, imm, 4⟩
  | andi rd imm => ⟨.immediate .andi, rd, rd, 0, imm, 4⟩
  | pair op rd rs2 => ⟨op.op, rd, rd, rs2, 0, 4⟩
  | j imm => ⟨.jal, 0, 0, 0, imm, 4⟩
  | beqz rs1 imm => ⟨.branch .eq, 0, rs1, 0, imm, 4⟩
  | bnez rs1 imm => ⟨.branch .ne, 0, rs1, 0, imm, 4⟩
  | slli rd imm => ⟨.immediate .slli, rd, rd, 0, imm, 4⟩
  | lwsp rd imm => ⟨.load .lw, rd, 2, 0, imm, 4⟩
  | ldsp rd imm => ⟨.load .ld, rd, 2, 0, imm, 4⟩
  | jr rs1 => ⟨.jalr, 0, rs1, 0, 0, 4⟩
  | mv rd rs2 => ⟨.register .add, rd, 0, rs2, 0, 4⟩
  | ebreak => ⟨.ebreak, 0, 0, 0, 0, 4⟩
  | jalr rs1 => ⟨.jalr, 1, rs1, 0, 0, 4⟩
  | add rd rs2 => ⟨.register .add, rd, rd, rs2, 0, 4⟩
  | swsp rs2 imm => ⟨.store .sw, 0, 2, rs2, imm, 4⟩
  | sdsp rs2 imm => ⟨.store .sd, 0, 2, rs2, imm, 4⟩

-- Every abbreviated instruction also has a word of its own.
theorem expand_fits {form : Compressed} (legal : form.Legal) : form.expand.Fits := by
  cases form with
  | pair op rd rs2 =>
    cases op <;> grind [Legal, Near, expand, PairOp.op, Instruction.Fits]
  | _ => grind [Legal, Near, Within, expand, Instruction.Fits, ImmOp.funct6?, ImmOpW.funct7?]

end Compressed

namespace Compressed

open Instruction Instruction.Short

variable {h : Nat} {form : Compressed}

def Reads (h : Nat) : Compressed → Prop
  | addi4spn rd imm => bits h 0 2 = 0 ∧ bits h 13 3 = 0 ∧ register h 2 = rd ∧ Immediate.stackAddress.value h = imm
  | lw rd rs1 imm => bits h 0 2 = 0 ∧ bits h 13 3 = 2 ∧ register h 2 = rd ∧ register h 7 = rs1 ∧
    Immediate.word.value h = imm
  | ld rd rs1 imm => bits h 0 2 = 0 ∧ bits h 13 3 = 3 ∧ register h 2 = rd ∧ register h 7 = rs1 ∧
    Immediate.double.value h = imm
  | sw rs1 rs2 imm => bits h 0 2 = 0 ∧ bits h 13 3 = 6 ∧ register h 7 = rs1 ∧ register h 2 = rs2 ∧
    Immediate.word.value h = imm
  | sd rs1 rs2 imm => bits h 0 2 = 0 ∧ bits h 13 3 = 7 ∧ register h 7 = rs1 ∧ register h 2 = rs2 ∧
    Immediate.double.value h = imm
  | addi rd imm => bits h 0 2 = 1 ∧ bits h 13 3 = 0 ∧ bits h 7 5 = rd ∧ Immediate.imm6.value h = imm
  | addiw rd imm => bits h 0 2 = 1 ∧ bits h 13 3 = 1 ∧ bits h 7 5 = rd ∧ Immediate.imm6.value h = imm
  | li rd imm => bits h 0 2 = 1 ∧ bits h 13 3 = 2 ∧ bits h 7 5 = rd ∧ Immediate.imm6.value h = imm
  | addi16sp imm => bits h 0 2 = 1 ∧ bits h 13 3 = 3 ∧ bits h 7 5 = 2 ∧ Immediate.stackAdjust.value h = imm
  | lui rd imm => bits h 0 2 = 1 ∧ bits h 13 3 = 3 ∧ bits h 7 5 = rd ∧ Immediate.page.value h = imm
  | srli rd imm => bits h 0 2 = 1 ∧ bits h 13 3 = 4 ∧ bits h 10 2 = 0 ∧ register h 7 = rd ∧ Immediate.amount.value h = imm
  | srai rd imm => bits h 0 2 = 1 ∧ bits h 13 3 = 4 ∧ bits h 10 2 = 1 ∧ register h 7 = rd ∧ Immediate.amount.value h = imm
  | andi rd imm => bits h 0 2 = 1 ∧ bits h 13 3 = 4 ∧ bits h 10 2 = 2 ∧ register h 7 = rd ∧ Immediate.imm6.value h = imm
  | pair op rd rs2 => bits h 0 2 = 1 ∧ bits h 13 3 = 4 ∧ bits h 10 2 = 3 ∧ bits h 12 1 = op.high ∧
    bits h 5 2 = op.low ∧ register h 7 = rd ∧ register h 2 = rs2
  | j imm => bits h 0 2 = 1 ∧ bits h 13 3 = 5 ∧ Immediate.jump.value h = imm
  | beqz rs1 imm => bits h 0 2 = 1 ∧ bits h 13 3 = 6 ∧ register h 7 = rs1 ∧ Immediate.branch.value h = imm
  | bnez rs1 imm => bits h 0 2 = 1 ∧ bits h 13 3 = 7 ∧ register h 7 = rs1 ∧ Immediate.branch.value h = imm
  | slli rd imm => bits h 0 2 = 2 ∧ bits h 13 3 = 0 ∧ bits h 7 5 = rd ∧ Immediate.amount.value h = imm
  | lwsp rd imm => bits h 0 2 = 2 ∧ bits h 13 3 = 2 ∧ bits h 7 5 = rd ∧ Immediate.loadWordStack.value h = imm
  | ldsp rd imm => bits h 0 2 = 2 ∧ bits h 13 3 = 3 ∧ bits h 7 5 = rd ∧ Immediate.loadDoubleStack.value h = imm
  | jr rs1 => bits h 0 2 = 2 ∧ bits h 13 3 = 4 ∧ bits h 12 1 = 0 ∧ bits h 7 5 = rs1 ∧ bits h 2 5 = 0
  | mv rd rs2 => bits h 0 2 = 2 ∧ bits h 13 3 = 4 ∧ bits h 12 1 = 0 ∧ bits h 7 5 = rd ∧ bits h 2 5 = rs2
  | ebreak => bits h 0 2 = 2 ∧ bits h 13 3 = 4 ∧ bits h 12 1 = 1 ∧ bits h 7 5 = 0 ∧ bits h 2 5 = 0
  | jalr rs1 => bits h 0 2 = 2 ∧ bits h 13 3 = 4 ∧ bits h 12 1 = 1 ∧ bits h 7 5 = rs1 ∧ bits h 2 5 = 0
  | add rd rs2 => bits h 0 2 = 2 ∧ bits h 13 3 = 4 ∧ bits h 12 1 = 1 ∧ bits h 7 5 = rd ∧ bits h 2 5 = rs2
  | swsp rs2 imm => bits h 0 2 = 2 ∧ bits h 13 3 = 6 ∧ bits h 2 5 = rs2 ∧ Immediate.storeWordStack.value h = imm
  | sdsp rs2 imm => bits h 0 2 = 2 ∧ bits h 13 3 = 7 ∧ bits h 2 5 = rs2 ∧ Immediate.storeDoubleStack.value h = imm

theorem register_eq_iff {low r : Nat} (near : Near r) : register h low = r ↔ (r - 8) % 1 <<< 3 = bits h low 3 := by
  have field := bits_lt h low 3
  obtain ⟨above, below⟩ := near
  rw [Nat.mod_eq_of_lt (show r - 8 < 1 <<< 3 by omega), register]
  omega

theorem field_eq_iff {low r : Nat} (below : r < 32) : bits h low 5 = r ↔ r % 1 <<< 5 = bits h low 5 := by
  rw [Nat.mod_eq_of_lt (show r < 1 <<< 5 from below), eq_comm]

def Holds : Compressed → Prop
  | addi4spn _ imm => Immediate.stackAddress.layout.Fits imm
  | lw _ _ imm | sw _ _ imm => Immediate.word.layout.Fits imm
  | ld _ _ imm | sd _ _ imm => Immediate.double.layout.Fits imm
  | addi _ imm | addiw _ imm | li _ imm | andi _ imm => Immediate.imm6.layout.Fits imm
  | addi16sp imm => Immediate.stackAdjust.layout.Fits imm
  | lui _ imm => Immediate.page.layout.Fits imm
  | srli _ imm | srai _ imm | slli _ imm => Immediate.amount.layout.Fits imm
  | j imm => Immediate.jump.layout.Fits imm
  | beqz _ imm | bnez _ imm => Immediate.branch.layout.Fits imm
  | lwsp _ imm => Immediate.loadWordStack.layout.Fits imm
  | ldsp _ imm => Immediate.loadDoubleStack.layout.Fits imm
  | swsp _ imm => Immediate.storeWordStack.layout.Fits imm
  | sdsp _ imm => Immediate.storeDoubleStack.layout.Fits imm
  | pair _ _ _ | jr _ | mv _ _ | ebreak | jalr _ | add _ _ => True

theorem Legal.holds (legal : form.Legal) : form.Holds := by
  cases form with
  | j => exact legal
  | addi16sp => exact legal.1
  | addi4spn => exact legal.2.1
  | addi | li | srli | srai | andi | beqz | bnez | slli | swsp | sdsp => exact legal.2
  | lw | ld | sw | sd | addiw | lwsp | ldsp => exact legal.2.2
  | lui => exact legal.2.2.2.1
  | pair | jr | mv | ebreak | jalr | add => exact trivial

-- Form by form, both sides say the same of the same fields.
theorem encode_iff (small : h >>> 16 = 0) (legal : form.Legal) : form.encode = h ↔ form.Reads h := by
  cases form with
  | pair op rd rs2 =>
    simp only [Legal] at legal
    cases op <;> simp only [Reads, register_eq_iff, legal, encode, PairOp.low, PairOp.high, pack_cons_eq, pack_nil_eq,
      ← Nat.shiftRight_add, bits_shiftRight, Nat.reduceAdd, small, and_true] <;> grind
  | _ =>
    have holds := legal.holds
    simp only [Legal, Holds] at legal holds
    simp only [Reads, register_eq_iff, field_eq_iff, Immediate.value_eq_iff, legal, holds]
    simp only [Immediate.layout, Scattered, encode, pack_cons_eq, pack_nil_eq, ← Nat.shiftRight_add, bits_shiftRight,
      Nat.reduceAdd, small, and_true, shiftRight_mod]
    grind

theorem register_near (h low : Nat) : Near (register h low) := by
  have field := bits_lt h low 3
  unfold Near register
  omega

-- The forms are all that the decoder knows, and it tells them apart.
theorem decode_of_reads (legal : form.Legal) (reads : form.Reads h) :
    Short.decode? h = some { form.expand with len := 2 } := by
  cases form with
  | lui rd imm =>
    obtain ⟨-, nonzero, other, -, value⟩ := legal
    obtain ⟨quadrant, group, rfl, rfl⟩ := reads
    have upper : imm6 h ≠ 0 := fun zero => value (by rw [Immediate.value, zero, Int.zero_mul])
    simp only [Short.decode?, quadrant, group, other, upper, nonzero, or_self, if_false, expand, Immediate.value]
  | pair op rd rs2 =>
    obtain ⟨quadrant, group, kind, high, low, rfl, rfl⟩ := reads
    cases op <;>
      simp only [Short.decode?, decodeArithmetic?, quadrant, group, kind, high, low, PairOp.high, PairOp.low, pairOp?,
        Option.map_some, expand, PairOp.op]
  | _ =>
    simp only [Legal, Reads, Immediate.value] at legal reads
    simp only [Short.decode?, decodeArithmetic?, decodeMove?, reads, legal, expand, if_true, if_false, Nat.one_ne_zero]

theorem reads_of_decodeArithmetic {insn : Instruction} (quadrant : bits h 0 2 = 1) (group : bits h 13 3 = 4)
    (decoded : decodeArithmetic? h = some insn) :
    ∃ form : Compressed, form.Legal ∧ form.Reads h ∧ insn = { form.expand with len := 2 } := by
  unfold decodeArithmetic? at decoded
  split at decoded
  · rename_i kind
    cases decoded
    exact ⟨.srli _ _, ⟨register_near h 7, Immediate.amount.value_fits h⟩, ⟨quadrant, group, kind, rfl, rfl⟩, rfl⟩
  · rename_i kind
    cases decoded
    exact ⟨.srai _ _, ⟨register_near h 7, Immediate.amount.value_fits h⟩, ⟨quadrant, group, kind, rfl, rfl⟩, rfl⟩
  · rename_i kind
    cases decoded
    exact ⟨.andi _ _, ⟨register_near h 7, Immediate.imm6.value_fits h⟩, ⟨quadrant, group, kind, rfl, rfl⟩, rfl⟩
  · rename_i zero one two
    have kind : bits h 10 2 = 3 := by
      have field : bits h 10 2 < 4 := bits_lt h 10 2
      have others : bits h 10 2 ≠ 0 ∧ bits h 10 2 ≠ 1 ∧ bits h 10 2 ≠ 2 := ⟨zero, one, two⟩
      omega
    obtain ⟨op, named, rfl⟩ := Option.map_eq_some_iff.mp decoded
    obtain ⟨op, high, low, rfl⟩ : ∃ pair : PairOp, bits h 12 1 = pair.high ∧ bits h 5 2 = pair.low ∧ pair.op = op := by
      unfold pairOp? at named
      split at named <;> cases named
      · exact ⟨.sub, ‹_›, ‹_›, rfl⟩
      · exact ⟨.xor, ‹_›, ‹_›, rfl⟩
      · exact ⟨.or, ‹_›, ‹_›, rfl⟩
      · exact ⟨.and, ‹_›, ‹_›, rfl⟩
      · exact ⟨.subw, ‹_›, ‹_›, rfl⟩
      · exact ⟨.addw, ‹_›, ‹_›, rfl⟩
    exact ⟨.pair op _ _, ⟨register_near h 7, register_near h 2⟩, ⟨quadrant, group, kind, high, low, rfl, rfl⟩, rfl⟩

theorem reads_of_decodeMove {insn : Instruction} (quadrant : bits h 0 2 = 2) (group : bits h 13 3 = 4)
    (decoded : decodeMove? h = some insn) :
    ∃ form : Compressed, form.Legal ∧ form.Reads h ∧ insn = { form.expand with len := 2 } := by
  have rd := bits_lt h 7 5
  have rs2 := bits_lt h 2 5
  simp only [decodeMove?] at decoded
  by_cases bit : bits h 12 1 = 0
  · rw [if_pos bit] at decoded
    split at decoded
    · rename_i zero
      split at decoded
      · cases decoded
      · rename_i nonzero
        cases decoded
        exact ⟨.jr _, ⟨rd, nonzero⟩, ⟨quadrant, group, bit, rfl, zero⟩, rfl⟩
    · rename_i nonzero
      cases decoded
      exact ⟨.mv _ _, ⟨rd, rs2, nonzero⟩, ⟨quadrant, group, bit, rfl, rfl⟩, rfl⟩
  · rw [if_neg bit] at decoded
    have bit : bits h 12 1 = 1 := by
      have field := bits_lt h 12 1
      omega
    split at decoded
    · rename_i zero
      split at decoded
      · rename_i target
        cases decoded
        exact ⟨.ebreak, trivial, ⟨quadrant, group, bit, target, zero⟩, rfl⟩
      · rename_i nonzero
        cases decoded
        exact ⟨.jalr _, ⟨rd, nonzero⟩, ⟨quadrant, group, bit, rfl, zero⟩, rfl⟩
    · rename_i nonzero
      cases decoded
      exact ⟨.add _ _, ⟨rd, rs2, nonzero⟩, ⟨quadrant, group, bit, rfl, rfl⟩, rfl⟩

theorem reads_of_decode {insn : Instruction} (decoded : Short.decode? h = some insn) :
    ∃ form : Compressed, form.Legal ∧ form.Reads h ∧ insn = { form.expand with len := 2 } := by
  have rd := bits_lt h 7 5
  have rs2 := bits_lt h 2 5
  have near := register_near h 7
  have far := register_near h 2
  simp only [Short.decode?] at decoded
  split at decoded <;> rename_i quadrant group
  · split at decoded
    · cases decoded
    · rename_i nonzero
      cases decoded
      exact ⟨.addi4spn _ _, ⟨far, Immediate.stackAddress.value_fits h, nonzero⟩, ⟨quadrant, group, rfl, rfl⟩, rfl⟩
  · cases decoded
    exact ⟨.lw _ _ _, ⟨far, near, Immediate.word.value_fits h⟩, ⟨quadrant, group, rfl, rfl, rfl⟩, rfl⟩
  · cases decoded
    exact ⟨.ld _ _ _, ⟨far, near, Immediate.double.value_fits h⟩, ⟨quadrant, group, rfl, rfl, rfl⟩, rfl⟩
  · cases decoded
    exact ⟨.sw _ _ _, ⟨near, far, Immediate.word.value_fits h⟩, ⟨quadrant, group, rfl, rfl, rfl⟩, rfl⟩
  · cases decoded
    exact ⟨.sd _ _ _, ⟨near, far, Immediate.double.value_fits h⟩, ⟨quadrant, group, rfl, rfl, rfl⟩, rfl⟩
  · cases decoded
    exact ⟨.addi _ _, ⟨rd, Immediate.imm6.value_fits h⟩, ⟨quadrant, group, rfl, rfl⟩, rfl⟩
  · split at decoded
    · cases decoded
    · rename_i nonzero
      cases decoded
      exact ⟨.addiw _ _, ⟨rd, nonzero, Immediate.imm6.value_fits h⟩, ⟨quadrant, group, rfl, rfl⟩, rfl⟩
  · cases decoded
    exact ⟨.li _ _, ⟨rd, Immediate.imm6.value_fits h⟩, ⟨quadrant, group, rfl, rfl⟩, rfl⟩
  · split at decoded
    · rename_i stack
      split at decoded
      · cases decoded
      · rename_i nonzero
        cases decoded
        exact ⟨.addi16sp _, ⟨Immediate.stackAdjust.value_fits h, nonzero⟩, ⟨quadrant, group, stack, rfl⟩, rfl⟩
    · rename_i other
      split at decoded
      · cases decoded
      · rename_i neither
        cases decoded
        have upper : imm6 h * 4096 ≠ 0 := by omega
        exact ⟨.lui _ _, ⟨rd, fun zero => neither (.inr zero), other, Immediate.page.value_fits h, upper⟩,
          ⟨quadrant, group, rfl, rfl⟩, rfl⟩
  · exact reads_of_decodeArithmetic quadrant group decoded
  · cases decoded
    exact ⟨.j _, Immediate.jump.value_fits h, ⟨quadrant, group, rfl⟩, rfl⟩
  · cases decoded
    exact ⟨.beqz _ _, ⟨near, Immediate.branch.value_fits h⟩, ⟨quadrant, group, rfl, rfl⟩, rfl⟩
  · cases decoded
    exact ⟨.bnez _ _, ⟨near, Immediate.branch.value_fits h⟩, ⟨quadrant, group, rfl, rfl⟩, rfl⟩
  · cases decoded
    exact ⟨.slli _ _, ⟨rd, Immediate.amount.value_fits h⟩, ⟨quadrant, group, rfl, rfl⟩, rfl⟩
  · split at decoded
    · cases decoded
    · rename_i nonzero
      cases decoded
      exact ⟨.lwsp _ _, ⟨rd, nonzero, Immediate.loadWordStack.value_fits h⟩, ⟨quadrant, group, rfl, rfl⟩, rfl⟩
  · split at decoded
    · cases decoded
    · rename_i nonzero
      cases decoded
      exact ⟨.ldsp _ _, ⟨rd, nonzero, Immediate.loadDoubleStack.value_fits h⟩, ⟨quadrant, group, rfl, rfl⟩, rfl⟩
  · exact reads_of_decodeMove quadrant group decoded
  · cases decoded
    exact ⟨.swsp _ _, ⟨rs2, Immediate.storeWordStack.value_fits h⟩, ⟨quadrant, group, rfl, rfl⟩, rfl⟩
  · cases decoded
    exact ⟨.sdsp _ _, ⟨rs2, Immediate.storeDoubleStack.value_fits h⟩, ⟨quadrant, group, rfl, rfl⟩, rfl⟩
  · cases decoded

theorem decode_iff {insn : Instruction} (small : h >>> 16 = 0) : Short.decode? h = some insn ↔
    ∃ form : Compressed, form.Legal ∧ form.encode = h ∧ insn = { form.expand with len := 2 } := by
  constructor
  · intro decoded
    obtain ⟨form, legal, reads, rfl⟩ := reads_of_decode decoded
    exact ⟨form, legal, (encode_iff small legal).mpr reads, rfl⟩
  · rintro ⟨form, legal, encoded, rfl⟩
    exact decode_of_reads legal ((encode_iff small legal).mp encoded)

theorem encode_quadrant (form : Compressed) : form.encode % 4 ≠ 3 := by
  have lower : ∀ {quadrant : Nat} {rest : List (Nat × Nat)}, quadrant < 3 → bits (pack ((2, quadrant) :: rest)) 0 2 ≠ 3 := by
    intro quadrant rest below
    rw [← (pack_cons_eq.mp rfl).1, Nat.mod_eq_of_lt (Nat.lt_trans below (by decide))]
    exact Nat.ne_of_lt below
  have low : bits form.encode 0 2 ≠ 3 := by cases form <;> exact lower (by decide)
  exact low

theorem encode_lt (form : Compressed) : form.encode < 0x10000 := by
  cases form <;> exact pack_lt _

end Compressed
end TieredHart
