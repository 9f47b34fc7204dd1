import TieredHart.Proofs.Encoding
import TieredHart.Proofs.Reference

namespace TieredHart

namespace Reference

theorem unsigned_eq (width : Nat) (value : Int) : unsigned width value = (BitVec.ofInt width value).toNat := by
  rw [unsigned, Nat.one_shiftLeft, BitVec.toNat_ofInt]

theorem signed_eq (width : Nat) (value : Int) : signed width value = (BitVec.ofInt width value).toInt := by
  rw [signed, Nat.one_shiftLeft, BitVec.toInt_ofInt]

theorem ofInt_toNat {width : Nat} (word : Word) : BitVec.ofInt width word.toNat = word.setWidth width := by
  rw [BitVec.ofInt_natCast, BitVec.ofNat_toNat]

theorem word_eq {width : Nat} (word : BitVec width) : BitVec.ofInt width word.toNat = word := by
  rw [BitVec.ofInt_natCast, BitVec.ofNat_toNat, BitVec.setWidth_eq]

theorem signed_word (width : Nat) (word : Word) : signed width word.toNat = (word.setWidth width).toInt := by
  rw [signed_eq, ofInt_toNat]

theorem signed_whole (word : Word) : signed 64 word.toNat = word.toInt := by rw [signed_eq, word_eq]

section words

variable {width : Nat} (a b : BitVec width)

theorem shiftLeft_eq_ofInt (amount : Nat) : a <<< amount = BitVec.ofInt width (a.toNat * (1 <<< amount : Nat)) := by
  apply BitVec.eq_of_toNat_eq
  rw [← Int.natCast_mul, BitVec.ofInt_natCast, BitVec.toNat_ofNat, BitVec.toNat_shiftLeft, Nat.shiftLeft_eq,
    Nat.one_shiftLeft]

theorem shiftRight_eq_ofInt (amount : Nat) : a >>> amount = BitVec.ofInt width (a.toNat / 1 <<< amount : Nat) := by
  rw [BitVec.ofInt_natCast, Nat.one_shiftLeft, ← Nat.shiftRight_eq_div_pow, ← BitVec.toNat_ushiftRight,
    BitVec.ofNat_toNat, BitVec.setWidth_eq]

theorem sshiftRight_eq_ofInt (amount : Nat) :
    a.sshiftRight amount = BitVec.ofInt width (a.toInt / (1 <<< amount : Nat)) := by
  rw [Nat.one_shiftLeft, ← Int.shiftRight_eq_div_pow, ← BitVec.toInt_sshiftRight, BitVec.ofInt_toInt]

theorem sub_eq_ofInt (m n : Int) : BitVec.ofInt width m - BitVec.ofInt width n = BitVec.ofInt width (m - n) := by
  apply BitVec.eq_of_toInt_eq
  rw [BitVec.toInt_sub, BitVec.toInt_ofInt, BitVec.toInt_ofInt, BitVec.toInt_ofInt, Int.bmod_sub_bmod, Int.sub_bmod_bmod]

theorem toNat_and_not : (a &&& ~~~b).toNat = a.toNat - (a.toNat &&& b.toNat) := by
  have apart : (a &&& b) &&& (a &&& ~~~b) = BitVec.ofNat width 0 := by
    ext i below
    simp only [BitVec.getElem_and, BitVec.getElem_not, BitVec.getElem_zero]
    cases a[i] <;> cases b[i] <;> rfl
  have parts : (a &&& b) ||| (a &&& ~~~b) = a := by
    ext i below
    simp only [BitVec.getElem_or, BitVec.getElem_and, BitVec.getElem_not]
    cases a[i] <;> cases b[i] <;> rfl
  have sum := BitVec.toNat_add_of_and_eq_zero apart
  rw [BitVec.add_eq_or_of_and_eq_zero _ _ apart, parts, BitVec.toNat_and a b] at sum
  omega

theorem toNat_or_eq : (a ||| b).toNat = (a &&& ~~~b).toNat + b.toNat := by
  have apart : (a &&& ~~~b) &&& b = BitVec.ofNat width 0 := by
    ext i below
    simp only [BitVec.getElem_and, BitVec.getElem_not, BitVec.getElem_zero]
    cases a[i] <;> cases b[i] <;> rfl
  have parts : (a &&& ~~~b) ||| b = a ||| b := by
    ext i below
    simp only [BitVec.getElem_or, BitVec.getElem_and, BitVec.getElem_not]
    cases a[i] <;> cases b[i] <;> rfl
  have sum := BitVec.toNat_add_of_and_eq_zero apart
  rwa [BitVec.add_eq_or_of_and_eq_zero _ _ apart, parts] at sum

end words

theorem truth_eq (condition : Bool) : bit condition = BitVec.ofInt 64 (truth condition) := by
  cases condition <;> rfl

theorem arithmetic_eq (op : RegOp) (a b : Word) : op.apply a b = BitVec.ofInt 64 (arithmetic op a.toNat b.toNat) := by
  cases op with
  | add => rw [arithmetic, BitVec.ofInt_add, word_eq, word_eq]; rfl
  | sub => rw [arithmetic, ← sub_eq_ofInt, word_eq, word_eq]; rfl
  | sll => exact shiftLeft_eq_ofInt a _
  | slt => rw [arithmetic, signed_whole, signed_whole, ← truth_eq, ← BitVec.slt_eq_decide]; rfl
  | sltu => rw [arithmetic, ← truth_eq, ← BitVec.ult_eq_decide]; rfl
  | xor => rw [arithmetic, ← BitVec.toNat_xor, word_eq]; rfl
  | srl => exact shiftRight_eq_ofInt a _
  | sra => rw [arithmetic, signed_whole]; exact sshiftRight_eq_ofInt a _
  | or => rw [arithmetic, ← BitVec.toNat_or, word_eq]; rfl
  | and => rw [arithmetic, ← BitVec.toNat_and, word_eq]; rfl

theorem taken_eq (condition : Condition) (a b : Word) : condition.holds a b = taken condition a.toNat b.toNat := by
  cases condition with
  | eq => rw [Bool.eq_iff_iff]; simp [Condition.holds, taken, BitVec.toNat_inj]
  | ne => rw [Bool.eq_iff_iff]; simp [Condition.holds, taken, BitVec.toNat_inj]
  | lt => rw [taken, signed_whole, signed_whole]; exact BitVec.slt_eq_decide
  | ge => simp only [taken, signed_whole, Condition.holds, BitVec.slt_eq_decide, ← decide_not, Int.not_lt]
  | ltu => exact BitVec.ult_eq_decide
  | geu => simp only [taken, Condition.holds, BitVec.ult_eq_decide, ← decide_not, Nat.not_lt]

theorem amount_eq {imm : Int} {width : Nat} (positive : 0 ≤ imm) (below : imm < width) (small : width ≤ 64) :
    (Word.ofImmediate imm).toNat % width = imm.toNat := by
  rw [Word.ofImmediate, BitVec.toNat_ofInt, Int.emod_eq_of_lt positive (by omega)]
  exact Nat.mod_eq_of_lt (by omega)

theorem immediate_toInt {imm : Int} (above : -2048 ≤ imm) (below : imm < 2048) : (Word.ofImmediate imm).toInt = imm := by
  rw [Word.ofImmediate, BitVec.toInt_ofInt]
  exact Int.bmod_eq_of_le (by omega) (by omega)

theorem immediate_low (imm : Int) : (BitVec.ofInt 64 imm).setWidth 32 = BitVec.ofInt 32 imm := by
  apply BitVec.eq_of_toNat_eq
  rw [BitVec.toNat_setWidth, BitVec.toNat_ofInt, BitVec.toNat_ofInt]
  omega

theorem arithmeticImmediate_eq (op : ImmOp) (imm : Int) (a : Word)
    (whole : op.funct6? = none → -2048 ≤ imm ∧ imm < 2048) (shift : op.funct6?.isSome → 0 ≤ imm ∧ imm < 64) :
    op.toReg.apply a (Word.ofImmediate imm) = BitVec.ofInt 64 (arithmeticImmediate op a.toNat imm) := by
  have bits : unsigned 64 imm = (Word.ofImmediate imm).toNat := unsigned_eq 64 imm
  have amount : op.funct6?.isSome → (Word.ofImmediate imm).toNat % 64 = imm.toNat :=
    fun kind => amount_eq (shift kind).1 (shift kind).2 (by decide)
  rw [arithmetic_eq]
  cases op with
  | addi => simp only [ImmOp.toReg, arithmetic, arithmeticImmediate, BitVec.ofInt_add, word_eq]; rfl
  | slti =>
    have value := immediate_toInt (whole rfl).1 (whole rfl).2
    simp only [ImmOp.toReg, arithmetic, arithmeticImmediate, signed_whole, value]
  | sltiu | xori | ori | andi => simp only [ImmOp.toReg, arithmetic, arithmeticImmediate, bits]
  | slli | srli | srai => simp only [ImmOp.toReg, arithmetic, arithmeticImmediate, amount rfl]

theorem low_eq (op : RegOpW) (a b : Word) :
    op.low (a.setWidth 32) (b.setWidth 32) = BitVec.ofInt 32 (arithmeticWord op a.toNat b.toNat) := by
  have amount : (b.setWidth 32).toNat % 32 = b.toNat % 32 := by
    rw [BitVec.toNat_setWidth]
    omega
  cases op with
  | addw => rw [arithmeticWord, BitVec.ofInt_add, ofInt_toNat, ofInt_toNat]; rfl
  | subw => rw [arithmeticWord, ← sub_eq_ofInt, ofInt_toNat, ofInt_toNat]; rfl
  | sllw => simp only [RegOpW.low, arithmeticWord, amount, shiftLeft_eq_ofInt, BitVec.ofInt_mul, ofInt_toNat, word_eq]
  | srlw => simp only [RegOpW.low, arithmeticWord, amount, unsigned_eq, ofInt_toNat, shiftRight_eq_ofInt]
  | sraw => simp only [RegOpW.low, arithmeticWord, amount, signed_word, sshiftRight_eq_ofInt]

theorem arithmeticWord_eq (op : RegOpW) (a b : Word) :
    op.apply a b = BitVec.ofInt 64 (signed 32 (arithmeticWord op a.toNat b.toNat)) := by
  rw [signed_eq, ← low_eq]
  rfl

theorem arithmeticWordImmediate_eq (op : ImmOpW) (imm : Int) (a : Word)
    (shift : op.funct7?.isSome → 0 ≤ imm ∧ imm < 32) :
    op.apply a (Word.ofImmediate imm) = .ok (BitVec.ofInt 64 (signed 32 (arithmeticWordImmediate op a.toNat imm))) := by
  have amount : op.funct7?.isSome → (Word.ofImmediate imm).toNat % 32 = imm.toNat :=
    fun kind => amount_eq (shift kind).1 (shift kind).2 (by decide)
  have inside : op.funct7?.isSome → (Word.ofImmediate imm).toNat % 64 < 32 := by
    intro kind
    rw [amount_eq (shift kind).1 (Int.lt_trans (shift kind).2 (by decide)) (by decide)]
    have bounds := shift kind
    omega
  cases op with
  | addiw =>
    simp only [ImmOpW.apply, ImmOpW.toReg, arithmeticWord_eq, arithmeticWord, arithmeticWordImmediate, signed_eq,
      BitVec.ofInt_add, ofInt_toNat, Word.ofImmediate, immediate_low]
  | slliw | srliw | sraiw =>
    simp only [ImmOpW.apply, inside rfl, if_true, ImmOpW.toReg, arithmeticWord_eq, arithmeticWord,
      arithmeticWordImmediate, amount rfl]

theorem loaded_eq (op : LoadOp) {raw : Word} (narrow : raw.toNat < 1 <<< (8 * op.width.bytes)) :
    op.extend raw = BitVec.ofInt 64 (loaded op raw.toNat) := by
  have whole : ∀ width, raw.toNat < 1 <<< width → unsigned width raw.toNat = raw.toNat := by
    intro width below
    rw [unsigned_eq, ofInt_toNat, BitVec.toNat_setWidth, ← Nat.one_shiftLeft]
    exact Nat.mod_eq_of_lt below
  cases op with
  | lb | lh | lw => simp only [loaded, signed_word, LoadOp.extend]; rfl
  | ld => simp only [loaded, whole 64 narrow, word_eq, LoadOp.extend]
  | lbu => simp only [loaded, whole 8 narrow, word_eq, LoadOp.extend]
  | lhu => simp only [loaded, whole 16 narrow, word_eq, LoadOp.extend]
  | lwu => simp only [loaded, whole 32 narrow, word_eq, LoadOp.extend]

theorem bit_eq (word : Word) (place : Nat) : word.toNat / 1 <<< place % 2 = (word.getLsbD place).toNat := by
  rw [BitVec.getLsbD, Nat.testBit_eq_decide_div_mod_eq, Nat.one_shiftLeft]
  rcases Nat.mod_two_eq_zero_or_one (word.toNat / 2 ^ place) with bit | bit <;> simp [bit]

theorem mie_eq : Status.mie = BitVec.twoPow 64 3 := rfl

theorem mpie_eq : Status.mpie = BitVec.twoPow 64 7 := rfl

theorem status_eq (value : Word) : ((value &&& (Status.mie ||| Status.mpie)) ||| Status.mpp).toNat =
    value.toNat / 8 % 2 * 8 + value.toNat / 128 % 2 * 128 + 0x1800 := by
  have enable := bit_eq value 3
  have previous := bit_eq value 7
  simp only [Nat.reduceShiftLeft] at enable previous
  rw [mie_eq, mpie_eq, BitVec.and_or_distrib_left, BitVec.and_twoPow, BitVec.and_twoPow, enable, previous]
  cases value.getLsbD 3 <;> cases value.getLsbD 7 <;> rfl

theorem toNat_clear (word : Word) {place : Nat} (known : place < 64) :
    (word &&& ~~~BitVec.twoPow 64 place).toNat = word.toNat - word.toNat / 1 <<< place % 2 * 1 <<< place := by
  rw [toNat_and_not, ← BitVec.toNat_and, BitVec.and_twoPow, bit_eq]
  cases word.getLsbD place with
  | false => simp
  | true => simp [BitVec.toNat_twoPow_of_lt known, Nat.one_shiftLeft]

theorem toNat_set (word : Word) {place : Nat} (known : place < 64) :
    (word ||| BitVec.twoPow 64 place).toNat = word.toNat - word.toNat / 1 <<< place % 2 * 1 <<< place + 1 <<< place := by
  rw [toNat_or_eq, toNat_clear word known, BitVec.toNat_twoPow_of_lt known, Nat.one_shiftLeft]

theorem returned_eq (status : Word) : (Hart.unstackInterruptEnable status).toNat = returned status.toNat := by
  have clear := toNat_clear status (by decide : 3 < 64)
  have set := fun word : Word => toNat_set word (by decide : 3 < 64)
  have setCopy := fun word : Word => toNat_set word (by decide : 7 < 64)
  have copy : status &&& Status.mpie = 0 ↔ status.toNat / 1 <<< 7 % 2 = 0 := by
    rw [mpie_eq, BitVec.and_twoPow, bit_eq]
    cases status.getLsbD 7 <;> decide
  simp only [← mie_eq, ← mpie_eq, Nat.reduceShiftLeft] at clear set setCopy copy
  unfold Hart.unstackInterruptEnable returned
  rw [setCopy]
  split
  · rename_i zero
    have bit := copy.mp zero
    rw [clear]
    omega
  · rename_i one
    have bit := mt copy.mpr one
    rw [set, clear]
    omega

theorem toNat_even (word : Word) : (word &&& ~~~1).toNat = word.toNat / 2 * 2 := by
  have low : word.toNat &&& 1 = word.toNat % 2 := Nat.and_two_pow_sub_one_eq_mod word.toNat 1
  rw [toNat_and_not]
  show word.toNat - (word.toNat &&& 1) = _
  omega

theorem toNat_fourfold (word : Word) : (word &&& ~~~3).toNat = word.toNat / 4 * 4 := by
  have low : word.toNat &&& 3 = word.toNat % 4 := Nat.and_two_pow_sub_one_eq_mod word.toNat 2
  rw [toNat_and_not]
  show word.toNat - (word.toNat &&& 3) = _
  omega

theorem readCsr_eq (hart : Hart) {number : Nat} (known : number < 4096) :
    (hart.readCsrAt? number).map BitVec.toNat = readCsr? hart.view number := by
  unfold Hart.readCsrAt?
  rw [Nat.mod_eq_of_lt (Nat.lt_trans known (by decide))]
  unfold Csr.ofNumber?
  split
  case h_13 => grind [readCsr?]
  all_goals rfl

theorem writeCsr_eq (hart : Hart) {number : Nat} (known : number < 4096) (value : Word) :
    (hart.writeCsrAt? number value).map Hart.view = writeCsr? hart.view number value.toNat := by
  unfold Hart.writeCsrAt?
  rw [Nat.mod_eq_of_lt (Nat.lt_trans known (by decide))]
  unfold Csr.ofNumber?
  split
  case h_1 => simp only [Option.bind_some, Hart.writeCsr?, Option.map_some, writeCsr?, Hart.view, status_eq]
  case h_4 => simp only [Option.bind_some, Hart.writeCsr?, Option.map_some, writeCsr?, Hart.view, toNat_fourfold]
  case h_6 => simp only [Option.bind_some, Hart.writeCsr?, Option.map_some, writeCsr?, Hart.view, toNat_even]
  case h_13 => grind [writeCsr?]
  all_goals rfl

theorem after_eq (pc : Word) (len : Nat) : Flow.next.target pc len = BitVec.ofInt 64 (pc.toNat + len) := by
  rw [BitVec.ofInt_add, word_eq, BitVec.ofInt_natCast]
  rfl

theorem moved_eq (word : Word) (imm : Int) : word + Word.ofImmediate imm = BitVec.ofInt 64 (word.toNat + imm) := by
  rw [BitVec.ofInt_add, word_eq]
  rfl

theorem even_eq (word : Word) (imm : Int) :
    (word + Word.ofImmediate imm) &&& ~~~1 = BitVec.ofInt 64 ((word.toNat + imm) / 2 * 2) := by
  apply BitVec.eq_of_toNat_eq
  rw [moved_eq, toNat_even, BitVec.toNat_ofInt, BitVec.toNat_ofInt]
  omega

end Reference
end TieredHart
