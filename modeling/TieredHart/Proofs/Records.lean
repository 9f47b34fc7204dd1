import TieredHart.MicroOp
import TieredHart.Proofs.Memory

namespace TieredHart

namespace Bytes

theorem value_ofNat (count n : Nat) : value (ofNat count n) = n % 1 <<< (8 * count) := by
  induction count generalizing n with
  | zero => simp [ofNat, value, Nat.mod_one]
  | succ count ih =>
    have more : 1 <<< (8 * (count + 1)) = 256 * 1 <<< (8 * count) := by
      rw [Nat.one_shiftLeft, Nat.one_shiftLeft, Nat.mul_succ, Nat.pow_add, Nat.mul_comm]
    rw [ofNat, value, ih, more, Nat.mod_mul]
    simp

end Bytes

namespace MicroKind

@[simp] theorem ofNumber_number (kind : MicroKind) : ofNumber? kind.number = some kind := by
  cases kind <;> rfl

end MicroKind

namespace Op

theorem ofNumber_number (op : Op) : ofNumber? op.number = some op := by
  have listed : op ∈ all := by
    cases op with
    | branch condition => cases condition <;> decide
    | load op => cases op <;> decide
    | store op => cases op <;> decide
    | immediate op => cases op <;> decide
    | register op => cases op <;> decide
    | immediateW op => cases op <;> decide
    | registerW op => cases op <;> decide
    | csr update source => cases update <;> cases source <;> decide
    | _ => decide
  have within : op.number < all.length := List.idxOf_lt_length_iff.mpr listed
  rw [ofNumber?, List.getElem?_eq_getElem within]
  exact congrArg some (List.getElem_idxOf within)

theorem number_lt (op : Op) : op.number < 61 := by
  have known := ofNumber_number op
  unfold ofNumber? at known
  exact (List.getElem?_eq_some_iff.mp known).1

end Op

namespace MicroOp

@[simp] theorem toRecord_length (micro : MicroOp) : micro.toRecord.length = 16 := by simp [toRecord]

def Executes (micro : MicroOp) : Prop := micro.kind = .insn ∨ micro.kind = .loopBranch

theorem ofRecord_toRecord (micro : MicroOp) : ofRecord? micro.toRecord = some micro := by
  have offset := (Bytes.value_ofNat 2 micro.pcOffset.toNat).trans (Nat.mod_eq_of_lt micro.pcOffset.toNat_lt)
  have imm := (Bytes.value_ofNat 4 micro.imm.toUInt32.toNat).trans (Nat.mod_eq_of_lt micro.imm.toUInt32.toNat_lt)
  have aux := (Bytes.value_ofNat 2 micro.aux.toNat).trans (Nat.mod_eq_of_lt micro.aux.toNat_lt)
  simp only [Bytes.ofNat] at offset imm aux
  simp only [toRecord, Bytes.ofNat, List.cons_append,
    List.nil_append, ofRecord?, MicroKind.ofNumber_number, offset, imm, aux, Option.map_some]
  simp

theorem decode_eq (code : Array UInt8) (index : Nat) :
    decode? code index = ofRecord? ((code.toList.drop (16 * index)).take 16) := by
  simp [decode?, List.extract_eq_take_drop]

theorem decode_beyond {code : Array UInt8} {index : Nat} (behind : code.size ≤ 16 * index) : decode? code index = none := by
  have nothing : code.toList.drop (16 * index) = [] := List.drop_of_length_le (by simpa using behind)
  rw [decode_eq, nothing]
  rfl

theorem decode_before {code : Array UInt8} {index : Nat} (data : List UInt8) (inside : 16 * index + 16 ≤ code.size) :
    decode? (code ++ data) index = decode? code index := by
  have room : 16 * index ≤ code.toList.length := by simp only [Array.length_toList]; omega
  have whole : 16 ≤ (code.toList.drop (16 * index)).length := by simp only [List.length_drop, Array.length_toList]; omega
  rw [decode_eq, decode_eq, Array.toList_appendList, List.drop_append_of_le_length room,
    List.take_append_of_le_length whole]

theorem decode_last {code : Array UInt8} {index : Nat} (micro : MicroOp) (ends : code.size = 16 * index) :
    decode? (code ++ micro.toRecord) index = some micro := by
  have older : code.toList.length = 16 * index := by simpa using ends
  rw [decode_eq, Array.toList_appendList, List.drop_left' older, List.take_of_length_le (by simp)]
  exact ofRecord_toRecord micro

end MicroOp
end TieredHart
