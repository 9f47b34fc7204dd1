import TieredHart.Proofs.Compressed

namespace TieredHart.Instruction

variable {bytes : List UInt8} {insn : Instruction} {fault : Fault}

theorem Long.low_of_decode {w : Nat} (decoded : decode? w = some insn) : w % 4 = 3 := by
  have low : w % 4 = bits w 0 7 % 4 := (Nat.mod_mod_of_dvd w (by decide : 4 ∣ 128)).symm
  unfold decode? at decoded
  split at decoded <;> first | (rename_i opcode; rw [low, opcode]) | cases decoded

theorem encode_lt (insn : Instruction) : insn.encode < 0x100000000 := by
  obtain ⟨op, rd, rs1, rs2, imm, len⟩ := insn
  cases op with
  | immediate op => cases op <;> exact pack_lt _
  | immediateW op => cases op <;> exact pack_lt _
  | _ => exact pack_lt _

theorem agrees_encode (insn : Instruction) : insn.Agrees insn.encode := by
  unfold Agrees
  split
  · exact ⟨rfl, rfl⟩
  · exact ⟨rfl, rfl⟩
  · rfl

section front

variable (b0 b1 b2 b3 : UInt8) (rest : List UInt8)

theorem parcel_small : Bytes.value [b0, b1] >>> 16 = 0 := by
  have low := b0.toNat_lt
  have high := b1.toNat_lt
  simp only [Bytes.value]
  omega

theorem word_small : Bytes.value [b0, b1, b2, b3] >>> 32 = 0 := by
  have first := b0.toNat_lt
  have second := b1.toNat_lt
  have third := b2.toNat_lt
  have fourth := b3.toNat_lt
  simp only [Bytes.value]
  omega

theorem word_low : Bytes.value [b0, b1, b2, b3] % 4 = Bytes.value [b0, b1] % 4 := by
  simp only [Bytes.value]
  omega

theorem decode_parcel (short : lengthOf (Bytes.value [b0, b1]) = 2) : decode (b0 :: b1 :: rest) =
    ((Short.decode? (Bytes.value [b0, b1])).elim (.error (illegal (Bytes.value [b0, b1]))) .ok) := by
  unfold decode
  dsimp only
  rw [if_pos short]
  cases Short.decode? (Bytes.value [b0, b1]) <;> rfl

theorem decode_word (long : lengthOf (Bytes.value [b0, b1]) = 4) : decode (b0 :: b1 :: b2 :: b3 :: rest) =
    ((Long.decode? (Bytes.value [b0, b1, b2, b3])).elim (.error (illegal (Bytes.value [b0, b1, b2, b3]))) .ok) := by
  rw [decode]
  dsimp only
  rw [if_neg (by omega)]
  cases Long.decode? (Bytes.value [b0, b1, b2, b3]) <;> rfl

end front

theorem front_cases (enough : needs bytes ≤ bytes.length) :
    (∃ b0 b1 rest, bytes = b0 :: b1 :: rest ∧ needs bytes = 2 ∧ lengthOf (Bytes.value [b0, b1]) = 2) ∨
      ∃ b0 b1 b2 b3 rest, bytes = b0 :: b1 :: b2 :: b3 :: rest ∧ needs bytes = 4 ∧
        lengthOf (Bytes.value [b0, b1]) = 4 := by
  rcases bytes with _ | ⟨b0, _ | ⟨b1, rest⟩⟩
  · exact absurd enough (by decide)
  · have more := needs_cases [b0]
    rw [List.length_singleton] at enough
    omega
  · rcases lengthOf_cases (Bytes.value [b0, b1]) with ⟨-, two⟩ | ⟨-, four⟩
    · exact .inl ⟨b0, b1, rest, rfl, two, two⟩
    · have length : 4 ≤ (b0 :: b1 :: rest).length := four ▸ enough
      rcases rest with _ | ⟨b2, _ | ⟨b3, rest⟩⟩
      · exact absurd length (by simp)
      · exact absurd length (by simp)
      · exact .inr ⟨b0, b1, b2, b3, rest, rfl, four, four⟩

theorem decode_encode (fits : insn.Fits) (rest : List UInt8) : decode (Bytes.ofNat 4 insn.encode ++ rest) = .ok insn := by
  have small : insn.encode >>> 32 = 0 := Nat.shiftRight_eq_zero _ 32 insn.encode_lt
  have decoded : Long.decode? insn.encode = some insn := (Long.decode_iff small).mpr ⟨fits, insn.agrees_encode⟩
  have word : Bytes.value (Bytes.ofNat 4 insn.encode) = insn.encode :=
    (Bytes.value_ofNat 4 insn.encode).trans (Nat.mod_eq_of_lt insn.encode_lt)
  have low := word_low (UInt8.ofNat insn.encode) (UInt8.ofNat (insn.encode / 256))
    (UInt8.ofNat (insn.encode / 256 / 256)) (UInt8.ofNat (insn.encode / 256 / 256 / 256))
  simp only [Bytes.ofNat] at word ⊢
  rw [word, Long.low_of_decode decoded] at low
  simp only [List.cons_append, List.nil_append]
  have four := lengthOf_cases (Bytes.value [UInt8.ofNat insn.encode, UInt8.ofNat (insn.encode / 256)])
  rw [decode_word _ _ _ _ _ (by omega), word, decoded]
  rfl

theorem decode_compressed {form : Compressed} (legal : form.Legal) (rest : List UInt8) :
    decode (Bytes.ofNat 2 form.encode ++ rest) = .ok { form.expand with len := 2 } := by
  have small : form.encode >>> 16 = 0 := Nat.shiftRight_eq_zero _ 16 form.encode_lt
  have decoded := (Compressed.decode_iff small).mpr ⟨form, legal, rfl, rfl⟩
  have parcel : Bytes.value (Bytes.ofNat 2 form.encode) = form.encode :=
    (Bytes.value_ofNat 2 form.encode).trans (Nat.mod_eq_of_lt form.encode_lt)
  have quadrant : Bytes.value (Bytes.ofNat 2 form.encode) % 4 ≠ 3 := by
    rw [parcel]
    exact form.encode_quadrant
  simp only [Bytes.ofNat] at parcel quadrant ⊢
  simp only [List.cons_append, List.nil_append]
  have two := lengthOf_cases (Bytes.value [UInt8.ofNat form.encode, UInt8.ofNat (form.encode / 256)])
  rw [decode_parcel _ _ _ (by omega), parcel, decoded]
  rfl

theorem word_of_decode (decoded : decode bytes = .ok insn) (long : insn.len = 4) :
    insn.Fits ∧ insn.Agrees (Bytes.value (bytes.take 4)) := by
  obtain ⟨count, there⟩ := needs_of_decode decoded
  obtain ⟨b0, b1, rest, rfl, two, -⟩ | ⟨b0, b1, b2, b3, rest, rfl, -, four⟩ := front_cases (count ▸ there)
  · omega
  · rw [decode_word _ _ _ _ _ four] at decoded
    cases found : Long.decode? (Bytes.value [b0, b1, b2, b3]) with
    | none => rw [found] at decoded; cases decoded
    | some other =>
      rw [found] at decoded
      cases decoded
      exact (Long.decode_iff (word_small b0 b1 b2 b3)).mp found

theorem parcel_of_decode (decoded : decode bytes = .ok insn) (short : insn.len = 2) :
    ∃ form : Compressed, form.Legal ∧ form.encode = Bytes.value (bytes.take 2) ∧ insn = { form.expand with len := 2 } := by
  obtain ⟨count, there⟩ := needs_of_decode decoded
  obtain ⟨b0, b1, rest, rfl, -, two⟩ | ⟨b0, b1, b2, b3, rest, rfl, four, -⟩ := front_cases (count ▸ there)
  · rw [decode_parcel _ _ _ two] at decoded
    cases found : Short.decode? (Bytes.value [b0, b1]) with
    | none => rw [found] at decoded; cases decoded
    | some other =>
      rw [found] at decoded
      cases decoded
      exact (Compressed.decode_iff (parcel_small b0 b1)).mp found
  · omega

theorem decode_lengthened (decoded : decode bytes = .ok insn) (short : insn.len = 2) :
    ∃ long, decode long = .ok { insn with len := 4 } := by
  obtain ⟨form, legal, -, rfl⟩ := parcel_of_decode decoded short
  have fits := Compressed.expand_fits legal
  have four : form.expand.len = 4 := fits.2.2.2.1
  have same : { form.expand with len := 4 } = form.expand := by rw [← four]
  refine ⟨Bytes.ofNat 4 form.expand.encode ++ [], ?_⟩
  rw [decode_encode fits []]
  exact congrArg Except.ok same.symm

theorem fault_of_decode (enough : needs bytes ≤ bytes.length) (refused : decode bytes = .error fault) :
    ∃ encoding, fault = .illegalInstruction encoding ∧ encoding.toNat = Bytes.value (bytes.take (needs bytes)) := by
  obtain ⟨b0, b1, rest, rfl, count, two⟩ | ⟨b0, b1, b2, b3, rest, rfl, count, four⟩ := front_cases enough
  · rw [decode_parcel _ _ _ two] at refused
    cases found : Short.decode? (Bytes.value [b0, b1]) with
    | some other => rw [found] at refused; cases refused
    | none =>
      rw [found] at refused
      cases refused
      have small := parcel_small b0 b1
      refine ⟨_, rfl, ?_⟩
      rw [count, BitVec.toNat_ofNat]
      exact Nat.mod_eq_of_lt (by omega)
  · rw [decode_word _ _ _ _ _ four] at refused
    cases found : Long.decode? (Bytes.value [b0, b1, b2, b3]) with
    | some other => rw [found] at refused; cases refused
    | none =>
      rw [found] at refused
      cases refused
      have small := word_small b0 b1 b2 b3
      refine ⟨_, rfl, ?_⟩
      rw [count, BitVec.toNat_ofNat]
      exact Nat.mod_eq_of_lt (by omega)

theorem decode_front (enough : needs bytes ≤ bytes.length) : decode bytes = decode (bytes.take (needs bytes)) := by
  obtain ⟨b0, b1, rest, rfl, count, two⟩ | ⟨b0, b1, b2, b3, rest, rfl, count, four⟩ := front_cases enough
  · rw [count, decode_parcel _ _ _ two]
    exact (decode_parcel b0 b1 [] two).symm
  · rw [count, decode_word _ _ _ _ _ four]
    exact (decode_word b0 b1 b2 b3 [] four).symm

-- The decoder accepts exactly its grammar: every instruction whose operands fit is what its word decodes to, every short
-- form that is legal is what its parcel decodes to, and nothing else is decoded. A refusal carries the encoding that was
-- refused, and what follows an encoding plays no part.
theorem decode_accepts_grammar :
    (∀ (insn : Instruction) (rest : List UInt8), insn.Fits → decode (Bytes.ofNat 4 insn.encode ++ rest) = .ok insn) ∧
    (∀ (form : Compressed) (rest : List UInt8), form.Legal →
      decode (Bytes.ofNat 2 form.encode ++ rest) = .ok { form.expand with len := 2 }) ∧
    (∀ (bytes : List UInt8) (insn : Instruction), decode bytes = .ok insn →
      (insn.len = 4 ∧ 4 ≤ bytes.length ∧ insn.Fits ∧ insn.Agrees (Bytes.value (bytes.take 4))) ∨
      (insn.len = 2 ∧ 2 ≤ bytes.length ∧ (∃ long, decode long = .ok { insn with len := 4 }) ∧
        ∃ form : Compressed, form.Legal ∧ form.encode = Bytes.value (bytes.take 2) ∧
          insn = { form.expand with len := 2 })) ∧
    ∀ bytes : List UInt8, needs bytes ≤ bytes.length →
      decode bytes = decode (bytes.take (needs bytes)) ∧
      ∀ fault, decode bytes = .error fault →
        ∃ encoding, fault = .illegalInstruction encoding ∧
          encoding.toNat = Bytes.value (bytes.take (needs bytes)) := by
  refine ⟨fun insn rest fits => decode_encode fits rest, fun form rest legal => decode_compressed legal rest, ?_, ?_⟩
  · intro bytes insn decoded
    have there := (needs_of_decode decoded).2
    rcases (decode_legal decoded).len with short | long
    · exact .inr ⟨short, short ▸ there, decode_lengthened decoded short, parcel_of_decode decoded short⟩
    · exact .inl ⟨long, long ▸ there, word_of_decode decoded long⟩
  · intro bytes enough
    exact ⟨decode_front enough, fun fault refused => fault_of_decode enough refused⟩

theorem grammar_of_branch_jump_and_junk :
    decode [0xe3, 0x0e, 0xb5, 0xfe] = .ok ⟨.branch .eq, 0, 10, 11, -4, 4⟩ ∧
    decode [0x82, 0x80] = .ok ⟨.jalr, 0, 1, 0, 0, 2⟩ ∧
    ∃ encoding, decode [0xff, 0xff, 0xff, 0xff, 0x13] = .error (.illegalInstruction encoding) ∧
      encoding.toNat = 0xffffffff := by
  obtain ⟨words, parcels, -, front⟩ := decode_accepts_grammar
  have branch : Bytes.ofNat 4 (encode ⟨.branch .eq, 0, 10, 11, -4, 4⟩) ++ [] = [0xe3, 0x0e, 0xb5, 0xfe] := by decide
  have jump : Bytes.ofNat 2 (Compressed.encode (.jr 1)) ++ [] = [0x82, 0x80] := by decide
  have junk : decode [0xff, 0xff, 0xff, 0xff, 0x13] = .error (.illegalInstruction 0xffffffff) := rfl
  obtain ⟨encoding, fault, value⟩ := (front [0xff, 0xff, 0xff, 0xff, 0x13] (by decide)).2 _ junk
  refine ⟨?_, ?_, encoding, fault ▸ junk, value⟩
  · rw [← branch]
    exact words _ [] ⟨by decide, by decide, by decide, rfl, rfl, by decide, by decide, by decide⟩
  · rw [← jump]
    exact parcels (.jr 1) [] ⟨by decide, by decide⟩

end TieredHart.Instruction
