import TieredHart.Proofs.Immediates

namespace TieredHart.Instruction

def Narrow (imm : Int) : Prop := -0x80000000 ≤ imm ∧ imm < 0x80000000

-- What every decoded instruction keeps to: registers that exist, one of two lengths, an immediate that fits a record,
-- a shift of low halves by less than their width, and branches between even addresses.
structure Legal (insn : Instruction) : Prop where
  rd : insn.rd < 32
  rs1 : insn.rs1 < 32
  rs2 : insn.rs2 < 32
  len : insn.len = 2 ∨ insn.len = 4
  imm : Narrow insn.imm
  shift : ∀ op, insn.op = .immediateW op → op ≠ .addiw → 0 ≤ insn.imm ∧ insn.imm < 32
  even : insn.role = .directBranch → insn.imm % 2 = 0

theorem Immediate.value_narrow (field : Immediate) (w : Nat) : Narrow (field.value w) := by
  have bounds : -0x80000000 ≤ field.layout.low ∧ field.layout.high ≤ 0x80000000 := by cases field <;> decide
  obtain ⟨-, above, below⟩ := field.value_fits w
  exact ⟨Int.le_trans bounds.1 above, Int.lt_of_lt_of_le below bounds.2⟩

namespace Long

variable {w : Nat}

theorem immOp_bounds {op : ImmOp} {imm : Int} (named : immOp? w = some (op, imm)) : Narrow imm := by
  have wide : Narrow (immI w) := Immediate.immI.value_narrow w
  have amount := bits_lt w 20 6
  unfold immOp? at named
  unfold Narrow at *
  split at named <;> grind

theorem immOpW_bounds {op : ImmOpW} {imm : Int} (named : immOpW? w = some (op, imm)) :
    Narrow imm ∧ (op ≠ .addiw → 0 ≤ imm ∧ imm < 32) := by
  have wide : Narrow (immI w) := Immediate.immI.value_narrow w
  have amount := bits_lt w 20 5
  unfold immOpW? at named
  unfold Narrow at *
  split at named <;> grind

theorem decode_legal {insn : Instruction} (decoded : decode? w = some insn) : insn.Legal ∧ insn.len = 4 := by
  have rd : bits w 7 5 < 32 := bits_lt w 7 5
  have rs1 : bits w 15 5 < 32 := bits_lt w 15 5
  have rs2 : bits w 20 5 < 32 := bits_lt w 20 5
  have immU : Narrow (immU w) := Immediate.immU.value_narrow w
  have jump : immJ w % 2 = 0 := (Immediate.immJ.value_fits w).1
  have branch : immB w % 2 = 0 := (Immediate.immB.value_fits w).1
  have x0 : 0 < 32 := by decide
  have zero : Narrow 0 := by unfold Narrow; decide
  have csr : Narrow (bits w 20 12) := by
    have field := bits_lt w 20 12
    unfold Narrow
    omega
  unfold decode? at decoded
  split at decoded
  · cases decoded
    refine ⟨⟨rd, x0, x0, .inr rfl, ?_, nofun, nofun⟩, rfl⟩
    dsimp only
    exact immU
  · cases decoded
    refine ⟨⟨rd, x0, x0, .inr rfl, ?_, nofun, nofun⟩, rfl⟩
    dsimp only
    exact immU
  · cases decoded; exact ⟨⟨rd, x0, x0, .inr rfl, Immediate.immJ.value_narrow w, nofun, fun _ => jump⟩, rfl⟩
  · split at decoded
    · cases decoded; exact ⟨⟨rd, rs1, x0, .inr rfl, Immediate.immI.value_narrow w, nofun, nofun⟩, rfl⟩
    · cases decoded
  · obtain ⟨op, -, rfl⟩ := Option.map_eq_some_iff.mp decoded
    exact ⟨⟨x0, rs1, rs2, .inr rfl, Immediate.immB.value_narrow w, nofun, fun _ => branch⟩, rfl⟩
  · obtain ⟨op, -, rfl⟩ := Option.map_eq_some_iff.mp decoded
    exact ⟨⟨rd, rs1, x0, .inr rfl, Immediate.immI.value_narrow w, nofun, nofun⟩, rfl⟩
  · obtain ⟨op, -, rfl⟩ := Option.map_eq_some_iff.mp decoded
    exact ⟨⟨x0, rs1, rs2, .inr rfl, Immediate.immS.value_narrow w, nofun, nofun⟩, rfl⟩
  · obtain ⟨⟨op, imm⟩, named, rfl⟩ := Option.map_eq_some_iff.mp decoded
    exact ⟨⟨rd, rs1, x0, .inr rfl, immOp_bounds named, nofun, nofun⟩, rfl⟩
  · obtain ⟨⟨op, imm⟩, named, rfl⟩ := Option.map_eq_some_iff.mp decoded
    obtain ⟨bounds, amount⟩ := immOpW_bounds named
    exact ⟨⟨rd, rs1, x0, .inr rfl, bounds, fun _ same => Op.immediateW.inj same ▸ amount, nofun⟩, rfl⟩
  · obtain ⟨op, -, rfl⟩ := Option.map_eq_some_iff.mp decoded
    exact ⟨⟨rd, rs1, rs2, .inr rfl, zero, nofun, nofun⟩, rfl⟩
  · obtain ⟨op, -, rfl⟩ := Option.map_eq_some_iff.mp decoded
    exact ⟨⟨rd, rs1, rs2, .inr rfl, zero, nofun, nofun⟩, rfl⟩
  · obtain ⟨op, named, rfl⟩ := Option.map_eq_some_iff.mp decoded
    unfold fenceOp? at named
    exact ⟨⟨x0, x0, x0, .inr rfl, zero, by grind, by grind [role, Op.role]⟩, rfl⟩
  · split at decoded
    · obtain ⟨op, named, rfl⟩ := Option.map_eq_some_iff.mp decoded
      unfold bareOp? at named
      exact ⟨⟨x0, x0, x0, .inr rfl, zero, by grind, by grind [role, Op.role]⟩, rfl⟩
    · obtain ⟨⟨update, source⟩, -, rfl⟩ := Option.map_eq_some_iff.mp decoded
      exact ⟨⟨rd, rs1, x0, .inr rfl, csr, nofun, nofun⟩, rfl⟩
  · cases decoded

end Long

namespace Short

variable {h : Nat}

theorem register_lt (h low : Nat) : register h low < 32 := by
  have field := bits_lt h low 3
  unfold register
  omega

theorem decodeArithmetic_legal {insn : Instruction} (decoded : decodeArithmetic? h = some insn) :
    insn.Legal ∧ insn.len = 2 := by
  have rd := register_lt h 7
  have rs2 := register_lt h 2
  have x0 : 0 < 32 := by decide
  have zero : Narrow 0 := by unfold Narrow; decide
  unfold decodeArithmetic? at decoded
  split at decoded
  · cases decoded; exact ⟨⟨rd, rd, x0, .inl rfl, Immediate.amount.value_narrow h, nofun, nofun⟩, rfl⟩
  · cases decoded; exact ⟨⟨rd, rd, x0, .inl rfl, Immediate.amount.value_narrow h, nofun, nofun⟩, rfl⟩
  · cases decoded; exact ⟨⟨rd, rd, x0, .inl rfl, Immediate.imm6.value_narrow h, nofun, nofun⟩, rfl⟩
  · obtain ⟨op, named, rfl⟩ := Option.map_eq_some_iff.mp decoded
    unfold pairOp? at named
    exact ⟨⟨rd, rd, rs2, .inl rfl, zero, by grind, by grind [role, Op.role]⟩, rfl⟩

theorem decodeMove_legal {insn : Instruction} (decoded : decodeMove? h = some insn) : insn.Legal ∧ insn.len = 2 := by
  have rd : bits h 7 5 < 32 := bits_lt h 7 5
  have rs2 : bits h 2 5 < 32 := bits_lt h 2 5
  have x0 : 0 < 32 := by decide
  have x1 : 1 < 32 := by decide
  have zero : Narrow 0 := by unfold Narrow; decide
  simp only [decodeMove?] at decoded
  split at decoded
  · split at decoded
    · split at decoded
      · cases decoded
      · cases decoded; exact ⟨⟨x0, rd, x0, .inl rfl, zero, nofun, nofun⟩, rfl⟩
    · cases decoded; exact ⟨⟨rd, x0, rs2, .inl rfl, zero, nofun, nofun⟩, rfl⟩
  · split at decoded
    · split at decoded
      · cases decoded; exact ⟨⟨x0, x0, x0, .inl rfl, zero, nofun, nofun⟩, rfl⟩
      · cases decoded; exact ⟨⟨x1, rd, x0, .inl rfl, zero, nofun, nofun⟩, rfl⟩
    · cases decoded; exact ⟨⟨rd, rd, rs2, .inl rfl, zero, nofun, nofun⟩, rfl⟩

theorem decode_legal {insn : Instruction} (decoded : decode? h = some insn) : insn.Legal ∧ insn.len = 2 := by
  have rd : bits h 7 5 < 32 := bits_lt h 7 5
  have rs2 : bits h 2 5 < 32 := bits_lt h 2 5
  have near := register_lt h 7
  have far := register_lt h 2
  have x0 : 0 < 32 := by decide
  have x2 : 2 < 32 := by decide
  have jump : immJump h % 2 = 0 := (Immediate.jump.value_fits h).1
  have branch : immBranch h % 2 = 0 := (Immediate.branch.value_fits h).1
  simp only [decode?] at decoded
  split at decoded
  · split at decoded
    · cases decoded
    · cases decoded; exact ⟨⟨far, x2, x0, .inl rfl, Immediate.stackAddress.value_narrow h, nofun, nofun⟩, rfl⟩
  · cases decoded; exact ⟨⟨far, near, x0, .inl rfl, Immediate.word.value_narrow h, nofun, nofun⟩, rfl⟩
  · cases decoded; exact ⟨⟨far, near, x0, .inl rfl, Immediate.double.value_narrow h, nofun, nofun⟩, rfl⟩
  · cases decoded; exact ⟨⟨x0, near, far, .inl rfl, Immediate.word.value_narrow h, nofun, nofun⟩, rfl⟩
  · cases decoded; exact ⟨⟨x0, near, far, .inl rfl, Immediate.double.value_narrow h, nofun, nofun⟩, rfl⟩
  · cases decoded; exact ⟨⟨rd, rd, x0, .inl rfl, Immediate.imm6.value_narrow h, nofun, nofun⟩, rfl⟩
  · split at decoded
    · cases decoded
    · cases decoded; exact ⟨⟨rd, rd, x0, .inl rfl, Immediate.imm6.value_narrow h, by grind, nofun⟩, rfl⟩
  · cases decoded; exact ⟨⟨rd, x0, x0, .inl rfl, Immediate.imm6.value_narrow h, nofun, nofun⟩, rfl⟩
  · split at decoded
    · split at decoded
      · cases decoded
      · cases decoded; exact ⟨⟨x2, x2, x0, .inl rfl, Immediate.stackAdjust.value_narrow h, nofun, nofun⟩, rfl⟩
    · split at decoded
      · cases decoded
      · cases decoded; exact ⟨⟨rd, x0, x0, .inl rfl, Immediate.page.value_narrow h, nofun, nofun⟩, rfl⟩
  · exact decodeArithmetic_legal decoded
  · cases decoded; exact ⟨⟨x0, x0, x0, .inl rfl, Immediate.jump.value_narrow h, nofun, fun _ => jump⟩, rfl⟩
  · cases decoded; exact ⟨⟨x0, near, x0, .inl rfl, Immediate.branch.value_narrow h, nofun, fun _ => branch⟩, rfl⟩
  · cases decoded; exact ⟨⟨x0, near, x0, .inl rfl, Immediate.branch.value_narrow h, nofun, fun _ => branch⟩, rfl⟩
  · cases decoded; exact ⟨⟨rd, rd, x0, .inl rfl, Immediate.amount.value_narrow h, nofun, nofun⟩, rfl⟩
  · split at decoded
    · cases decoded
    · cases decoded; exact ⟨⟨rd, x2, x0, .inl rfl, Immediate.loadWordStack.value_narrow h, nofun, nofun⟩, rfl⟩
  · split at decoded
    · cases decoded
    · cases decoded; exact ⟨⟨rd, x2, x0, .inl rfl, Immediate.loadDoubleStack.value_narrow h, nofun, nofun⟩, rfl⟩
  · exact decodeMove_legal decoded
  · cases decoded; exact ⟨⟨x0, x2, rs2, .inl rfl, Immediate.storeWordStack.value_narrow h, nofun, nofun⟩, rfl⟩
  · cases decoded; exact ⟨⟨x0, x2, rs2, .inl rfl, Immediate.storeDoubleStack.value_narrow h, nofun, nofun⟩, rfl⟩
  · cases decoded

end Short

variable {bytes : List UInt8} {insn : Instruction}

def needs (bytes : List UInt8) : Nat := lengthOf (Bytes.value (bytes.take 2))

theorem lengthOf_cases (parcel : Nat) : parcel % 4 ≠ 3 ∧ lengthOf parcel = 2 ∨ parcel % 4 = 3 ∧ lengthOf parcel = 4 := by
  unfold lengthOf
  split
  · exact .inr ⟨‹_›, rfl⟩
  · exact .inl ⟨‹_›, rfl⟩

theorem needs_cases (bytes : List UInt8) : needs bytes = 2 ∨ needs bytes = 4 := by
  have either := lengthOf_cases (Bytes.value (bytes.take 2))
  unfold needs
  omega

theorem decode_ok (decoded : decode bytes = .ok insn) :
    insn.Legal ∧ ∃ low high rest, bytes = low :: high :: rest ∧ insn.len = lengthOf (Bytes.value [low, high]) ∧
      insn.len ≤ bytes.length := by
  unfold decode at decoded
  split at decoded
  · rename_i b0 b1 rest
    dsimp only at decoded
    by_cases short : lengthOf (Bytes.value [b0, b1]) = 2
    · rw [if_pos short] at decoded
      split at decoded
      · rename_i found
        cases decoded
        obtain ⟨legal, len⟩ := Short.decode_legal found
        exact ⟨legal, b0, b1, rest, rfl, by omega, by simp [len]⟩
      · cases decoded
    · rw [if_neg short] at decoded
      have long := lengthOf_cases (Bytes.value [b0, b1])
      split at decoded
      · split at decoded
        · rename_i found
          cases decoded
          obtain ⟨legal, len⟩ := Long.decode_legal found
          exact ⟨legal, b0, b1, _, rfl, by omega, by simp [len]⟩
        · cases decoded
      · cases decoded
  · cases decoded

theorem decode_legal (decoded : decode bytes = .ok insn) : insn.Legal := (decode_ok decoded).1

theorem needs_of_decode (decoded : decode bytes = .ok insn) : needs bytes = insn.len ∧ insn.len ≤ bytes.length := by
  obtain ⟨-, low, high, rest, rfl, len, there⟩ := decode_ok decoded
  exact ⟨len.symm, there⟩

theorem decode_append (decoded : decode bytes = .ok insn) (more : List UInt8) : decode (bytes ++ more) = .ok insn := by
  unfold decode at decoded
  split at decoded
  · rename_i b0 b1 rest
    dsimp only at decoded
    simp only [List.cons_append, decode]
    by_cases short : lengthOf (Bytes.value [b0, b1]) = 2
    · simpa only [short, if_true] using decoded
    · simp only [short, if_false] at decoded ⊢
      split at decoded
      · simpa only [List.cons_append] using decoded
      · cases decoded
  · cases decoded

theorem decode_take (decoded : decode bytes = .ok insn) {count : Nat} (enough : insn.len ≤ count) :
    decode (bytes.take count) = .ok insn := by
  obtain ⟨-, b0, b1, rest, rfl, len, there⟩ := decode_ok decoded
  simp only [decode] at decoded
  by_cases short : lengthOf (Bytes.value [b0, b1]) = 2
  · obtain ⟨more, rfl⟩ : ∃ more, count = more + 2 := ⟨count - 2, by omega⟩
    simpa only [List.take_succ_cons, decode, short, if_true] using decoded
  · have long := lengthOf_cases (Bytes.value [b0, b1])
    obtain ⟨more, rfl⟩ : ∃ more, count = more + 4 := ⟨count - 4, by omega⟩
    simp only [List.take_succ_cons, decode, short, if_false] at decoded ⊢
    split at decoded
    · simpa only [List.take_succ_cons] using decoded
    · cases decoded

end TieredHart.Instruction

namespace TieredHart.MicroOp

theorem instruction_ofInstruction {insn : Instruction} (legal : insn.Legal) (kind : MicroKind) (pcOffset aux : UInt16) :
    (ofInstruction kind insn pcOffset aux).instruction? = some insn := by
  have number := Op.number_lt insn.op
  have rd := legal.rd
  have rs1 := legal.rs1
  have rs2 := legal.rs2
  have len : insn.len < 256 := by have either := legal.len; omega
  have imm : (Int32.ofInt insn.imm).toInt = insn.imm := Int32.toInt_ofInt_of_le legal.imm.1 legal.imm.2
  have byte : ∀ {n : Nat}, n < 256 → (UInt8.ofNat n).toNat = n := fun small => by simp [Nat.mod_eq_of_lt small]
  unfold instruction? ofInstruction
  simp only [byte (by omega : insn.op.number < 256), byte (by omega : insn.rd < 256), byte (by omega : insn.rs1 < 256),
    byte (by omega : insn.rs2 < 256), byte len, imm, Op.ofNumber_number, Option.map_some]

end TieredHart.MicroOp
