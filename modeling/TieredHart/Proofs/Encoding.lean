import TieredHart.Proofs.Decoding

namespace TieredHart

def Condition.funct3 : Condition → Nat
  | eq => 0 | ne => 1 | lt => 4 | ge => 5 | ltu => 6 | geu => 7

def LoadOp.funct3 : LoadOp → Nat
  | lb => 0 | lh => 1 | lw => 2 | ld => 3 | lbu => 4 | lhu => 5 | lwu => 6

def StoreOp.funct3 : StoreOp → Nat
  | sb => 0 | sh => 1 | sw => 2 | sd => 3

def ImmOp.funct3 : ImmOp → Nat
  | addi => 0 | slti => 2 | sltiu => 3 | xori => 4 | ori => 6 | andi => 7 | slli => 1 | srli => 5 | srai => 5

def ImmOp.funct6? : ImmOp → Option Nat
  | slli => some 0 | srli => some 0 | srai => some 0x10
  | addi | slti | sltiu | xori | ori | andi => none

def ImmOpW.funct3 : ImmOpW → Nat
  | addiw => 0 | slliw => 1 | srliw => 5 | sraiw => 5

def ImmOpW.funct7? : ImmOpW → Option Nat
  | slliw => some 0 | srliw => some 0 | sraiw => some 0x20
  | addiw => none

def RegOp.funct3 : RegOp → Nat
  | add => 0 | sub => 0 | sll => 1 | slt => 2 | sltu => 3 | xor => 4 | srl => 5 | sra => 5 | or => 6 | and => 7

def RegOp.funct7 : RegOp → Nat
  | sub | sra => 0x20
  | add | sll | slt | sltu | xor | srl | or | and => 0

def RegOpW.funct3 : RegOpW → Nat
  | addw => 0 | subw => 0 | sllw => 1 | srlw => 5 | sraw => 5

def RegOpW.funct7 : RegOpW → Nat
  | subw | sraw => 0x20
  | addw | sllw | srlw => 0

def CsrUpdate.funct3 (source : CsrSource) : CsrUpdate → Nat
  | write => match source with | .register => 1 | .field => 5
  | set => match source with | .register => 2 | .field => 6
  | clear => match source with | .register => 3 | .field => 7

namespace Instruction

section forms

variable (opcode rd funct3 rs1 rs2 : Nat) (imm : Int)

def formR (funct7 : Nat) : Nat := pack [(7, opcode), (5, rd), (3, funct3), (5, rs1), (5, rs2), (7, funct7)]

def formI : Nat := pack [(7, opcode), (5, rd), (3, funct3), (5, rs1), (12, complement imm >>> 0)]

def formShift (width above : Nat) : Nat :=
  pack [(7, opcode), (5, rd), (3, funct3), (5, rs1), (width, complement imm >>> 0), (12 - width, above)]

def formS : Nat :=
  pack [(7, opcode), (5, complement imm >>> 0), (3, funct3), (5, rs1), (5, rs2), (7, complement imm >>> 5)]

def formB : Nat :=
  pack [(7, opcode), (1, complement imm >>> 11), (4, complement imm >>> 1), (3, funct3), (5, rs1), (5, rs2),
    (6, complement imm >>> 5), (1, complement imm >>> 12)]

def formU : Nat := pack [(7, opcode), (5, rd), (20, complement imm >>> 12)]

def formJ : Nat :=
  pack [(7, opcode), (5, rd), (8, complement imm >>> 12), (1, complement imm >>> 11), (10, complement imm >>> 1),
    (1, complement imm >>> 20)]

end forms

def encode (insn : Instruction) : Nat :=
  let ⟨op, rd, rs1, rs2, imm, _⟩ := insn
  match op with
  | .lui => formU 0x37 rd imm
  | .auipc => formU 0x17 rd imm
  | .jal => formJ 0x6f rd imm
  | .jalr => formI 0x67 rd 0 rs1 imm
  | .branch condition => formB 0x63 condition.funct3 rs1 rs2 imm
  | .load op => formI 0x03 rd op.funct3 rs1 imm
  | .store op => formS 0x23 op.funct3 rs1 rs2 imm
  | .immediate op =>
    match op.funct6? with
    | none => formI 0x13 rd op.funct3 rs1 imm
    | some funct6 => formShift 0x13 rd op.funct3 rs1 imm 6 funct6
  | .immediateW op =>
    match op.funct7? with
    | none => formI 0x1b rd op.funct3 rs1 imm
    | some funct7 => formShift 0x1b rd op.funct3 rs1 imm 5 funct7
  | .register op => formR 0x33 rd op.funct3 rs1 rs2 op.funct7
  | .registerW op => formR 0x3b rd op.funct3 rs1 rs2 op.funct7
  | .fence => formI 0x0f rd 0 rs1 imm
  | .fenceI => formI 0x0f rd 1 rs1 imm
  | .ecall => formI 0x73 0 0 0 0
  | .ebreak => formI 0x73 0 0 0 1
  | .mret => formI 0x73 0 0 0 0x302
  | .wfi => formI 0x73 0 0 0 0x105
  | .csr update source => formI 0x73 rd (update.funct3 source) rs1 imm

-- The operands that the place of each in the word admits; those without a place are zero.
def Fits (insn : Instruction) : Prop :=
  insn.rd < 32 ∧ insn.rs1 < 32 ∧ insn.rs2 < 32 ∧ insn.len = 4 ∧
  match insn.op with
  | .lui | .auipc =>
    insn.rs1 = 0 ∧ insn.rs2 = 0 ∧ insn.imm % 4096 = 0 ∧ -0x80000000 ≤ insn.imm ∧ insn.imm < 0x80000000
  | .jal => insn.rs1 = 0 ∧ insn.rs2 = 0 ∧ insn.imm % 2 = 0 ∧ -0x100000 ≤ insn.imm ∧ insn.imm < 0x100000
  | .jalr | .load _ => insn.rs2 = 0 ∧ -2048 ≤ insn.imm ∧ insn.imm < 2048
  | .branch _ => insn.rd = 0 ∧ insn.imm % 2 = 0 ∧ -4096 ≤ insn.imm ∧ insn.imm < 4096
  | .store _ => insn.rd = 0 ∧ -2048 ≤ insn.imm ∧ insn.imm < 2048
  | .immediate op => insn.rs2 = 0 ∧
    if op.funct6?.isSome then 0 ≤ insn.imm ∧ insn.imm < 64 else -2048 ≤ insn.imm ∧ insn.imm < 2048
  | .immediateW op => insn.rs2 = 0 ∧
    if op.funct7?.isSome then 0 ≤ insn.imm ∧ insn.imm < 32 else -2048 ≤ insn.imm ∧ insn.imm < 2048
  | .register _ | .registerW _ => insn.imm = 0
  | .csr _ _ => insn.rs2 = 0 ∧ 0 ≤ insn.imm ∧ insn.imm < 4096
  | .fence | .fenceI | .ecall | .ebreak | .mret | .wfi => insn.rd = 0 ∧ insn.rs1 = 0 ∧ insn.rs2 = 0 ∧ insn.imm = 0

namespace Long

variable {w : Nat}

theorem branchOp_iff {n : Nat} {condition : Condition} : branchOp? n = some condition ↔ n = condition.funct3 := by
  constructor
  · intro named
    unfold branchOp? at named
    split at named <;> cases named <;> rfl
  · rintro rfl
    cases condition <;> rfl

theorem loadOp_iff {n : Nat} {op : LoadOp} : loadOp? n = some op ↔ n = op.funct3 := by
  constructor
  · intro named
    unfold loadOp? at named
    split at named <;> cases named <;> rfl
  · rintro rfl
    cases op <;> rfl

theorem storeOp_iff {n : Nat} {op : StoreOp} : storeOp? n = some op ↔ n = op.funct3 := by
  constructor
  · intro named
    unfold storeOp? at named
    split at named <;> cases named <;> rfl
  · rintro rfl
    cases op <;> rfl

theorem csrOp_iff {n : Nat} {update : CsrUpdate} {source : CsrSource} :
    csrOp? n = some (update, source) ↔ n = update.funct3 source := by
  constructor
  · intro named
    unfold csrOp? at named
    split at named <;> cases named <;> rfl
  · rintro rfl
    cases update <;> cases source <;> rfl

theorem regOp_iff {op : RegOp} : regOp? w = some op ↔ bits w 12 3 = op.funct3 ∧ bits w 25 7 = op.funct7 := by
  unfold regOp?
  constructor
  · intro named
    split at named <;> cases named <;> exact ⟨‹_›, ‹_›⟩
  · rintro ⟨minor, above⟩
    rw [minor, above]
    cases op <;> rfl

theorem regOpW_iff {op : RegOpW} : regOpW? w = some op ↔ bits w 12 3 = op.funct3 ∧ bits w 25 7 = op.funct7 := by
  unfold regOpW?
  constructor
  · intro named
    split at named <;> cases named <;> exact ⟨‹_›, ‹_›⟩
  · rintro ⟨minor, above⟩
    rw [minor, above]
    cases op <;> rfl

theorem immOp_whole_iff {op : ImmOp} {imm : Int} (whole : op.funct6? = none) :
    immOp? w = some (op, imm) ↔ bits w 12 3 = op.funct3 ∧ immI w = imm := by
  unfold immOp?
  constructor
  · intro named
    split at named <;> cases named <;> first | exact ⟨‹_›, rfl⟩ | cases whole
  · rintro ⟨minor, rfl⟩
    rw [minor]
    cases op <;> first | rfl | cases whole

theorem immOp_shift_iff {op : ImmOp} {imm : Int} {funct6 : Nat} (shift : op.funct6? = some funct6) :
    immOp? w = some (op, imm) ↔ bits w 12 3 = op.funct3 ∧ bits w 26 6 = funct6 ∧ (bits w 20 6 : Int) = imm := by
  unfold immOp?
  constructor
  · intro named
    split at named <;> cases named <;> cases shift <;> exact ⟨‹_›, ‹_›, rfl⟩
  · rintro ⟨minor, above, rfl⟩
    rw [minor, above]
    cases op <;> cases shift <;> rfl

theorem immOpW_whole_iff {op : ImmOpW} {imm : Int} (whole : op.funct7? = none) :
    immOpW? w = some (op, imm) ↔ bits w 12 3 = op.funct3 ∧ immI w = imm := by
  unfold immOpW?
  constructor
  · intro named
    split at named <;> cases named <;> first | exact ⟨‹_›, rfl⟩ | cases whole
  · rintro ⟨minor, rfl⟩
    rw [minor]
    cases op <;> first | rfl | cases whole

theorem immOpW_shift_iff {op : ImmOpW} {imm : Int} {funct7 : Nat} (shift : op.funct7? = some funct7) :
    immOpW? w = some (op, imm) ↔ bits w 12 3 = op.funct3 ∧ bits w 25 7 = funct7 ∧ (bits w 20 5 : Int) = imm := by
  unfold immOpW?
  constructor
  · intro named
    split at named <;> cases named <;> cases shift <;> exact ⟨‹_›, ‹_›, rfl⟩
  · rintro ⟨minor, above, rfl⟩
    rw [minor, above]
    cases op <;> cases shift <;> rfl

end Long

section forms

variable {w opcode rd funct3 rs1 rs2 : Nat} {imm : Int}

theorem formR_iff {funct7 : Nat} (small : w >>> 32 = 0) (major : opcode < 1 <<< 7) (minor : funct3 < 1 <<< 3)
    (first : rd < 1 <<< 5) (second : rs1 < 1 <<< 5) (third : rs2 < 1 <<< 5) (above : funct7 < 1 <<< 7) :
    formR opcode rd funct3 rs1 rs2 funct7 = w ↔ bits w 0 7 = opcode ∧ bits w 7 5 = rd ∧ bits w 12 3 = funct3 ∧
      bits w 15 5 = rs1 ∧ bits w 20 5 = rs2 ∧ bits w 25 7 = funct7 := by
  simp only [formR, pack_cons_eq, pack_nil_eq, ← Nat.shiftRight_add, bits_shiftRight, Nat.reduceAdd, small, and_true,
    Nat.mod_eq_of_lt major, Nat.mod_eq_of_lt minor, Nat.mod_eq_of_lt first, Nat.mod_eq_of_lt second,
    Nat.mod_eq_of_lt third, Nat.mod_eq_of_lt above, eq_comm (a := bits w _ _)]

theorem formI_iff (small : w >>> 32 = 0) (major : opcode < 1 <<< 7) (minor : funct3 < 1 <<< 3) (first : rd < 1 <<< 5)
    (second : rs1 < 1 <<< 5) :
    formI opcode rd funct3 rs1 imm = w ↔ bits w 0 7 = opcode ∧ bits w 7 5 = rd ∧ bits w 12 3 = funct3 ∧
      bits w 15 5 = rs1 ∧ bits w 20 12 = bits (complement imm) 0 12 := by
  simp only [formI, pack_cons_eq, pack_nil_eq, ← Nat.shiftRight_add, bits_shiftRight, Nat.reduceAdd, small, and_true,
    Nat.mod_eq_of_lt major, Nat.mod_eq_of_lt minor, Nat.mod_eq_of_lt first, Nat.mod_eq_of_lt second, shiftRight_mod,
    eq_comm (a := bits w _ _)]

theorem formShift_iff {width upper : Nat} (small : w >>> 32 = 0) (major : opcode < 1 <<< 7) (minor : funct3 < 1 <<< 3)
    (first : rd < 1 <<< 5) (second : rs1 < 1 <<< 5) (inside : width ≤ 12) (above : upper < 1 <<< (12 - width)) :
    formShift opcode rd funct3 rs1 imm width upper = w ↔ bits w 0 7 = opcode ∧ bits w 7 5 = rd ∧ bits w 12 3 = funct3 ∧
      bits w 15 5 = rs1 ∧ bits w 20 width = bits (complement imm) 0 width ∧ bits w (20 + width) (12 - width) = upper := by
  have whole : 20 + width + (12 - width) = 32 := by omega
  simp only [formShift, pack_cons_eq, pack_nil_eq, ← Nat.shiftRight_add, bits_shiftRight, Nat.reduceAdd, whole, small,
    and_true, Nat.add_zero, Nat.mod_eq_of_lt major, Nat.mod_eq_of_lt minor, Nat.mod_eq_of_lt first,
    Nat.mod_eq_of_lt second, Nat.mod_eq_of_lt above, shiftRight_mod, eq_comm (a := bits w _ _)]

theorem formS_iff (small : w >>> 32 = 0) (major : opcode < 1 <<< 7) (minor : funct3 < 1 <<< 3) (second : rs1 < 1 <<< 5)
    (third : rs2 < 1 <<< 5) (fits : Immediate.immS.layout.Fits imm) :
    formS opcode funct3 rs1 rs2 imm = w ↔ bits w 0 7 = opcode ∧ bits w 12 3 = funct3 ∧ bits w 15 5 = rs1 ∧
      bits w 20 5 = rs2 ∧ Long.immS w = imm := by
  have places : Long.immS w = imm ↔ _ := Immediate.value_eq_iff fits
  rw [places]
  simp only [formS, pack_cons_eq, pack_nil_eq, ← Nat.shiftRight_add, bits_shiftRight, Nat.reduceAdd, small, and_true,
    Nat.mod_eq_of_lt major, Nat.mod_eq_of_lt minor, Nat.mod_eq_of_lt second, Nat.mod_eq_of_lt third, shiftRight_mod,
    Immediate.layout, Scattered]
  grind

theorem formB_iff (small : w >>> 32 = 0) (major : opcode < 1 <<< 7) (minor : funct3 < 1 <<< 3) (second : rs1 < 1 <<< 5)
    (third : rs2 < 1 <<< 5) (fits : Immediate.immB.layout.Fits imm) :
    formB opcode funct3 rs1 rs2 imm = w ↔ bits w 0 7 = opcode ∧ bits w 12 3 = funct3 ∧ bits w 15 5 = rs1 ∧
      bits w 20 5 = rs2 ∧ Long.immB w = imm := by
  have places : Long.immB w = imm ↔ _ := Immediate.value_eq_iff fits
  rw [places]
  simp only [formB, pack_cons_eq, pack_nil_eq, ← Nat.shiftRight_add, bits_shiftRight, Nat.reduceAdd, small, and_true,
    Nat.mod_eq_of_lt major, Nat.mod_eq_of_lt minor, Nat.mod_eq_of_lt second, Nat.mod_eq_of_lt third, shiftRight_mod,
    Immediate.layout, Scattered]
  grind

theorem formU_iff (small : w >>> 32 = 0) (major : opcode < 1 <<< 7) (first : rd < 1 <<< 5)
    (fits : Immediate.immU.layout.Fits imm) :
    formU opcode rd imm = w ↔ bits w 0 7 = opcode ∧ bits w 7 5 = rd ∧ Long.immU w = imm := by
  have places : Long.immU w = imm ↔ _ := Immediate.value_eq_iff fits
  rw [places]
  simp only [formU, pack_cons_eq, pack_nil_eq, ← Nat.shiftRight_add, bits_shiftRight, Nat.reduceAdd, small, and_true,
    Nat.mod_eq_of_lt major, Nat.mod_eq_of_lt first, shiftRight_mod, Immediate.layout, Scattered, eq_comm (a := bits w _ _)]

theorem formJ_iff (small : w >>> 32 = 0) (major : opcode < 1 <<< 7) (first : rd < 1 <<< 5)
    (fits : Immediate.immJ.layout.Fits imm) :
    formJ opcode rd imm = w ↔ bits w 0 7 = opcode ∧ bits w 7 5 = rd ∧ Long.immJ w = imm := by
  have places : Long.immJ w = imm ↔ _ := Immediate.value_eq_iff fits
  rw [places]
  simp only [formJ, pack_cons_eq, pack_nil_eq, ← Nat.shiftRight_add, bits_shiftRight, Nat.reduceAdd, small, and_true,
    Nat.mod_eq_of_lt major, Nat.mod_eq_of_lt first, shiftRight_mod, Immediate.layout, Scattered]
  grind

end forms

-- A word that stands for an instruction. Fences have fields that nobody looks at.
def Agrees (insn : Instruction) (w : Nat) : Prop :=
  match insn.op with
  | .fence | .fenceI => bits w 0 7 = bits insn.encode 0 7 ∧ bits w 12 3 = bits insn.encode 12 3
  | _ => insn.encode = w

namespace Long

variable {w : Nat} {insn : Instruction}

theorem fits_of_decode (decoded : decode? w = some insn) : insn.Fits := by
  have immU : immU w % 4096 = 0 ∧ Narrow (immU w) := Immediate.immU.value_fits w
  have rd : bits w 7 5 < 32 := bits_lt w 7 5
  have rs1 : bits w 15 5 < 32 := bits_lt w 15 5
  have rs2 : bits w 20 5 < 32 := bits_lt w 20 5
  have x0 : 0 < 32 := by decide
  unfold decode? at decoded
  split at decoded
  · cases decoded
    refine ⟨rd, x0, x0, rfl, ?_⟩
    dsimp only
    exact ⟨rfl, rfl, immU⟩
  · cases decoded
    refine ⟨rd, x0, x0, rfl, ?_⟩
    dsimp only
    exact ⟨rfl, rfl, immU⟩
  · cases decoded
    exact ⟨rd, x0, x0, rfl, rfl, rfl, Immediate.immJ.value_fits w⟩
  · split at decoded
    · cases decoded
      exact ⟨rd, rs1, x0, rfl, rfl, (Immediate.immI.value_fits w).2⟩
    · cases decoded
  · obtain ⟨op, -, rfl⟩ := Option.map_eq_some_iff.mp decoded
    exact ⟨x0, rs1, rs2, rfl, rfl, Immediate.immB.value_fits w⟩
  · obtain ⟨op, -, rfl⟩ := Option.map_eq_some_iff.mp decoded
    exact ⟨rd, rs1, x0, rfl, rfl, (Immediate.immI.value_fits w).2⟩
  · obtain ⟨op, -, rfl⟩ := Option.map_eq_some_iff.mp decoded
    exact ⟨x0, rs1, rs2, rfl, rfl, (Immediate.immS.value_fits w).2⟩
  · obtain ⟨⟨op, imm⟩, named, rfl⟩ := Option.map_eq_some_iff.mp decoded
    refine ⟨rd, rs1, x0, rfl, rfl, ?_⟩
    cases shift : op.funct6? with
    | none =>
      obtain ⟨-, rfl⟩ := (immOp_whole_iff shift).mp named
      exact (Immediate.immI.value_fits w).2
    | some funct6 =>
      obtain ⟨-, -, rfl⟩ := (immOp_shift_iff shift).mp named
      exact ⟨Int.natCast_nonneg _, Int.ofNat_lt.mpr (bits_lt w 20 6)⟩
  · obtain ⟨⟨op, imm⟩, named, rfl⟩ := Option.map_eq_some_iff.mp decoded
    refine ⟨rd, rs1, x0, rfl, rfl, ?_⟩
    cases shift : op.funct7? with
    | none =>
      obtain ⟨-, rfl⟩ := (immOpW_whole_iff shift).mp named
      exact (Immediate.immI.value_fits w).2
    | some funct7 =>
      obtain ⟨-, -, rfl⟩ := (immOpW_shift_iff shift).mp named
      exact ⟨Int.natCast_nonneg _, Int.ofNat_lt.mpr (bits_lt w 20 5)⟩
  · obtain ⟨op, -, rfl⟩ := Option.map_eq_some_iff.mp decoded
    exact ⟨rd, rs1, rs2, rfl, rfl⟩
  · obtain ⟨op, -, rfl⟩ := Option.map_eq_some_iff.mp decoded
    exact ⟨rd, rs1, rs2, rfl, rfl⟩
  · obtain ⟨op, named, rfl⟩ := Option.map_eq_some_iff.mp decoded
    unfold fenceOp? at named
    split at named <;> cases named <;> exact ⟨x0, x0, x0, rfl, rfl, rfl, rfl, rfl⟩
  · split at decoded
    · obtain ⟨op, named, rfl⟩ := Option.map_eq_some_iff.mp decoded
      unfold bareOp? at named
      split at named <;> cases named <;> exact ⟨x0, x0, x0, rfl, rfl, rfl, rfl, rfl⟩
    · obtain ⟨⟨update, source⟩, -, rfl⟩ := Option.map_eq_some_iff.mp decoded
      have number := bits_lt w 20 12
      exact ⟨rd, rs1, x0, rfl, rfl, Int.natCast_nonneg _, Int.ofNat_lt.mpr number⟩
  · cases decoded

theorem immI_iff {imm : Int} (above : -2048 ≤ imm) (below : imm < 2048) :
    bits w 20 12 = bits (complement imm) 0 12 ↔ immI w = imm := by
  have fits : Immediate.immI.layout.Fits imm := ⟨Int.emod_one imm, above, below⟩
  have places : immI w = imm ↔ _ := Immediate.value_eq_iff fits
  rw [places]
  exact (and_iff_left trivial).symm

theorem agrees_of_decode (small : w >>> 32 = 0) (decoded : decode? w = some insn) : insn.Agrees w := by
  have rd := bits_lt w 7 5
  have rs1 := bits_lt w 15 5
  have rs2 := bits_lt w 20 5
  have minor := bits_lt w 12 3
  have above := bits_lt w 25 7
  have range : -2048 ≤ immI w ∧ immI w < 2048 := (Immediate.immI.value_fits w).2
  have narrow : bits w 20 12 = bits (complement (immI w)) 0 12 := (immI_iff range.1 range.2).mpr rfl
  unfold decode? at decoded
  split at decoded
  · rename_i opcode
    cases decoded
    simp only [Agrees, encode]
    exact (formU_iff small (by decide) rd (Immediate.immU.value_fits w)).mpr ⟨opcode, rfl, rfl⟩
  · rename_i opcode
    cases decoded
    simp only [Agrees, encode]
    exact (formU_iff small (by decide) rd (Immediate.immU.value_fits w)).mpr ⟨opcode, rfl, rfl⟩
  · rename_i opcode
    cases decoded
    simp only [Agrees, encode]
    exact (formJ_iff small (by decide) rd (Immediate.immJ.value_fits w)).mpr ⟨opcode, rfl, rfl⟩
  · rename_i opcode
    split at decoded
    · rename_i zero
      cases decoded
      exact (formI_iff small (by decide) (by decide) rd rs1).mpr ⟨opcode, rfl, zero, rfl, narrow⟩
    · cases decoded
  · rename_i opcode
    obtain ⟨op, named, rfl⟩ := Option.map_eq_some_iff.mp decoded
    rw [branchOp_iff] at named
    simp only [Agrees, encode]
    exact (formB_iff small (by decide) (named ▸ minor) rs1 rs2 (Immediate.immB.value_fits w)).mpr
      ⟨opcode, named, rfl, rfl, rfl⟩
  · rename_i opcode
    obtain ⟨op, named, rfl⟩ := Option.map_eq_some_iff.mp decoded
    rw [loadOp_iff] at named
    exact (formI_iff small (by decide) (named ▸ minor) rd rs1).mpr ⟨opcode, rfl, named, rfl, narrow⟩
  · rename_i opcode
    obtain ⟨op, named, rfl⟩ := Option.map_eq_some_iff.mp decoded
    rw [storeOp_iff] at named
    simp only [Agrees, encode]
    exact (formS_iff small (by decide) (named ▸ minor) rs1 rs2 (Immediate.immS.value_fits w)).mpr
      ⟨opcode, named, rfl, rfl, rfl⟩
  · rename_i opcode
    obtain ⟨⟨op, imm⟩, named, rfl⟩ := Option.map_eq_some_iff.mp decoded
    simp only [Agrees, encode]
    cases shift : op.funct6? with
    | none =>
      obtain ⟨kind, rfl⟩ := (immOp_whole_iff shift).mp named
      exact (formI_iff small (by decide) (kind ▸ minor) rd rs1).mpr ⟨opcode, rfl, kind, rfl, narrow⟩
    | some funct6 =>
      obtain ⟨kind, upper, rfl⟩ := (immOp_shift_iff shift).mp named
      have amount := bits_lt w 20 6
      exact (formShift_iff small (by decide) (kind ▸ minor) rd rs1 (by decide) (upper ▸ bits_lt w 26 6)).mpr
        ⟨opcode, rfl, kind, rfl, (natural_complement (by decide) (Int.natCast_nonneg _) (Int.ofNat_lt.mpr amount)).mpr rfl, upper⟩
  · rename_i opcode
    obtain ⟨⟨op, imm⟩, named, rfl⟩ := Option.map_eq_some_iff.mp decoded
    simp only [Agrees, encode]
    cases shift : op.funct7? with
    | none =>
      obtain ⟨kind, rfl⟩ := (immOpW_whole_iff shift).mp named
      exact (formI_iff small (by decide) (kind ▸ minor) rd rs1).mpr ⟨opcode, rfl, kind, rfl, narrow⟩
    | some funct7 =>
      obtain ⟨kind, upper, rfl⟩ := (immOpW_shift_iff shift).mp named
      have amount := bits_lt w 20 5
      exact (formShift_iff small (by decide) (kind ▸ minor) rd rs1 (by decide) (upper ▸ bits_lt w 25 7)).mpr
        ⟨opcode, rfl, kind, rfl, (natural_complement (by decide) (Int.natCast_nonneg _) (Int.ofNat_lt.mpr amount)).mpr rfl, upper⟩
  · rename_i opcode
    obtain ⟨op, named, rfl⟩ := Option.map_eq_some_iff.mp decoded
    obtain ⟨kind, upper⟩ := regOp_iff.mp named
    simp only [Agrees, encode]
    exact (formR_iff small (by decide) (kind ▸ minor) rd rs1 rs2 (upper ▸ above)).mpr ⟨opcode, rfl, kind, rfl, rfl, upper⟩
  · rename_i opcode
    obtain ⟨op, named, rfl⟩ := Option.map_eq_some_iff.mp decoded
    obtain ⟨kind, upper⟩ := regOpW_iff.mp named
    simp only [Agrees, encode]
    exact (formR_iff small (by decide) (kind ▸ minor) rd rs1 rs2 (upper ▸ above)).mpr ⟨opcode, rfl, kind, rfl, rfl, upper⟩
  · rename_i opcode
    obtain ⟨op, named, rfl⟩ := Option.map_eq_some_iff.mp decoded
    unfold fenceOp? at named
    split at named <;> cases named <;> exact ⟨opcode, ‹_›⟩
  · rename_i opcode
    split at decoded
    · obtain ⟨op, named, rfl⟩ := Option.map_eq_some_iff.mp decoded
      unfold bareOp? at named
      split at named <;> cases named <;> rfl
    · obtain ⟨⟨update, source⟩, named, rfl⟩ := Option.map_eq_some_iff.mp decoded
      rw [csrOp_iff] at named
      have number := bits_lt w 20 12
      exact (formI_iff small (by decide) (named ▸ minor) rd rs1).mpr ⟨opcode, rfl, named, rfl,
        (natural_complement (by decide) (Int.natCast_nonneg _) (Int.ofNat_lt.mpr number)).mpr rfl⟩
  · cases decoded

theorem decode_of_agrees (small : w >>> 32 = 0) (fits : insn.Fits) (agrees : insn.Agrees w) : decode? w = some insn := by
  obtain ⟨op, rd, rs1, rs2, imm, len⟩ := insn
  obtain ⟨first, second, third, four, operands⟩ := fits
  cases four
  cases op with
  | lui =>
    obtain ⟨rfl, rfl, page, above, below⟩ := operands
    obtain ⟨opcode, rfl, rfl⟩ := (formU_iff small (by decide) first ⟨page, above, below⟩).mp agrees
    simp only [decode?, opcode]
  | auipc =>
    obtain ⟨rfl, rfl, page, above, below⟩ := operands
    obtain ⟨opcode, rfl, rfl⟩ := (formU_iff small (by decide) first ⟨page, above, below⟩).mp agrees
    simp only [decode?, opcode]
  | jal =>
    obtain ⟨rfl, rfl, even, above, below⟩ := operands
    obtain ⟨opcode, rfl, rfl⟩ := (formJ_iff small (by decide) first ⟨even, above, below⟩).mp agrees
    simp only [decode?, opcode]
  | jalr =>
    obtain ⟨rfl, above, below⟩ := operands
    obtain ⟨opcode, rfl, zero, rfl, field⟩ := (formI_iff small (by decide) (by decide) first second).mp agrees
    obtain rfl := (immI_iff above below).mp field
    simp only [decode?, opcode, zero, if_true]
  | branch condition =>
    obtain ⟨rfl, even, above, below⟩ := operands
    have minor : condition.funct3 < 1 <<< 3 := by cases condition <;> decide
    obtain ⟨opcode, kind, rfl, rfl, rfl⟩ := (formB_iff small (by decide) minor second third ⟨even, above, below⟩).mp agrees
    simp only [decode?, opcode, branchOp_iff.mpr kind, Option.map_some]
  | load op =>
    obtain ⟨rfl, above, below⟩ := operands
    have minor : op.funct3 < 1 <<< 3 := by cases op <;> decide
    obtain ⟨opcode, rfl, kind, rfl, field⟩ := (formI_iff small (by decide) minor first second).mp agrees
    obtain rfl := (immI_iff above below).mp field
    simp only [decode?, opcode, loadOp_iff.mpr kind, Option.map_some]
  | store op =>
    obtain ⟨rfl, above, below⟩ := operands
    have minor : op.funct3 < 1 <<< 3 := by cases op <;> decide
    obtain ⟨opcode, kind, rfl, rfl, rfl⟩ := (formS_iff small (by decide) minor second third ⟨Int.emod_one _, above, below⟩).mp agrees
    simp only [decode?, opcode, storeOp_iff.mpr kind, Option.map_some]
  | immediate op =>
    obtain ⟨rfl, range⟩ := operands
    have minor : op.funct3 < 1 <<< 3 := by cases op <;> decide
    simp only [Agrees, encode] at agrees
    cases shift : op.funct6? with
    | none =>
      simp only [shift, Option.isSome_none, Bool.false_eq_true, if_false] at agrees range
      obtain ⟨opcode, rfl, kind, rfl, field⟩ := (formI_iff small (by decide) minor first second).mp agrees
      have named := (immOp_whole_iff shift).mpr ⟨kind, (immI_iff range.1 range.2).mp field⟩
      simp only [decode?, opcode, named, Option.map_some]
    | some funct6 =>
      simp only [shift, Option.isSome_some, if_true] at agrees range
      have upper : funct6 < 1 <<< 6 := by cases op <;> cases shift <;> decide
      obtain ⟨opcode, rfl, kind, rfl, field, above⟩ :=
        (formShift_iff small (by decide) minor first second (by decide) upper).mp agrees
      have named := (immOp_shift_iff shift).mpr
        ⟨kind, above, (natural_complement (by decide) range.1 range.2).mp field⟩
      simp only [decode?, opcode, named, Option.map_some]
  | immediateW op =>
    obtain ⟨rfl, range⟩ := operands
    have minor : op.funct3 < 1 <<< 3 := by cases op <;> decide
    simp only [Agrees, encode] at agrees
    cases shift : op.funct7? with
    | none =>
      simp only [shift, Option.isSome_none, Bool.false_eq_true, if_false] at agrees range
      obtain ⟨opcode, rfl, kind, rfl, field⟩ := (formI_iff small (by decide) minor first second).mp agrees
      have named := (immOpW_whole_iff shift).mpr ⟨kind, (immI_iff range.1 range.2).mp field⟩
      simp only [decode?, opcode, named, Option.map_some]
    | some funct7 =>
      simp only [shift, Option.isSome_some, if_true] at agrees range
      have upper : funct7 < 1 <<< 7 := by cases op <;> cases shift <;> decide
      obtain ⟨opcode, rfl, kind, rfl, field, above⟩ :=
        (formShift_iff small (by decide) minor first second (by decide) upper).mp agrees
      have named := (immOpW_shift_iff shift).mpr
        ⟨kind, above, (natural_complement (by decide) range.1 range.2).mp field⟩
      simp only [decode?, opcode, named, Option.map_some]
  | register op =>
    obtain rfl : imm = 0 := operands
    have minor : op.funct3 < 1 <<< 3 := by cases op <;> decide
    have upper : op.funct7 < 1 <<< 7 := by cases op <;> decide
    obtain ⟨opcode, rfl, kind, rfl, rfl, above⟩ := (formR_iff small (by decide) minor first second third upper).mp agrees
    simp only [decode?, opcode, regOp_iff.mpr ⟨kind, above⟩, Option.map_some]
  | registerW op =>
    obtain rfl : imm = 0 := operands
    have minor : op.funct3 < 1 <<< 3 := by cases op <;> decide
    have upper : op.funct7 < 1 <<< 7 := by cases op <;> decide
    obtain ⟨opcode, rfl, kind, rfl, rfl, above⟩ := (formR_iff small (by decide) minor first second third upper).mp agrees
    simp only [decode?, opcode, regOpW_iff.mpr ⟨kind, above⟩, Option.map_some]
  | fence =>
    obtain ⟨rfl, rfl, rfl, rfl⟩ := operands
    obtain ⟨opcode, kind⟩ : bits w 0 7 = 0x0f ∧ bits w 12 3 = 0 := agrees
    simp only [decode?, opcode, kind, fenceOp?, Option.map_some]
  | fenceI =>
    obtain ⟨rfl, rfl, rfl, rfl⟩ := operands
    obtain ⟨opcode, kind⟩ : bits w 0 7 = 0x0f ∧ bits w 12 3 = 1 := agrees
    simp only [decode?, opcode, kind, fenceOp?, Option.map_some]
  | csr update source =>
    obtain ⟨rfl, above, below⟩ := operands
    have minor : update.funct3 source < 1 <<< 3 := by cases update <;> cases source <;> decide
    have other : update.funct3 source ≠ 0 := by cases update <;> cases source <;> decide
    obtain ⟨opcode, rfl, kind, rfl, field⟩ := (formI_iff small (by decide) minor first second).mp agrees
    obtain rfl := (natural_complement (by decide) above below).mp field
    simp only [decode?, opcode, kind, other, if_false, csrOp_iff.mpr rfl, Option.map_some]
  | ecall | ebreak | mret | wfi =>
    obtain ⟨rfl, rfl, rfl, rfl⟩ := operands
    cases agrees
    rfl

-- Decoding a word and encoding an instruction undo one another.
theorem decode_iff (small : w >>> 32 = 0) : decode? w = some insn ↔ insn.Fits ∧ insn.Agrees w :=
  ⟨fun decoded => ⟨fits_of_decode decoded, agrees_of_decode small decoded⟩,
    fun grammar => decode_of_agrees small grammar.1 grammar.2⟩

end Long

end Instruction
end TieredHart
