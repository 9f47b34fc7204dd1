import TieredHart.Instruction.Decode
import TieredHart.Proofs.Records

namespace TieredHart.Instruction

theorem bits_lt (w low width : Nat) : bits w low width < 1 <<< width := by
  unfold bits
  rw [Nat.one_shiftLeft]
  exact Nat.mod_lt _ (Nat.two_pow_pos width)

theorem shift_double {width : Nat} (wide : 0 < width) : 1 <<< width = 2 * 1 <<< (width - 1) := by
  rw [Nat.one_shiftLeft, Nat.one_shiftLeft, ← Nat.pow_succ', Nat.succ_eq_add_one, Nat.sub_add_cancel wide]

theorem signed_bounds {width n : Nat} (wide : 0 < width) (fits : n < 1 <<< width) :
    -((1 <<< (width - 1) : Nat) : Int) ≤ signed width n ∧ signed width n < (1 <<< (width - 1) : Nat) := by
  have double := shift_double wide
  unfold signed
  generalize 1 <<< width = whole at *
  generalize 1 <<< (width - 1) = half at *
  split <;> omega

-- Fields side by side, the lowest first. Each keeps as many bits of its value as it is wide.
def pack : List (Nat × Nat) → Nat
  | [] => 0
  | (width, value) :: rest => value % 1 <<< width + pack rest <<< width

def complement (imm : Int) : Nat := (imm % 0x100000000).toNat

theorem bits_mod (n low width : Nat) : bits n low width % 1 <<< width = bits n low width :=
  Nat.mod_eq_of_lt (bits_lt n low width)

theorem shiftRight_mod (n low width : Nat) : n >>> low % 1 <<< width = bits n low width := rfl

theorem bits_shiftRight (n shift low width : Nat) : bits (n >>> shift) low width = bits n (shift + low) width := by
  unfold bits
  rw [Nat.shiftRight_add]

theorem pack_cons_eq {n width value : Nat} {rest : List (Nat × Nat)} :
    pack ((width, value) :: rest) = n ↔ value % 1 <<< width = bits n 0 width ∧ pack rest = n >>> width := by
  have small : value % 2 ^ width < 2 ^ width := Nat.mod_lt _ (Nat.two_pow_pos width)
  rw [pack, bits, Nat.shiftRight_zero, Nat.one_shiftLeft, Nat.shiftLeft_eq, Nat.shiftRight_eq_div_pow]
  constructor
  · rintro rfl
    rw [Nat.add_mul_mod_self_right, Nat.mod_mod, Nat.add_mul_div_right _ _ (Nat.two_pow_pos width),
      Nat.div_eq_of_lt small, Nat.zero_add]
    exact ⟨rfl, rfl⟩
  · rintro ⟨low, high⟩
    rw [low, high, Nat.mul_comm, Nat.mod_add_div]

theorem pack_nil_eq {n : Nat} : pack [] = n ↔ n = 0 := eq_comm

theorem pack_lt (fields : List (Nat × Nat)) : pack fields < 1 <<< fields.foldr (fun field above => field.1 + above) 0 := by
  induction fields with
  | nil => exact Nat.one_pos
  | cons field rest ih =>
    rw [List.foldr_cons, Nat.one_shiftLeft, Nat.pow_add, pack, Nat.one_shiftLeft, Nat.shiftLeft_eq]
    rw [Nat.one_shiftLeft] at ih
    have low : field.2 % 2 ^ field.1 < 2 ^ field.1 := Nat.mod_lt _ (Nat.two_pow_pos field.1)
    have high := Nat.mul_le_mul_right (2 ^ field.1) (Nat.succ_le_of_lt ih)
    rw [Nat.succ_mul, Nat.mul_comm (2 ^ List.foldr _ _ _)] at high
    omega

theorem bits_bits (n : Nat) {low count width : Nat} (inside : low + count ≤ width) :
    bits (bits n 0 width) low count = bits n low count := by
  obtain ⟨more, rfl⟩ := Nat.exists_eq_add_of_le inside
  unfold bits
  rw [Nat.shiftRight_zero, Nat.shiftRight_eq_div_pow, Nat.shiftRight_eq_div_pow, Nat.one_shiftLeft, Nat.one_shiftLeft,
    Nat.add_assoc, Nat.pow_add 2 low, Nat.mod_mul_right_div_self]
  exact Nat.mod_mod_of_dvd _ (Nat.pow_dvd_pow 2 (Nat.le_add_right count more))

theorem bits_complement (imm : Int) {width : Nat} (narrow : width ≤ 32) :
    (bits (complement imm) 0 width : Int) = imm % (1 <<< width : Nat) := by
  obtain ⟨more, whole⟩ := Nat.exists_eq_add_of_le narrow
  have power : 1 <<< width * 1 <<< more = 0x100000000 := by
    rw [Nat.one_shiftLeft, Nat.one_shiftLeft, ← Nat.pow_add, ← whole]
  have divides : ((1 <<< width : Nat) : Int) ∣ 0x100000000 := ⟨(1 <<< more : Nat), by rw [← Int.natCast_mul, power]; rfl⟩
  unfold bits complement
  rw [Nat.shiftRight_zero, Int.natCast_emod, Int.toNat_of_nonneg (Int.emod_nonneg _ (by decide)),
    Int.emod_emod_of_dvd imm divides]

theorem complement_low {imm : Int} {width : Nat} (narrow : width ≤ 32) (multiple : imm % (1 <<< width : Nat) = 0) :
    bits (complement imm) 0 width = 0 := by
  have field := bits_complement imm narrow
  omega

theorem natural_complement {imm : Int} {width n : Nat} (narrow : width ≤ 32) (positive : 0 ≤ imm)
    (below : imm < (1 <<< width : Nat)) : n = bits (complement imm) 0 width ↔ (n : Int) = imm := by
  have value := bits_complement imm narrow
  rw [Int.emod_eq_of_lt positive below] at value
  omega

theorem signed_complement {imm : Int} {width n : Nat} (narrow : width ≤ 32) (wide : 0 < width) (fits : n < 1 <<< width)
    (above : -((1 <<< (width - 1) : Nat) : Int) ≤ imm) (below : imm < (1 <<< (width - 1) : Nat)) :
    n = bits (complement imm) 0 width ↔ signed width n = imm := by
  have value := bits_complement imm narrow
  have double := shift_double wide
  unfold signed
  generalize bits (complement imm) 0 width = field at *
  generalize 1 <<< width = whole at *
  generalize 1 <<< (width - 1) = half at *
  rcases Int.lt_or_le imm 0 with negative | positive
  · rw [← Int.add_emod_right, Int.emod_eq_of_lt (by omega) (by omega)] at value
    split <;> omega
  · rw [Int.emod_eq_of_lt positive (by omega)] at value
    split <;> omega

-- A number that stands in an encoding piece by piece, the lowest first, above some zeros: each piece has a place and a
-- width.
def gather (w skip : Nat) (pieces : List (Nat × Nat)) : Nat :=
  pack ((skip, 0) :: pieces.map fun piece => (piece.2, bits w piece.1 piece.2))

def Scattered (w n : Nat) : Nat → List (Nat × Nat) → Prop
  | _, [] => True
  | low, (place, width) :: rest => bits w place width = bits n low width ∧ Scattered w n (low + width) rest

def span (pieces : List (Nat × Nat)) : Nat := pieces.foldr (fun piece above => piece.2 + above) 0

-- By induction on the pieces: what is left of the number after the first is shifted down by its width.
theorem pack_eq_iff_scattered {w n width : Nat} (pieces : List (Nat × Nat)) (low : Nat) (whole : low + span pieces = width) :
    pack (pieces.map fun piece => (piece.2, bits w piece.1 piece.2)) = bits n 0 width >>> low ↔
      Scattered w n low pieces := by
  induction pieces generalizing low with
  | nil =>
    have low_eq : low = width := whole
    have gone : bits n 0 width >>> width = 0 :=
      Nat.shiftRight_eq_zero _ width (Nat.one_shiftLeft width ▸ bits_lt n 0 width)
    simp only [List.map_nil, Scattered, low_eq, gone, pack]
  | cons piece rest ih =>
    have split : low + (piece.2 + span rest) = width := whole
    rw [List.map_cons, pack_cons_eq, bits_mod, bits_shiftRight, Nat.add_zero, bits_bits n (by omega),
      ← Nat.shiftRight_add, ih (low + piece.2) (by omega), Scattered]

theorem gather_eq_iff {w width skip : Nat} {imm : Int} {pieces : List (Nat × Nat)} (narrow : width ≤ 32)
    (whole : skip + span pieces = width) (multiple : imm % (1 <<< skip : Nat) = 0) :
    gather w skip pieces = bits (complement imm) 0 width ↔ Scattered w (complement imm) skip pieces := by
  have low : bits (complement imm) 0 skip = 0 := complement_low (by omega) multiple
  rw [gather, pack_cons_eq, bits_bits _ (by omega), low, Nat.zero_mod, pack_eq_iff_scattered pieces skip whole]
  exact and_iff_right rfl

theorem span_gather (w skip : Nat) (pieces : List (Nat × Nat)) : gather w skip pieces < 1 <<< (skip + span pieces) := by
  have bound := pack_lt ((skip, 0) :: pieces.map fun piece => (piece.2, bits w piece.1 piece.2))
  rwa [List.foldr_cons, List.foldr_map] at bound

-- How an immediate stands in an encoding: some zeros below it, its pieces, and a top bit that may be its sign.
structure Layout where
  skip : Nat
  pieces : List (Nat × Nat)
  isSigned : Bool

namespace Layout

variable {layout : Layout} {imm : Int} {w : Nat}

def width (layout : Layout) : Nat := layout.skip + span layout.pieces

def read (layout : Layout) (w : Nat) : Int :=
  if layout.isSigned then signed layout.width (gather w layout.skip layout.pieces)
  else (gather w layout.skip layout.pieces : Nat)

def low (layout : Layout) : Int := if layout.isSigned then -((1 <<< (layout.width - 1) : Nat) : Int) else 0

def high (layout : Layout) : Int := (if layout.isSigned then 1 <<< (layout.width - 1) else 1 <<< layout.width : Nat)

def Fits (layout : Layout) (imm : Int) : Prop :=
  imm % (1 <<< layout.skip : Nat) = 0 ∧ layout.low ≤ imm ∧ imm < layout.high

theorem read_eq_iff (wide : 0 < layout.width) (narrow : layout.width ≤ 32) (fits : layout.Fits imm) :
    layout.read w = imm ↔ Scattered w (complement imm) layout.skip layout.pieces := by
  obtain ⟨multiple, above, below⟩ := fits
  have room : gather w layout.skip layout.pieces < 1 <<< layout.width := span_gather w layout.skip layout.pieces
  have places := gather_eq_iff (w := w) narrow rfl multiple
  unfold read
  unfold low at above
  unfold high at below
  split
  · rename_i isSigned
    rw [if_pos isSigned] at above below
    rw [← signed_complement narrow wide room above below, places]
  · rename_i plain
    rw [if_neg plain] at above below
    rw [← natural_complement narrow above below, places]

theorem gather_multiple (w skip : Nat) (pieces : List (Nat × Nat)) : 1 <<< skip ∣ gather w skip pieces := by
  have low := (pack_cons_eq.mp (rfl : gather w skip pieces = _)).1
  rw [Nat.zero_mod, bits, Nat.shiftRight_zero] at low
  exact Nat.dvd_of_mod_eq_zero low.symm

theorem signed_multiple {width n step : Nat} (whole : step ∣ 1 <<< width) (multiple : step ∣ n) :
    (step : Int) ∣ signed width n := by
  unfold signed
  split
  · exact Int.natCast_dvd_natCast.mpr multiple
  · exact Int.dvd_sub (Int.natCast_dvd_natCast.mpr multiple) (Int.natCast_dvd_natCast.mpr whole)

theorem read_fits (wide : 0 < layout.width) : layout.Fits (layout.read w) := by
  have room : gather w layout.skip layout.pieces < 1 <<< layout.width := span_gather w layout.skip layout.pieces
  have multiple := gather_multiple w layout.skip layout.pieces
  have whole : 1 <<< layout.skip ∣ 1 <<< layout.width := by
    rw [Nat.one_shiftLeft, Nat.one_shiftLeft]
    exact Nat.pow_dvd_pow 2 (Nat.le_add_right _ _)
  unfold Fits read low high
  split
  · exact ⟨Int.emod_eq_zero_of_dvd (signed_multiple whole multiple), signed_bounds wide room⟩
  · exact ⟨Int.emod_eq_zero_of_dvd (Int.natCast_dvd_natCast.mpr multiple), Int.natCast_nonneg _, Int.ofNat_lt.mpr room⟩

end Layout

-- The immediates of long and of short instructions. A short upper immediate has the six bits above the page.
inductive Immediate where
  | immI | immS | immB | immU | immJ
  | imm6 | page | amount | stackAddress | stackAdjust | jump | branch
  | word | double | loadWordStack | loadDoubleStack | storeWordStack | storeDoubleStack

namespace Immediate

def value (w : Nat) : Immediate → Int
  | immI => Long.immI w
  | immS => Long.immS w
  | immB => Long.immB w
  | immU => Long.immU w
  | immJ => Long.immJ w
  | imm6 => Short.imm6 w
  | page => Short.imm6 w * 4096
  | amount => Short.amount w
  | stackAddress => Short.immStackAddress w
  | stackAdjust => Short.immStackAdjust w
  | jump => Short.immJump w
  | branch => Short.immBranch w
  | word => Short.offsetWord w
  | double => Short.offsetDouble w
  | loadWordStack => Short.offsetLoadWordStack w
  | loadDoubleStack => Short.offsetLoadDoubleStack w
  | storeWordStack => Short.offsetStoreWordStack w
  | storeDoubleStack => Short.offsetStoreDoubleStack w

def layout : Immediate → Layout
  | immI => ⟨0, [(20, 12)], true⟩
  | immS => ⟨0, [(7, 5), (25, 7)], true⟩
  | immB => ⟨1, [(8, 4), (25, 6), (7, 1), (31, 1)], true⟩
  | immU => ⟨12, [(12, 20)], true⟩
  | immJ => ⟨1, [(21, 10), (20, 1), (12, 8), (31, 1)], true⟩
  | imm6 => ⟨0, [(2, 5), (12, 1)], true⟩
  | page => ⟨12, [(2, 5), (12, 1)], true⟩
  | amount => ⟨0, [(2, 5), (12, 1)], false⟩
  | stackAddress => ⟨2, [(6, 1), (5, 1), (11, 2), (7, 4)], false⟩
  | stackAdjust => ⟨4, [(6, 1), (2, 1), (5, 1), (3, 2), (12, 1)], true⟩
  | jump => ⟨1, [(3, 3), (11, 1), (2, 1), (7, 1), (6, 1), (9, 2), (8, 1), (12, 1)], true⟩
  | branch => ⟨1, [(3, 2), (10, 2), (2, 1), (5, 2), (12, 1)], true⟩
  | word => ⟨2, [(6, 1), (10, 3), (5, 1)], false⟩
  | double => ⟨3, [(10, 3), (5, 2)], false⟩
  | loadWordStack => ⟨2, [(4, 3), (12, 1), (2, 2)], false⟩
  | loadDoubleStack => ⟨3, [(5, 2), (12, 1), (2, 3)], false⟩
  | storeWordStack => ⟨2, [(9, 4), (7, 2)], false⟩
  | storeDoubleStack => ⟨3, [(10, 3), (7, 3)], false⟩

variable {field : Immediate} {imm : Int} {w : Nat}

theorem value_eq (field : Immediate) (w : Nat) : field.value w = field.layout.read w := by
  cases field <;> simp only [value, layout, Layout.read, Layout.width, span, gather, List.foldr, List.map, pack, bits_mod,
    Nat.zero_mod, Nat.reduceAdd, if_true, Bool.false_eq_true, if_false]
  case page =>
    have five := bits_lt w 2 5
    have one := bits_lt w 12 1
    unfold Short.imm6 signed
    generalize bits w 2 5 = low at *
    generalize bits w 12 1 = high at *
    omega
  case amount | stackAddress | word | double | loadWordStack | loadDoubleStack | storeWordStack | storeDoubleStack =>
    refine congrArg Int.ofNat ?_
    omega
  all_goals
    refine congrArg (signed _) ?_
    omega

theorem layout_width (field : Immediate) : 0 < field.layout.width ∧ field.layout.width ≤ 32 := by
  cases field <;> decide

theorem value_eq_iff (fits : field.layout.Fits imm) :
    field.value w = imm ↔ Scattered w (complement imm) field.layout.skip field.layout.pieces := by
  rw [value_eq]
  exact Layout.read_eq_iff field.layout_width.1 field.layout_width.2 fits

theorem value_fits (field : Immediate) (w : Nat) : field.layout.Fits (field.value w) := by
  rw [value_eq]
  exact Layout.read_fits field.layout_width.1

end Immediate

end TieredHart.Instruction
