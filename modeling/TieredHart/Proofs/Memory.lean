import TieredHart.Ram

namespace TieredHart

namespace Bytes

theorem overwrite_outside (bytes : Array UInt8) (start : Nat) (data : List UInt8) (i : Nat)
    (outside : i < start ∨ start + data.length ≤ i) : (overwrite bytes start data)[i]? = bytes[i]? := by
  induction data generalizing bytes start with
  | nil => rfl
  | cons b rest ih =>
    simp only [List.length_cons] at outside
    rw [overwrite, ih _ _ (by omega), Array.getElem?_setIfInBounds_ne (by omega)]

theorem overwrite_inside (bytes : Array UInt8) (start : Nat) (data : List UInt8) (i : Nat) (low : start ≤ i)
    (high : i < start + data.length) (fits : i < bytes.size) :
    (overwrite bytes start data)[i]? = data[i - start]? := by
  induction data generalizing bytes start with
  | nil => simp at high; omega
  | cons b rest ih =>
    simp only [List.length_cons] at high
    by_cases first : i = start
    · subst first
      rw [overwrite, overwrite_outside _ _ _ _ (.inl (by omega))]
      simp [fits]
    · have later : i - start = i - (start + 1) + 1 := by omega
      rw [overwrite, ih _ _ (by omega) (by omega) (by simpa using fits), later]
      simp

@[simp] theorem ofNat_length (count n : Nat) : (ofNat count n).length = count := by
  induction count generalizing n with
  | zero => rfl
  | succ count ih => exact congrArg Nat.succ (ih (n / 256))

end Bytes

namespace Ram

variable {ram after : Ram} {pa len : Nat} {bytes data : List UInt8} {error : OutOfRange}

def Holds (ram : Ram) (pa len : Nat) : Prop := ram.base ≤ pa ∧ pa + len ≤ ram.base + ram.size

instance : Decidable (ram.Holds pa len) := inferInstanceAs (Decidable (_ ∧ _))

def Fits (ram : Ram) : Prop := ram.base + ram.size < hostLimit

theorem contains_inside (inside : ram.contains pa len = .ok true) : ram.Fits ∧ ram.Holds pa len := by
  unfold contains at inside
  split at inside
  · rename_i range
    unfold checkedAdd at inside
    split at inside
    · rename_i fits
      have within : pa + len ≤ ram.base + ram.size := by
        simpa [bind, Except.bind, pure, Except.pure] using inside
      exact ⟨fits, range.1, within⟩
    · cases inside
  · cases inside

theorem contains_fits (fits : ram.Fits) : ram.contains pa len = .ok (decide (ram.Holds pa len)) := by
  unfold contains checkedAdd
  unfold Fits at fits
  split
  · rename_i range
    simp [bind, Except.bind, pure, Except.pure, Holds, range.1]
  · rename_i range
    have outside : ¬ ram.Holds pa len := by unfold Holds; omega
    simp [pure, Except.pure, outside]

theorem read_ok (got : ram.read pa len = .ok (.ok bytes)) :
    ram.Fits ∧ ram.Holds pa len ∧ bytes = ram.readBytes pa len := by
  unfold read at got
  cases asked : ram.contains pa len with
  | error e => rw [asked] at got; cases got
  | ok inside =>
    rw [asked] at got
    cases inside with
    | false => cases got
    | true =>
      obtain ⟨fits, holds⟩ := contains_inside asked
      cases got
      exact ⟨fits, holds, rfl⟩

theorem read_fits (fits : ram.Fits) :
    ram.read pa len = .ok (if ram.Holds pa len then .ok (ram.readBytes pa len) else .error ⟨pa, len⟩) := by
  unfold read
  rw [contains_fits fits]
  by_cases holds : ram.Holds pa len <;> simp [holds, bind, Except.bind, pure, Except.pure]

theorem read_error {e : Failure} (failed : ram.read pa len = .error e) : ¬ ram.Fits := by
  intro fits
  rw [read_fits fits] at failed
  cases failed

theorem write_ok (got : ram.write pa data = .ok (.ok after)) :
    ram.Fits ∧ ram.Holds pa data.length ∧ after = ram.writeBytes pa data := by
  unfold write at got
  cases asked : ram.contains pa data.length with
  | error e => rw [asked] at got; cases got
  | ok inside =>
    rw [asked] at got
    cases inside with
    | false => cases got
    | true =>
      obtain ⟨fits, holds⟩ := contains_inside asked
      cases got
      exact ⟨fits, holds, rfl⟩

theorem write_error {e : Failure} (failed : ram.write pa data = .error e) : ¬ ram.Fits := by
  intro fits
  unfold write at failed
  rw [contains_fits fits] at failed
  by_cases holds : ram.Holds pa data.length <;> simp [holds, bind, Except.bind, pure, Except.pure] at failed

@[simp] theorem writeBytes_size : (ram.writeBytes pa data).size = ram.size := by simp [writeBytes, size]

theorem writeBytes_outside {addr : Nat} (holds : ram.Holds pa data.length) (inside : ram.base ≤ addr)
    (outside : addr < pa ∨ pa + data.length ≤ addr) : (ram.writeBytes pa data).byte addr = ram.byte addr := by
  have apart : addr - ram.base < pa - ram.base ∨ pa - ram.base + data.length ≤ addr - ram.base := by
    unfold Holds at holds
    omega
  simp only [byte, writeBytes, Array.getD_eq_getD_getElem?, Bytes.overwrite_outside _ _ _ _ apart]

@[simp] theorem readBytes_length : (ram.readBytes pa len).length = len := by simp [readBytes]

theorem readBytes_add (pa m n : Nat) : ram.readBytes pa (m + n) = ram.readBytes pa m ++ ram.readBytes (pa + m) n := by
  simp only [readBytes, List.range_add, List.map_append, List.map_map]
  congr 1
  apply List.map_congr_left
  intro i _
  simp [Nat.add_assoc]

theorem readBytes_congr {other : Ram} (same : ∀ i < len, other.byte (pa + i) = ram.byte (pa + i)) :
    other.readBytes pa len = ram.readBytes pa len :=
  List.map_congr_left fun i low => same i (List.mem_range.mp low)

theorem readBytes_take {n : Nat} (within : n ≤ len) : (ram.readBytes pa len).take n = ram.readBytes pa n := by
  obtain ⟨rest, rfl⟩ := Nat.exists_eq_add_of_le within
  rw [readBytes_add, List.take_left' readBytes_length]

theorem readBytes_slice {i n : Nat} (within : i + n ≤ len) :
    ((ram.readBytes pa len).drop i).take n = ram.readBytes (pa + i) n := by
  have parts : len = i + (n + (len - i - n)) := by omega
  rw [parts, readBytes_add, readBytes_add, List.drop_left' readBytes_length, List.take_left' readBytes_length]

end Ram
end TieredHart
