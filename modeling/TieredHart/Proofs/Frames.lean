import TieredHart.FrameTable
import TieredHart.Proofs.Memory

namespace TieredHart

theorem Frame.heatAt_setHeat {frame : Frame} {slot other count : Nat} :
    (frame.setHeat slot count).heatAt other = if other = slot then count else frame.heatAt other := by
  unfold setHeat heatAt
  rw [List.find?_cons]
  by_cases here : other = slot
  · simp [here]
  · have kept : (frame.heat.filter (·.1 ≠ slot)).find? (·.1 = other) = frame.heat.find? (·.1 = other) := by
      rw [List.find?_filter]
      congr
      funext entry
      by_cases found : entry.1 = other
      · simp [found, here]
      · simp [found]
    rw [kept]
    simp [here, Ne.symm here]

namespace FrameTable

variable {table : FrameTable} {change : Frame → Frame} {f g pa : Nat}

@[simp] theorem modify_base : (table.modify f change).base = table.base := by unfold modify; split <;> rfl

@[simp] theorem modify_count : (table.modify f change).frames.size = table.frames.size := by
  unfold modify; split <;> simp

theorem covers_iff : table.covers f = true ↔ table.base ≤ f ∧ f - table.base < table.frames.size := by
  unfold covers frame?
  split
  · rename_i low; simp [low]
  · rename_i low; simp [low]

@[simp] theorem covers_modify : (table.modify f change).covers g = table.covers g := by
  rw [Bool.eq_iff_iff, covers_iff, covers_iff, modify_base, modify_count]

theorem get_modify : (table.modify f change).get g =
    if g = f ∧ table.covers f = true then change (table.get g) else table.get g := by
  by_cases tracked : g = f ∧ table.covers f = true
  · obtain ⟨rfl, covered⟩ := tracked
    obtain ⟨low, high⟩ := covers_iff.mp covered
    simp [covered, get, frame?, modify, low, Array.getElem?_modify, Array.getElem?_eq_getElem high]
  · rw [if_neg tracked]
    unfold get frame? modify
    split
    · by_cases same : f - table.base = g - table.base
      · by_cases above : table.base ≤ g
        · have outside : table.frames.size ≤ g - table.base := by
            have equal : g = f := by omega
            exact Nat.le_of_not_lt fun inside => tracked ⟨equal, covers_iff.mpr ⟨by omega, by omega⟩⟩
          simp [above, Array.getElem?_modify, same, Array.getElem?_eq_none outside]
        · simp [above]
      · simp [Array.getElem?_modify, same]
    · rfl

theorem version_modify (keeps : ∀ frame, (change frame).version = frame.version) :
    (table.modify f change).version g = table.version g := by
  unfold version
  rw [get_modify]
  split <;> simp [keeps]

theorem entries_modify (keeps : ∀ frame, (change frame).entries = frame.entries) :
    (table.modify f change).entries g = table.entries g := by
  unfold entries
  rw [get_modify]
  split <;> simp [keeps]

@[simp] theorem version_register : (table.register pa f).version g = table.version g := version_modify fun _ => rfl

@[simp] theorem version_unregister : (table.unregister pa f).version g = table.version g :=
  version_modify fun _ => rfl

@[simp] theorem version_clearEntries : (table.clearEntries f).version g = table.version g :=
  version_modify fun _ => rfl

@[simp] theorem version_setState {state : FrameState} : (table.setState f state).version g = table.version g :=
  version_modify fun _ => rfl

@[simp] theorem version_cool : (table.cool f).version g = table.version g := version_modify fun _ => rfl

@[simp] theorem version_warm : (table.warm pa).version g = table.version g := version_modify fun _ => rfl

theorem version_bump :
    (table.bump f).version g = if g = f ∧ table.covers f = true then table.version g + 1 else table.version g := by
  unfold version bump
  rw [get_modify]
  split <;> rfl

@[simp] theorem entries_bump : (table.bump f).entries g = table.entries g := entries_modify fun _ => rfl

@[simp] theorem entries_setState {state : FrameState} : (table.setState f state).entries g = table.entries g :=
  entries_modify fun _ => rfl

@[simp] theorem entries_cool : (table.cool f).entries g = table.entries g := entries_modify fun _ => rfl

@[simp] theorem entries_warm : (table.warm pa).entries g = table.entries g := entries_modify fun _ => rfl

theorem entries_register : (table.register pa f).entries g =
    if g = f ∧ table.covers f = true then table.entries g ++ [pa] else table.entries g := by
  unfold entries register
  rw [get_modify]
  split <;> rfl

theorem entries_unregister : (table.unregister pa f).entries g =
    if g = f ∧ table.covers f = true then (table.entries g).filter (· ≠ pa) else table.entries g := by
  unfold entries unregister
  rw [get_modify]
  split <;> rfl

theorem entries_clearEntries : (table.clearEntries f).entries g =
    if g = f ∧ table.covers f = true then [] else table.entries g := by
  unfold entries clearEntries
  rw [get_modify]
  split <;> rfl

theorem state_modify (keeps : ∀ frame, (change frame).state = frame.state) :
    (table.modify f change).state g = table.state g := by
  unfold state
  rw [get_modify]
  split <;> simp [keeps]

theorem heat_modify (keeps : ∀ frame, (change frame).heat = frame.heat) :
    (table.modify f change).heat pa = table.heat pa := by
  unfold heat
  rw [get_modify]
  split <;> simp [keeps, Frame.heatAt]

@[simp] theorem state_cool : (table.cool f).state g = table.state g := state_modify fun _ => rfl

@[simp] theorem state_warm : (table.warm pa).state g = table.state g := state_modify fun _ => rfl

@[simp] theorem heat_setState {state : FrameState} : (table.setState f state).heat pa = table.heat pa :=
  heat_modify fun _ => rfl

theorem state_setState {state : FrameState} : (table.setState f state).state g =
    if g = f ∧ table.covers f = true then state else table.state g := by
  unfold setState FrameTable.state
  rw [get_modify]
  split <;> rfl

theorem get_untracked (untracked : table.covers f = false) : table.get f = .fresh := by
  unfold covers at untracked
  unfold get
  rw [Option.isSome_eq_false_iff.mp untracked |> Option.isNone_iff_eq_none.mp]
  rfl

theorem covers_of_state (hit : table.state f = .smcDetected) : table.covers f = true := by
  cases tracked : table.covers f with
  | true => rfl
  | false =>
    unfold state at hit
    rw [get_untracked tracked] at hit
    cases hit

theorem heat_cool : (table.cool f).heat pa = if Page.frame pa = f then 0 else table.heat pa := by
  unfold cool heat
  rw [get_modify]
  by_cases here : Page.frame pa = f
  · subst here
    cases tracked : table.covers (Page.frame pa) with
    | true => simp [Frame.heatAt]
    | false => simp [get_untracked tracked, Frame.heatAt, Frame.fresh]
  · rw [if_neg here, if_neg fun both => here both.1]

theorem heat_warm {addr : Nat} : (table.warm pa).heat addr =
    if addr / 2 = pa / 2 ∧ table.covers (Page.frame pa) = true then min (table.heat addr + 1) heatLimit
    else table.heat addr := by
  have halves : addr / 2 = pa / 2 ↔ Page.frame addr = Page.frame pa ∧ heatSlot addr = heatSlot pa := by
    unfold Page.frame heatSlot Page.offset
    omega
  unfold warm heat
  rw [get_modify]
  by_cases near : Page.frame addr = Page.frame pa ∧ table.covers (Page.frame pa) = true
  · rw [if_pos near, near.1]
    by_cases same : heatSlot addr = heatSlot pa
    · rw [if_pos ⟨halves.mpr ⟨near.1, same⟩, near.2⟩, Frame.heatAt_setHeat, if_pos same, same]
    · rw [if_neg fun both => same (halves.mp both.1).2, Frame.heatAt_setHeat, if_neg same]
  · rw [if_neg near, if_neg fun both => near ⟨(halves.mp both.1).1, both.2⟩]

end FrameTable
end TieredHart
