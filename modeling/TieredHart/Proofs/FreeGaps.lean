import TieredHart.Proofs.ArenaTiling

namespace TieredHart

namespace Extent

variable {capacity i : Nat} {live : List Extent} {a b : Extent}

structure Vacant (capacity : Nat) (live : List Extent) (extent : Extent) : Prop where
  nonempty : 0 < extent.size
  inside : extent.stop ≤ capacity
  clear : ∀ i, extent.start ≤ i → i < extent.stop → ∀ other ∈ live, ¬ (other.start ≤ i ∧ i < other.stop)

-- Vacant places that no other vacant extent contains. Nothing is said about units or about any list of free extents.
structure Gap (capacity : Nat) (live : List Extent) (extent : Extent) : Prop extends Vacant capacity live extent where
  widest : ∀ wider, Vacant capacity live wider → wider.start ≤ extent.start → extent.stop ≤ wider.stop → wider = extent

theorem Vacant.join (one : Vacant capacity live a) (two : Vacant capacity live b) (inA : a.start ≤ i ∧ i < a.stop)
    (inB : b.start ≤ i ∧ i < b.stop) :
    ∃ wide, Vacant capacity live wide ∧ (wide.start ≤ a.start ∧ a.stop ≤ wide.stop) ∧
      (wide.start ≤ b.start ∧ b.stop ≤ wide.stop) := by
  have insideA := one.inside
  have insideB := two.inside
  let wide : Extent := ⟨min a.start b.start, max a.stop b.stop - min a.start b.start⟩
  have stop : wide.stop = max a.stop b.stop := by
    simp only [wide, Extent.stop] at *
    omega
  refine ⟨wide, ⟨?_, by omega, ?_⟩, ⟨by simp only [wide]; omega, by omega⟩, by simp only [wide]; omega, by omega⟩
  · simp only [wide]
    omega
  · intro j low high other there
    simp only [wide] at low
    by_cases left : a.start ≤ j ∧ j < a.stop
    · exact one.clear j left.1 left.2 other there
    · exact two.clear j (by omega) (by omega) other there

theorem Gap.eq_of_common (one : Gap capacity live a) (two : Gap capacity live b) (inA : a.start ≤ i ∧ i < a.stop)
    (inB : b.start ≤ i ∧ i < b.stop) : a = b := by
  obtain ⟨wide, vacant, aroundA, aroundB⟩ := one.toVacant.join two.toVacant inA inB
  exact (one.widest wide vacant aroundA.1 aroundA.2).symm.trans (two.widest wide vacant aroundB.1 aroundB.2)

theorem Vacant.whole (positive : 0 < capacity) : Vacant capacity [] ⟨0, capacity⟩ := by
  refine ⟨positive, ?_, fun _ _ _ other there => absurd there List.not_mem_nil⟩
  simp [Extent.stop]

theorem Gap.whole (positive : 0 < capacity) : Gap capacity [] ⟨0, capacity⟩ := by
  refine ⟨.whole positive, fun wider vacant before behind => ?_⟩
  have inside := vacant.inside
  cases wider
  simp only [Extent.stop, Extent.mk.injEq] at *
  omega

end Extent

namespace ExtentPool

variable {pool after : ExtentPool} {live free : List Extent} {extent x : Extent} {capacity need size i : Nat}

theorem cover_eq_zero : cover live i = 0 ↔ ∀ other ∈ live, ¬ (other.start ≤ i ∧ i < other.stop) := by
  simp [cover, List.countP_eq_zero]

theorem cover_pos : 0 < cover live i ↔ ∃ other ∈ live, other.start ≤ i ∧ i < other.stop := by
  simp [cover, List.countP_pos_iff]

structure Divided (live : List Extent) (pool : ExtentPool) : Prop where
  sound : pool.WellFormed
  whole : ∀ extent ∈ live, extent.Whole pool.capacity
  shares : ∀ i, cover pool.free i + cover live i = if i < pool.capacity then 1 else 0

namespace Divided

theorem free_there (divided : pool.Divided live) (inside : i < pool.capacity)
    (clear : ∀ other ∈ live, ¬ (other.start ≤ i ∧ i < other.stop)) :
    ∃ extent ∈ pool.free, extent.start ≤ i ∧ i < extent.stop := by
  have share := divided.shares i
  rw [if_pos inside, cover_eq_zero.mpr clear] at share
  apply cover_pos.mp
  omega

theorem free_vacant (divided : pool.Divided live) (member : extent ∈ pool.free) :
    extent.Vacant pool.capacity live := by
  have whole := divided.sound.whole extent member
  refine ⟨whole.nonempty, whole.inside, fun i low high => ?_⟩
  apply cover_eq_zero.mp
  have share := divided.shares i
  have own : 0 < cover pool.free i := cover_pos.mpr ⟨extent, member, low, high⟩
  split at share <;> omega

-- Neither neighbour of a free extent is free, so it cannot grow.
theorem free_gap (divided : pool.Divided live) (member : extent ∈ pool.free) : extent.Gap pool.capacity live := by
  have vacant := divided.free_vacant member
  refine ⟨vacant, fun wider other before behind => ?_⟩
  have inside := other.inside
  have filled := vacant.nonempty
  have start : wider.start = extent.start := by
    apply Nat.le_antisymm before
    apply Nat.le_of_not_lt
    intro larger
    have below : wider.start ≤ extent.start - 1 ∧ extent.start - 1 < wider.stop := by
      unfold Extent.stop at *
      omega
    obtain ⟨left, there, covers⟩ := divided.free_there (by omega) (other.clear _ below.1 below.2)
    rcases divided.sound.sorted.apart there member with rfl | apart
    · omega
    · unfold Extent.stop at *
      omega
  have stop : wider.stop = extent.stop := by
    apply Nat.le_antisymm _ behind
    apply Nat.le_of_not_lt
    intro larger
    have beyond : wider.start ≤ extent.stop ∧ extent.stop < wider.stop := by
      unfold Extent.stop at *
      omega
    obtain ⟨right, there, covers⟩ := divided.free_there (by omega) (other.clear _ beyond.1 beyond.2)
    rcases divided.sound.sorted.apart there member with rfl | apart
    · omega
    · unfold Extent.stop at *
      omega
  cases wider
  cases extent
  simp only [Extent.stop, Extent.mk.injEq] at *
  omega

theorem mem_free (divided : pool.Divided live) : extent ∈ pool.free ↔ extent.Gap pool.capacity live := by
  refine ⟨divided.free_gap, fun gap => ?_⟩
  have filled := gap.nonempty
  have inside := gap.inside
  have first : extent.start ≤ extent.start ∧ extent.start < extent.stop := by
    unfold Extent.stop
    omega
  obtain ⟨other, there, covers⟩ := divided.free_there (by omega) (gap.clear _ first.1 first.2)
  rwa [gap.eq_of_common (divided.free_gap there) first covers]

theorem fresh (capacity : Nat) : (ofCapacity capacity).Divided [] := by
  refine ⟨ofCapacity_wellFormed capacity, ?_, ?_⟩
  · exact fun _ there => absurd there List.not_mem_nil
  · exact cover_ofCapacity capacity

theorem taken (divided : pool.Divided live) (given : rounded size = .ok need)
    (took : pool.take need = some (extent, after)) : after.Divided (extent :: live) ∧ after.capacity = pool.capacity := by
  have units := rounded_units given
  obtain ⟨sound, same, whole, -, parts⟩ := take_wellFormed divided.sound (by omega) (by omega) took
  refine ⟨⟨sound, ?_, fun i => ?_⟩, same⟩
  · rw [same]
    exact List.forall_mem_cons.mpr ⟨whole, divided.whole⟩
  · have share := divided.shares i
    have part := parts i
    rw [same, cover_cons]
    omega

theorem returned (divided : pool.Divided live) (bounded : pool.capacity < hostLimit) (member : extent ∈ live) :
    ∃ after, pool.release extent.start extent.stop = .ok after ∧ after.Divided (live.erase extent) ∧
      after.capacity = pool.capacity := by
  have parts : ∀ i, cover live i = cover [extent] i + cover (live.erase extent) i := by
    intro i
    rw [cover_perm (List.perm_cons_erase member), cover_cons]
  have apart : ∀ i, cover pool.free i + cover [extent] i ≤ 1 := by
    intro i
    have share := divided.shares i
    have part := parts i
    split at share <;> omega
  obtain ⟨after, gave, sound, same, covers⟩ := release_ok divided.sound bounded (divided.whole extent member) apart
  refine ⟨after, gave, ⟨sound, ?_, fun i => ?_⟩, same⟩
  · rw [same]
    exact fun other there => divided.whole other (List.mem_of_mem_erase there)
  · have share := divided.shares i
    have part := parts i
    have cover := covers i
    rw [same]
    omega

theorem gap_alone (gap : extent.Gap capacity []) : extent = ⟨0, capacity⟩ := by
  have filled := gap.nonempty
  have inside := gap.inside
  have positive : 0 < capacity := by
    unfold Extent.stop at inside
    omega
  refine (gap.widest _ (.whole positive) (Nat.zero_le _) ?_).symm
  simpa [Extent.stop] using inside

theorem eq_fresh (divided : pool.Divided []) (size : pool.capacity = capacity / 16 * 16) : pool = ofCapacity capacity := by
  have alone : ∀ extent ∈ pool.free, extent = ⟨0, pool.capacity⟩ := fun extent there => gap_alone (divided.free_gap there)
  have counted := divided.sound.counted
  have free : pool.free = if pool.capacity = 0 then [] else [⟨0, pool.capacity⟩] := by
    cases held : pool.free with
    | nil =>
      split
      · rfl
      · rename_i nonzero
        obtain ⟨extent, there, -⟩ := divided.free_there (i := 0) (by omega) fun _ there => absurd there List.not_mem_nil
        rw [held] at there
        cases there
    | cons extent rest =>
      have first := alone extent (by simp [held])
      have filled := (divided.sound.whole extent (by simp [held])).nonempty
      have others : rest = [] := by
        apply List.eq_nil_iff_forall_not_mem.mpr
        intro other there
        have same := alone other (by simp [held, there])
        have sorted := divided.sound.sorted
        rw [held] at sorted
        have gap := (List.pairwise_cons.mp sorted).1 other there
        rw [same] at gap
        exact absurd gap (Nat.not_lt_zero _)
      rw [first] at filled ⊢
      have nonzero : pool.capacity ≠ 0 := Nat.ne_of_gt filled
      rw [others, if_neg nonzero]
  have bytes : total pool.free = pool.capacity := by
    rw [free]
    split
    · rename_i zero
      exact zero.symm
    · rfl
  cases pool
  simp only [ofCapacity, mk.injEq] at *
  rw [← size]
  exact ⟨rfl, free, counted.trans bytes⟩

theorem restored {order : List Extent} (divided : pool.Divided live) (size : pool.capacity = capacity / 16 * 16)
    (bounded : pool.capacity < hostLimit) (all : order.Perm live) :
    order.foldlM (fun pool extent => pool.release extent.start extent.stop) pool = .ok (ofCapacity capacity) := by
  induction order generalizing pool live with
  | nil =>
    cases List.nil_perm.mp all
    exact congrArg Except.ok (divided.eq_fresh size)
  | cons extent rest ih =>
    have member : extent ∈ live := all.mem_iff.mp (List.mem_cons_self ..)
    obtain ⟨after, gave, later, same⟩ := divided.returned bounded member
    rw [List.foldlM_cons, gave]
    exact ih later (same.trans size) (same ▸ bounded) (List.cons_perm_iff_perm_erase.mp all).2

end Divided

theorem find_lowest (sorted : Sorted free) (found : free.find? (need ≤ ·.size) = some x) (member : extent ∈ free)
    (large : need ≤ extent.size) : x.start ≤ extent.start := by
  obtain ⟨-, front, back, rfl, small⟩ := List.find?_eq_some_iff_append.mp found
  rcases List.mem_append.mp member with before | here
  · have fits := small extent before
    simp only [Bool.not_eq_eq_eq_not, Bool.not_true, decide_eq_false_iff_not] at fits
    exact absurd large fits
  · rcases List.mem_cons.mp here with rfl | behind
    · exact Nat.le_refl _
    · have gap := (List.pairwise_cons.mp (List.pairwise_append.mp sorted).2.1).1 extent behind
      unfold Extent.stop at gap
      omega

-- What an allocation of so many bytes comes to: the front of the lowest gap that is large enough, or nothing if there is
-- none.
structure Allots (capacity : Nat) (live : List Extent) (pool : ExtentPool) (need : Nat)
    (answer : Option (Extent × ExtentPool)) : Prop where
  lowest : ∀ extent after, answer = some (extent, after) → extent.size = need ∧ need ≤ pool.freeBytes ∧
    ∃ gap : Extent, gap.Gap capacity live ∧ need ≤ gap.size ∧ extent.start = gap.start ∧
      ∀ other : Extent, other.Gap capacity live → need ≤ other.size → gap.start ≤ other.start
  refused : answer = none ↔ ∀ gap : Extent, gap.Gap capacity live → gap.size < need

theorem Divided.allots (divided : pool.Divided live) (need : Nat) : Allots pool.capacity live pool need (pool.take need) := by
  cases found : pool.free.find? (need ≤ ·.size) with
  | none =>
    have small : ∀ gap : Extent, gap.Gap pool.capacity live → gap.size < need := by
      intro gap there
      have fits := List.find?_eq_none.mp found gap (divided.mem_free.mpr there)
      simpa using fits
    have nothing : pool.take need = none := by simp only [take, found]
    rw [nothing]
    exact ⟨nofun, fun _ => small, fun _ => rfl⟩
  | some hole =>
    have member := List.mem_of_find?_eq_some found
    have large : need ≤ hole.size := by simpa using List.find?_some found
    have counted := divided.sound.counted
    have parted := without_perm divided.sound.sorted (fun e there => (divided.sound.whole e there).nonempty) member
    rw [total_perm parted, total_cons] at counted
    constructor
    · intro extent after took
      simp only [take, found, Option.some.injEq, Prod.mk.injEq] at took
      obtain ⟨rfl, -⟩ := took
      refine ⟨rfl, by omega, hole, divided.free_gap member, large, rfl, ?_⟩
      exact fun other there fits => find_lowest divided.sound.sorted found (divided.mem_free.mpr there) fits
    · constructor
      · intro nothing
        simp only [take, found] at nothing
        cases nothing
      · intro small
        exact absurd (small hole (divided.free_gap member)) (Nat.not_lt.mpr large)

theorem alloc_take (given : rounded size = .ok need) (pool : ExtentPool) : pool.alloc size = .ok (pool.take need) := by
  unfold alloc
  rw [given]
  rfl

theorem canFit_take (given : rounded size = .ok need) (pool : ExtentPool) :
    pool.canFit size = .ok (pool.take need).isSome := by
  have fits : pool.free.any (need ≤ ·.size) = (pool.take need).isSome := by
    rw [← List.isSome_find?]
    unfold take
    cases pool.free.find? (need ≤ ·.size) <;> rfl
  unfold canFit
  rw [given]
  exact congrArg Except.ok fits

inductive Dealt (capacity : Nat) : ExtentPool → List Extent → Prop where
  | fresh : Dealt capacity (ofCapacity capacity) []
  | allocated {pool after : ExtentPool} {live : List Extent} {extent : Extent} {size : Nat}
      (before : Dealt capacity pool live) (took : pool.alloc size = .ok (some (extent, after))) :
      Dealt capacity after (extent :: live)
  | released {pool after : ExtentPool} {live : List Extent} {extent : Extent} (before : Dealt capacity pool live)
      (member : extent ∈ live) (gave : pool.release extent.start extent.stop = .ok after) :
      Dealt capacity after (live.erase extent)

theorem Dealt.divided (dealt : Dealt capacity pool live) (bounded : capacity < hostLimit) :
    pool.Divided live ∧ pool.capacity = capacity / 16 * 16 := by
  induction dealt with
  | fresh => exact ⟨.fresh capacity, rfl⟩
  | allocated _ took ih =>
    obtain ⟨divided, same⟩ := ih
    obtain ⟨need, given, cut⟩ := alloc_some took
    obtain ⟨later, kept⟩ := divided.taken given cut
    exact ⟨later, kept.trans same⟩
  | released _ member gave ih =>
    obtain ⟨divided, same⟩ := ih
    obtain ⟨after, returned, later, kept⟩ := divided.returned (by omega) member
    rw [gave] at returned
    cases returned
    exact ⟨later, kept.trans same⟩

-- A pool seen through what is out: its free extents are the gaps, in order and in whole units, it allots from them by
-- first fit, and it takes back whatever is out, so that with everything back it is new.
structure Refines (capacity : Nat) (live : List Extent) (pool : ExtentPool) : Prop where
  free : ∀ extent, extent ∈ pool.free ↔ extent.Gap (capacity / 16 * 16) live
  sorted : Sorted pool.free
  aligned : ∀ extent ∈ pool.free, extent.start % 16 = 0 ∧ extent.size % 16 = 0
  counted : pool.freeBytes = total pool.free
  allocates : ∀ size need, rounded size = .ok need → ∃ answer, pool.alloc size = .ok answer ∧
    pool.canFit size = .ok answer.isSome ∧ Allots (capacity / 16 * 16) live pool need answer
  releases : ∀ extent ∈ live, ∃ after, pool.release extent.start extent.stop = .ok after
  restores : ∀ order : List Extent, order.Perm live →
    order.foldlM (fun pool extent => pool.release extent.start extent.stop) pool = .ok (ofCapacity capacity)

theorem Dealt.refines_gaps (bounded : capacity < hostLimit) (dealt : Dealt capacity pool live) :
    pool.Refines capacity live := by
  obtain ⟨divided, size⟩ := dealt.divided bounded
  have small : pool.capacity < hostLimit := by omega
  refine ⟨fun extent => size ▸ divided.mem_free, divided.sound.sorted, ?_, divided.sound.counted, ?_, ?_, ?_⟩
  · intro extent there
    have whole := divided.sound.whole extent there
    exact ⟨whole.start, whole.size⟩
  · intro asked need given
    exact ⟨pool.take need, alloc_take given pool, canFit_take given pool, size ▸ divided.allots need⟩
  · intro extent there
    obtain ⟨after, gave, -⟩ := divided.returned small there
    exact ⟨after, gave⟩
  · exact fun order all => divided.restored size small all

theorem threeCuts_refines : ∃ pool live, 100 < hostLimit ∧ Dealt 100 pool live ∧
    pool.free = [⟨32, 16⟩, ⟨64, 32⟩] ∧ live = [⟨48, 16⟩, ⟨0, 32⟩] ∧ pool.Refines 100 live := by
  have first : (ofCapacity 100).alloc 20 = .ok (some (⟨0, 32⟩, ⟨96, [⟨32, 64⟩], 64⟩)) := rfl
  have second : alloc ⟨96, [⟨32, 64⟩], 64⟩ 1 = .ok (some (⟨32, 16⟩, ⟨96, [⟨48, 48⟩], 48⟩)) := rfl
  have third : alloc ⟨96, [⟨48, 48⟩], 48⟩ 16 = .ok (some (⟨48, 16⟩, ⟨96, [⟨64, 32⟩], 32⟩)) := rfl
  have middle : release ⟨96, [⟨64, 32⟩], 32⟩ 32 48 = .ok ⟨96, [⟨32, 16⟩, ⟨64, 32⟩], 48⟩ := rfl
  have three : Dealt 100 ⟨96, [⟨64, 32⟩], 32⟩ [⟨48, 16⟩, ⟨32, 16⟩, ⟨0, 32⟩] :=
    .allocated (.allocated (.allocated .fresh first) second) third
  have member : ⟨32, 16⟩ ∈ ([⟨48, 16⟩, ⟨32, 16⟩, ⟨0, 32⟩] : List Extent) := by decide
  have dealt : Dealt 100 ⟨96, [⟨32, 16⟩, ⟨64, 32⟩], 48⟩ [⟨48, 16⟩, ⟨0, 32⟩] := .released three member middle
  exact ⟨_, _, by decide, dealt, rfl, rfl, dealt.refines_gaps (by decide)⟩

end ExtentPool
end TieredHart
