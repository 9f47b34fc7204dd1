import TieredHart.Extent

namespace TieredHart

structure Extent.Whole (capacity : Nat) (extent : Extent) : Prop where
  start : extent.start % 16 = 0
  size : extent.size % 16 = 0
  nonempty : 0 < extent.size
  inside : extent.stop ≤ capacity

namespace ExtentPool

variable {pool after : ExtentPool} {free other : List Extent} {extent hole x : Extent} {capacity need i : Nat}

-- How many extents of a list cover a place. Allocating and giving back only move places from one list to another, so
-- what matters about overlaps is arithmetic on this count.
def cover (extents : List Extent) (i : Nat) : Nat := extents.countP fun e => e.start ≤ i ∧ i < e.stop

theorem cover_cons (extent : Extent) (free : List Extent) : cover (extent :: free) i = cover [extent] i + cover free i := by
  simp only [cover, List.countP_cons, List.countP_nil]
  omega

@[simp] theorem cover_append : cover (free ++ other) i = cover free i + cover other i := List.countP_append ..

theorem cover_perm (same : free.Perm other) : cover free i = cover other i := same.countP_eq _

theorem cover_single_eq : cover [extent] i = if extent.start ≤ i ∧ i < extent.stop then 1 else 0 := by
  simp [cover, List.countP_cons]

theorem cover_mem (member : extent ∈ free) : cover [extent] i ≤ cover free i := by
  obtain ⟨front, back, rfl⟩ := List.append_of_mem member
  rw [cover_append, cover_cons _ back]
  omega

theorem apart_of_cover (single : ∀ i, cover [x] i + cover [extent] i ≤ 1) (left : 0 < x.size)
    (right : 0 < extent.size) : x.stop ≤ extent.start ∨ extent.stop ≤ x.start := by
  have here := single (max x.start extent.start)
  rw [cover_single_eq, cover_single_eq] at here
  unfold Extent.stop at here ⊢
  split at here <;> split at here <;> omega

def total : List Extent → Nat
  | [] => 0
  | extent :: free => extent.size + total free

def Sorted (free : List Extent) : Prop := free.Pairwise fun a b => a.stop < b.start

structure WellFormed (pool : ExtentPool) : Prop where
  sorted : Sorted pool.free
  whole : ∀ extent ∈ pool.free, extent.Whole pool.capacity
  counted : pool.freeBytes = total pool.free

theorem ofCapacity_wellFormed (capacity : Nat) : (ofCapacity capacity).WellFormed := by
  unfold ofCapacity
  by_cases none : capacity / 16 * 16 = 0
  · exact ⟨by simp [Sorted, none], by simp [none], by simp [total, none]⟩
  · refine ⟨by simp [Sorted, none], ?_, by simp [total, none]⟩
    intro extent member
    simp only [none, if_false, List.mem_singleton] at member
    subst member
    exact ⟨rfl, by simp, by simpa using Nat.pos_of_ne_zero none, by simp [Extent.stop]⟩

@[simp] theorem total_cons : total (extent :: free) = extent.size + total free := rfl

theorem total_perm (same : free.Perm other) : total free = total other := by
  induction same with
  | nil => rfl
  | cons extent _ rest => rw [total_cons, total_cons, rest]
  | swap a b _ => simp only [total_cons, Nat.add_left_comm]
  | trans _ _ first second => exact first.trans second

theorem total_le (sorted : Sorted free) (low : Nat) (inside : ∀ e ∈ free, low ≤ e.start ∧ e.stop ≤ capacity) :
    total free ≤ capacity - low := by
  induction free generalizing low with
  | nil => simp [total]
  | cons e rest ih =>
    obtain ⟨gap, sorted⟩ := List.pairwise_cons.mp sorted
    have here := inside e (by simp)
    have later := ih sorted e.stop fun x member => ⟨Nat.le_of_lt (gap x member), (inside x (by simp [member])).2⟩
    unfold Extent.stop at here later
    rw [total_cons]
    omega

theorem without_perm (sorted : Sorted free) (sized : ∀ e ∈ free, 0 < e.size) (member : extent ∈ free) :
    free.Perm (extent :: without extent.start free) := by
  induction free with
  | nil => cases member
  | cons e rest ih =>
    obtain ⟨gap, sorted⟩ := List.pairwise_cons.mp sorted
    have here := sized e (by simp)
    rcases List.mem_cons.mp member with rfl | later
    · have untouched : without extent.start rest = rest := by
        apply List.filter_eq_self.mpr
        intro x inside
        have beyond := gap x inside
        unfold Extent.stop at beyond
        simp only [decide_not, Bool.not_eq_eq_eq_not, Bool.not_true, decide_eq_false_iff_not]
        omega
      simp only [without, ne_eq, not_true_eq_false, decide_false, Bool.false_eq_true, not_false_eq_true,
        List.filter_cons_of_neg]
      rw [show List.filter _ rest = rest from untouched]
    · have differs : e.start ≠ extent.start := by
        have beyond := gap extent later
        unfold Extent.stop at beyond
        omega
      have moved := ih sorted (fun x inside => sized x (by simp [inside])) later
      simp only [without, ne_eq, differs, not_false_eq_true, decide_true, List.filter_cons_of_pos]
      exact (moved.cons e).trans (.swap ..)

theorem without_sorted (sorted : Sorted free) (start : Nat) : Sorted (without start free) := sorted.filter _

theorem mem_place : x ∈ place extent free → x = extent ∨ x ∈ free := by
  induction free with
  | nil => simp [place]
  | cons e rest ih =>
    unfold place
    split
    · simp
    · split
      · intro member
        rcases List.mem_cons.mp member with same | later
        · exact .inl same
        · exact .inr (List.mem_cons_of_mem _ later)
      · intro member
        rcases List.mem_cons.mp member with same | later
        · exact .inr (by simp [same])
        · rcases ih later with same | older
          · exact .inl same
          · exact .inr (List.mem_cons_of_mem _ older)

theorem place_perm (fresh : ∀ e ∈ free, e.start ≠ extent.start) : (place extent free).Perm (extent :: free) := by
  induction free with
  | nil => exact .refl _
  | cons e rest ih =>
    unfold place
    have here := fresh e (by simp)
    split
    · exact .refl _
    · rw [if_neg (by omega)]
      exact ((ih fun x member => fresh x (by simp [member])).cons e).trans (.swap ..)

theorem place_sorted (sorted : Sorted free)
    (gaps : ∀ e ∈ free, e.stop < extent.start ∨ extent.stop < e.start) : Sorted (place extent free) := by
  induction free with
  | nil => simp [place, Sorted]
  | cons e rest ih =>
    obtain ⟨gap, later⟩ := List.pairwise_cons.mp sorted
    have here := gaps e (by simp)
    unfold Extent.stop at here
    unfold place
    split
    · refine List.pairwise_cons.mpr ⟨fun x member => ?_, sorted⟩
      rcases List.mem_cons.mp member with rfl | beyond
      · unfold Extent.stop; omega
      · have order := gap x beyond
        have apart := gaps x (by simp [beyond])
        unfold Extent.stop at order apart ⊢
        omega
    · rw [if_neg (by omega)]
      refine List.pairwise_cons.mpr ⟨fun x member => ?_, ih later fun x inside => gaps x (by simp [inside])⟩
      rcases mem_place member with rfl | beyond
      · unfold Extent.stop; omega
      · exact gap x beyond

theorem mem_without {start : Nat} : x ∈ without start free ↔ x ∈ free ∧ x.start ≠ start := by simp [without]

theorem Sorted.apart (sorted : Sorted free) (one : x ∈ free) (two : extent ∈ free) :
    x = extent ∨ x.stop < extent.start ∨ extent.stop < x.start := by
  induction free with
  | nil => cases one
  | cons e rest ih =>
    obtain ⟨gap, later⟩ := List.pairwise_cons.mp sorted
    rcases List.mem_cons.mp one with rfl | oneLater
    · rcases List.mem_cons.mp two with rfl | twoLater
      · exact .inl rfl
      · exact .inr (.inl (gap _ twoLater))
    · rcases List.mem_cons.mp two with rfl | twoLater
      · exact .inr (.inr (gap _ oneLater))
      · exact ih later oneLater twoLater

theorem Sorted.gap (sorted : Sorted free) (one : x ∈ free) (two : extent ∈ free) (differs : x.start ≠ extent.start) :
    x.stop < extent.start ∨ extent.stop < x.start := by
  refine (sorted.apart one two).resolve_left ?_
  rintro rfl
  exact differs rfl

theorem cover_take (cut : need ≤ hole.size) :
    cover [hole] i = cover [⟨hole.start, need⟩] i + cover [⟨hole.start + need, hole.size - need⟩] i := by
  simp only [cover_single_eq, Extent.stop]
  grind

theorem take_wellFormed (sound : pool.WellFormed) (units : need % 16 = 0) (positive : 0 < need)
    (took : pool.take need = some (extent, after)) :
    after.WellFormed ∧ after.capacity = pool.capacity ∧ extent.Whole pool.capacity ∧ extent.size = need ∧
      ∀ i, cover pool.free i = cover [extent] i + cover after.free i := by
  unfold take at took
  split at took
  · cases took
  · rename_i hole found
    obtain ⟨rfl, rfl⟩ := Prod.mk.inj (Option.some.inj took)
    have member := List.mem_of_find?_eq_some found
    have large : need ≤ hole.size := by simpa using List.find?_some found
    obtain ⟨first, size, -, wide⟩ := sound.whole hole member
    have parted := without_perm sound.sorted (fun e inside => (sound.whole e inside).nonempty) member
    have order := without_sorted sound.sorted hole.start
    have others : ∀ e ∈ without hole.start pool.free,
        e.Whole pool.capacity ∧ (e.stop < hole.start ∨ hole.stop < e.start) := by
      intro e inside
      obtain ⟨belongs, differs⟩ := mem_without.mp inside
      exact ⟨sound.whole e belongs, sound.sorted.gap belongs member differs⟩
    unfold Extent.stop at wide
    have handed : Extent.Whole pool.capacity ⟨hole.start, need⟩ :=
      ⟨first, units, positive, by unfold Extent.stop; simp only; omega⟩
    by_cases smaller : need < hole.size
    · simp only [smaller, if_true]
      let rest : Extent := ⟨hole.start + need, hole.size - need⟩
      have gaps : ∀ e ∈ without hole.start pool.free, e.stop < rest.start ∨ rest.stop < e.start := by
        intro e inside
        have gap := (others e inside).2
        simp only [Extent.stop, rest] at gap ⊢
        omega
      have fresh : ∀ e ∈ without hole.start pool.free, e.start ≠ rest.start := by
        intro e inside same
        have gap := gaps e inside
        unfold Extent.stop at gap
        omega
      have placed := place_perm fresh
      refine ⟨⟨place_sorted order gaps, ?_, ?_⟩, trivial, handed, trivial, ?_⟩
      · intro e inside
        rcases mem_place inside with rfl | older
        · refine ⟨?_, ?_, ?_, ?_⟩ <;> simp only [Extent.stop] <;> omega
        · exact (others e older).1
      · have counted := sound.counted
        rw [total_perm parted, total_cons] at counted
        simp only [total_perm placed, total_cons, rest]
        omega
      · intro i
        rw [cover_perm parted, cover_cons hole, cover_take large, cover_perm placed,
          cover_cons rest (without hole.start pool.free)]
        simp only [rest]
        omega
    · simp only [smaller, if_false]
      refine ⟨⟨order, fun e inside => (others e inside).1, ?_⟩, trivial, handed, trivial, ?_⟩
      · have counted := sound.counted
        rw [total_perm parted, total_cons] at counted
        simp only
        omega
      · intro i
        have tight : need = hole.size := by omega
        rw [cover_perm parted, cover_cons hole, tight]

theorem rounded_units {size : Nat} (given : rounded size = .ok need) : need = (max size 1 + 15) / 16 * 16 := by
  unfold rounded checkedRoundUp checkedAdd at given
  split at given
  · cases given
    unfold unit
    omega
  · cases given

theorem rounded_error {size : Nat} {failure : Failure} (failed : rounded size = .error failure) :
    hostLimit ≤ max size 1 + 16 := by
  unfold rounded checkedRoundUp checkedAdd at failed
  split at failed
  · cases failed
  · rename_i large
    exact Nat.le_of_not_lt large

theorem before_some {left : Extent} {start : Nat} (sorted : Sorted free) (found : before? start free = some left) :
    left ∈ free ∧ left.start < start ∧ ∀ e ∈ free, e.start < start → e = left ∨ e.stop < left.start := by
  unfold before? at found
  have member := List.mem_filter.mp (List.mem_of_getLast? found)
  refine ⟨member.1, by simpa using member.2, ?_⟩
  intro e inside below
  obtain ⟨front, split⟩ := List.getLast?_eq_some_iff.mp found
  have order : Sorted (front ++ [left]) := split ▸ sorted.filter _
  have among : e ∈ front ++ [left] := split ▸ List.mem_filter.mpr ⟨inside, by simpa using below⟩
  rcases List.mem_append.mp among with earlier | last
  · exact .inr ((List.pairwise_append.mp order).2.2 e earlier left (by simp))
  · exact .inl (by simpa using last)

theorem before_none {start : Nat} (found : before? start free = none) (inside : x ∈ free) : start ≤ x.start := by
  have empty := List.filter_eq_nil_iff.mp (List.getLast?_eq_none_iff.mp found) x inside
  simpa using empty

structure Joined (extent : Extent) (free : List Extent) (wider : Extent) (rest : List Extent) : Prop where
  start : wider.start % 16 = 0
  size : wider.size % 16 = 0
  grows : extent.size ≤ wider.size
  sorted : Sorted rest
  kept : ∀ e ∈ rest, e ∈ free
  covers : ∀ i, cover rest i + cover [wider] i = cover free i + cover [extent] i
  counts : total rest + wider.size = total free + extent.size

theorem joinBefore_joined (sorted : Sorted free) (whole : ∀ e ∈ free, e.Whole capacity)
    (start : extent.start % 16 = 0) (size : extent.size % 16 = 0)
    (apart : ∀ e ∈ free, e.stop ≤ extent.start ∨ extent.stop ≤ e.start) :
    ∃ wider rest, joinBefore extent free = .ok (wider, rest) ∧ Joined extent free wider rest ∧
      wider.stop = extent.stop ∧ ∀ e ∈ rest, e.stop < wider.start ∨ wider.stop ≤ e.start := by
  unfold joinBefore
  cases found : before? extent.start free with
  | none =>
    refine ⟨extent, free, rfl, ⟨start, size, Nat.le_refl _, sorted, fun _ inside => inside, fun _ => rfl, rfl⟩, rfl, ?_⟩
    intro e inside
    have above := before_none found inside
    have sized := (whole e inside).nonempty
    have gap := apart e inside
    unfold Extent.stop at gap ⊢
    omega
  | some left =>
    obtain ⟨member, below, last⟩ := before_some sorted found
    obtain ⟨leftStart, leftSize, sized, -⟩ := whole left member
    have gap := apart left member
    have parted := without_perm sorted (fun e inside => (whole e inside).nonempty) member
    have ends : left.stop ≤ extent.start := by
      unfold Extent.stop at gap ⊢
      omega
    simp only [Nat.not_lt.mpr ends, if_false]
    by_cases touches : left.stop = extent.start
    · simp only [touches, if_true]
      refine ⟨_, _, rfl, ⟨leftStart, by simp only; omega, by simp only; omega, without_sorted sorted _,
        fun e inside => (mem_without.mp inside).1, ?_, ?_⟩, ?_, ?_⟩
      · intro i
        rw [cover_perm parted, cover_cons left]
        simp only [cover_single_eq, Extent.stop] at touches ⊢
        grind
      · rw [total_perm parted, total_cons]
        simp only
        omega
      · unfold Extent.stop at touches ⊢
        simp only
        omega
      · intro e inside
        obtain ⟨belongs, differs⟩ := mem_without.mp inside
        have order := sorted.gap belongs member differs
        have away := apart e belongs
        have filled := (whole e belongs).nonempty
        have nearest := last e belongs
        have other : e ≠ left := fun same => differs (by rw [same])
        simp only [other, false_or] at nearest
        unfold Extent.stop at *
        simp only
        omega
    · simp only [touches, if_false]
      refine ⟨extent, free, rfl, ⟨start, size, Nat.le_refl _, sorted, fun _ inside => inside, fun _ => rfl, rfl⟩,
        rfl, ?_⟩
      intro e inside
      have away := apart e inside
      have filled := (whole e inside).nonempty
      have nearest := last e inside
      by_cases same : e = left
      · subst same; exact .inl (by omega)
      · simp only [same, false_or] at nearest
        unfold Extent.stop at *
        omega

theorem joinAfter_joined (sorted : Sorted free) (whole : ∀ e ∈ free, e.Whole capacity) (start : extent.start % 16 = 0)
    (size : extent.size % 16 = 0) (gaps : ∀ e ∈ free, e.stop < extent.start ∨ extent.stop ≤ e.start) :
    Joined extent free (joinAfter extent free).1 (joinAfter extent free).2 ∧
      (extent.stop ≤ capacity → (joinAfter extent free).1.stop ≤ capacity) ∧
      ∀ e ∈ (joinAfter extent free).2,
        e.stop < (joinAfter extent free).1.start ∨ (joinAfter extent free).1.stop < e.start := by
  unfold joinAfter
  cases found : startingAt? extent.stop free with
  | none =>
    refine ⟨⟨start, size, Nat.le_refl _, sorted, fun _ inside => inside, fun _ => rfl, rfl⟩, id, ?_⟩
    intro e inside
    have elsewhere : e.start ≠ extent.stop := by simpa using List.find?_eq_none.mp found e inside
    have gap := gaps e inside
    simp only
    omega
  | some right =>
    have member := List.mem_of_find?_eq_some found
    have adjoins : right.start = extent.stop := by simpa using List.find?_some found
    have parted := without_perm sorted (fun e inside => (whole e inside).nonempty) member
    obtain ⟨rightStart, rightSize, -, rightInside⟩ := whole right member
    rw [adjoins] at parted
    simp only
    refine ⟨⟨start, by simp only; omega, by simp, without_sorted sorted _, fun e inside => (mem_without.mp inside).1,
      ?_, ?_⟩, ?_, ?_⟩
    · intro i
      rw [cover_perm parted, cover_cons right]
      simp only [cover_single_eq, Extent.stop] at adjoins ⊢
      grind
    · rw [total_perm parted, total_cons]
      simp only
      omega
    · intro _
      unfold Extent.stop at rightInside adjoins ⊢
      simp only
      omega
    · intro e inside
      obtain ⟨belongs, differs⟩ := mem_without.mp inside
      have order := sorted.gap belongs member (by omega)
      have gap := gaps e belongs
      have filled := (whole e belongs).nonempty
      unfold Extent.stop at *
      simp only
      omega

-- Whole units that no free extent reaches into can be given back; they are then free, merged with what they adjoin.
theorem release_ok (sound : pool.WellFormed) (bounded : pool.capacity < hostLimit) (whole : extent.Whole pool.capacity)
    (apart : ∀ i, cover pool.free i + cover [extent] i ≤ 1) :
    ∃ after, pool.release extent.start extent.stop = .ok after ∧ after.WellFormed ∧ after.capacity = pool.capacity ∧
      ∀ i, cover after.free i = cover pool.free i + cover [extent] i := by
  obtain ⟨start, size, filled, inside⟩ := whole
  have away : ∀ e ∈ pool.free, e.stop ≤ extent.start ∨ extent.stop ≤ e.start := by
    intro e member
    refine apart_of_cover (fun i => ?_) (sound.whole e member).nonempty filled
    have most := apart i
    have least := cover_mem member (i := i)
    omega
  obtain ⟨left, others, joined, before, sameStop, gaps⟩ := joinBefore_joined sound.sorted sound.whole start size away
  obtain ⟨after, fits, clear⟩ := joinAfter_joined before.sorted (fun e member => sound.whole e (before.kept e member))
    before.start before.size gaps
  generalize given : (joinAfter left others).1 = wide at after fits clear
  generalize kept : (joinAfter left others).2 = rest at after clear
  have wideInside : wide.stop ≤ pool.capacity := fits (by omega)
  have grown := before.grows
  have grownAgain := after.grows
  have fresh : ∀ e ∈ rest, e.start ≠ wide.start := by
    intro e member same
    have gap := clear e member
    unfold Extent.stop at gap
    omega
  have placed := place_perm fresh
  have order := place_sorted after.sorted clear
  have wholes : ∀ e ∈ place wide rest, e.Whole pool.capacity := by
    intro e member
    rcases mem_place member with rfl | older
    · exact ⟨after.start, after.size, by omega, wideInside⟩
    · exact sound.whole e (before.kept e (after.kept e older))
  have counted := sound.counted
  have countsBefore := before.counts
  have countsAfter := after.counts
  have room := total_le order 0 fun e member => ⟨Nat.zero_le _, (wholes e member).inside⟩
  rw [total_perm placed, total_cons] at room
  have width : extent.stop - extent.start = extent.size := by unfold Extent.stop; omega
  refine ⟨⟨pool.capacity, place wide rest, pool.freeBytes + extent.size⟩, ?_, ⟨order, wholes, ?_⟩, rfl, ?_⟩
  · have aligned : ¬(extent.start % 16 ≠ 0 ∨ extent.size % 16 ≠ 0 ∨ pool.capacity < extent.stop) := by omega
    have counts : checkedAdd pool.freeBytes extent.size = .ok (pool.freeBytes + extent.size) := by
      unfold checkedAdd
      rw [if_pos (by omega)]
    unfold release
    simp only [width, aligned, if_false, counts, joined]
    rw [← given, ← kept]
    rfl
  · rw [total_perm placed, total_cons]
    simp only
    omega
  · intro i
    have coversBefore := before.covers i
    have coversAfter := after.covers i
    simp only [cover_perm placed]
    rw [cover_cons]
    omega

end ExtentPool
end TieredHart
