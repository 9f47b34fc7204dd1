import TieredHart.Proofs.Filing
import TieredHart.Proofs.Stores

namespace TieredHart

namespace FrameTable

variable {table : FrameTable} {pa f : Nat}

theorem entries_unregisterEach (fs : List Nat) : (fs.foldl (·.unregister pa ·) table).entries f =
    if f ∈ fs ∧ table.covers f = true then (table.entries f).filter (· ≠ pa) else table.entries f := by
  induction fs generalizing table with
  | nil => simp
  | cons g rest ih =>
    rw [List.foldl_cons, ih, (Alike.unregister pa g).covers, entries_unregister]
    by_cases covered : table.covers f = true
    · by_cases here : f = g
      · subst here
        by_cases again : f ∈ rest <;> simp [covered, again, List.filter_filter]
      · simp [here]
    · have untracked : ¬(f = g ∧ table.covers g = true) := by
        rintro ⟨rfl, other⟩
        exact covered other
      simp [covered, untracked]

theorem count_registerEach (fs : List Nat) (x : Nat) : ((fs.foldl (·.register pa ·) table).entries f).count x =
    (table.entries f).count x + if x = pa ∧ table.covers f = true then fs.count f else 0 := by
  induction fs generalizing table with
  | nil => simp
  | cons g rest ih =>
    rw [List.foldl_cons, ih, (Alike.register pa g).covers, entries_register]
    by_cases here : f = g ∧ table.covers g = true
    · obtain ⟨rfl, covered⟩ := here
      by_cases own : x = pa
      · subst own
        simp only [covered, and_self, if_true, List.count_append, List.count_cons_self, List.count_nil]
        omega
      · simp [covered, own, Ne.symm own]
    · rw [if_neg here]
      by_cases covered : table.covers f = true
      · have differs : g ≠ f := by
          rintro rfl
          exact here ⟨rfl, covered⟩
        simp [differs]
      · simp [covered]

end FrameTable

namespace Cache

variable {cache after : Cache} {pa f : Nat} {block : Block}

-- The list kept for a frame names an address once for every time the frame stands in the stamp of its block, and no
-- address without a block.
def ListedIn (cache : Cache) (f : Nat) : Prop :=
  ∀ pa, (cache.frames.entries f).count pa = (cache.find? pa).elim 0 fun block => block.stamp.frames.count f

structure Settled (cache : Cache) : Prop where
  keys : (cache.installed.map (·.entryPa)).Nodup
  numbers : ((cache.installed ++ cache.retired).map (·.id)).Nodup
  numbered : ∀ block ∈ cache.installed ++ cache.retired, block.id < cache.nextId
  valid : ∀ block ∈ cache.installed, block.valid = true
  invalid : ∀ block ∈ cache.retired, block.valid = false
  used : ∀ block ∈ cache.installed, block.lastUsed ≤ cache.clock
  installs : cache.counts.installs =
    cache.installed.length + cache.counts.evictions + cache.counts.invalidations
  retirements : cache.retirements = cache.counts.evictions + cache.counts.invalidations

structure Indexed (cache : Cache) : Prop extends Settled cache where
  listed : ∀ f, cache.frames.covers f = true → cache.ListedIn f
  ordered : cache.Ordered [] cache.lru cache.filed

theorem ofArena_indexed (arena : Arena) (base pages threshold : Nat) :
    (ofArena arena base pages threshold).Indexed := by
  have empty : ∀ f, (FrameTable.fresh base pages).entries f = [] := by
    intro f
    unfold FrameTable.entries FrameTable.get FrameTable.frame? FrameTable.fresh
    split
    · cases there : (Array.replicate pages Frame.fresh)[f - base]? with
      | none => rfl
      | some frame =>
        obtain ⟨_, same⟩ := Array.getElem?_eq_some_iff.mp there
        rw [Array.getElem_replicate] at same
        subst same
        rfl
    · rfl
  refine ⟨⟨.nil, .nil, nofun, nofun, nofun, nofun, rfl, rfl⟩, ?_, ⟨.nil, .nil, .nil, nofun⟩⟩
  intro f _ pa
  show ((FrameTable.fresh base pages).entries f).count pa = 0
  rw [empty]
  rfl

structure Retuned (cache after : Cache) : Prop where
  installed : after.installed = cache.installed
  retired : after.retired = cache.retired
  lru : after.lru = cache.lru
  filed : after.filed = cache.filed
  clock : after.clock = cache.clock
  nextId : after.nextId = cache.nextId
  installs : after.counts.installs = cache.counts.installs
  evictions : after.counts.evictions = cache.counts.evictions
  invalidations : after.counts.invalidations = cache.counts.invalidations
  retirements : after.retirements = cache.retirements
  covers : ∀ f, after.frames.covers f = cache.frames.covers f
  entries : ∀ f, after.frames.entries f = cache.frames.entries f

theorem Settled.retuned (settled : cache.Settled) (same : Retuned cache after) : after.Settled := by
  constructor
  · rw [same.installed]; exact settled.keys
  · rw [same.installed, same.retired]; exact settled.numbers
  · rw [same.installed, same.retired, same.nextId]; exact settled.numbered
  · rw [same.installed]; exact settled.valid
  · rw [same.retired]; exact settled.invalid
  · rw [same.installed, same.clock]; exact settled.used
  · rw [same.installed, same.installs, same.evictions, same.invalidations]; exact settled.installs
  · rw [same.retirements, same.evictions, same.invalidations]; exact settled.retirements

theorem Retuned.find (same : Retuned cache after) (pa : Nat) : after.find? pa = cache.find? pa := by
  unfold find?
  rw [same.installed]

theorem ListedIn.moved (listed : cache.ListedIn f) (entries : after.frames.entries f = cache.frames.entries f)
    (found : ∀ pa, after.find? pa = cache.find? pa) : after.ListedIn f := by
  intro pa
  rw [entries, found, listed pa]

theorem Ordered.moved {out lru filed : List (Nat × Nat)} (ordered : cache.Ordered out lru filed)
    (installed : after.installed = cache.installed) : after.Ordered out lru filed := by
  refine ⟨by rw [installed]; exact ordered.keys, ordered.matched, ordered.sorted, ?_⟩
  intro entry member block found
  refine ordered.lags entry member block ?_
  unfold find? at found ⊢
  rwa [installed] at found

theorem Indexed.retuned (indexed : cache.Indexed) (same : Retuned cache after) : after.Indexed := by
  refine ⟨indexed.toSettled.retuned same, ?_, ?_⟩
  · intro f covered
    rw [same.covers] at covered
    exact (indexed.listed f covered).moved (same.entries f) same.find
  · rw [same.lru, same.filed]
    exact indexed.ordered.moved same.installed

namespace Removed

variable {why : Departure}

theorem numbers (removed : Removed pa why block cache after) (keys : (cache.installed.map (·.entryPa)).Nodup) :
    ((after.installed ++ after.retired).map (·.id)).Perm ((cache.installed ++ cache.retired).map (·.id)) := by
  have ids := ((find_perm keys removed.found).map (·.id)).append_right (cache.retired.map (·.id))
  rw [removed.installed, removed.retired]
  simp only [List.map_append, List.map_cons, List.map_nil] at ids ⊢
  rw [← List.append_assoc]
  exact (List.perm_append_singleton _ _).trans ids.symm

theorem settled (removed : Removed pa why block cache after) (settled : cache.Settled) : after.Settled := by
  have parted := find_perm settled.keys removed.found
  have numbers := removed.numbers settled.keys
  have rest : ∀ other ∈ after.installed, other ∈ cache.installed := by
    rw [removed.installed]
    exact fun other there => (List.mem_filter.mp there).1
  constructor
  · rw [removed.installed]
    exact settled.keys.sublist (List.filter_sublist.map _)
  · exact numbers.nodup_iff.mpr settled.numbers
  · intro other there
    obtain ⟨old, here, same⟩ := List.mem_map.mp (numbers.mem_iff.mp (List.mem_map.mpr ⟨other, there, rfl⟩))
    rw [← same, removed.nextId]
    exact settled.numbered old here
  · exact fun other there => settled.valid other (rest other there)
  · rw [removed.retired]
    intro other there
    rcases List.mem_append.mp there with older | new
    · exact settled.invalid other older
    · cases List.mem_singleton.mp new
      rfl
  · rw [removed.clock]
    exact fun other there => settled.used other (rest other there)
  · have installs := settled.installs
    have length := parted.length_eq
    rw [List.length_cons, ← removed.installed] at length
    rw [removed.counts]
    cases why <;> simp only [countRemoval] <;> omega
  · have retirements := settled.retirements
    rw [removed.counts, removed.retirements]
    cases why <;> simp only [countRemoval] <;> omega

theorem listedIn (removed : Removed pa why block cache after) (covered : cache.frames.covers f = true)
    (listed : cache.ListedIn f) : after.ListedIn f := by
  intro other
  have before := listed other
  rw [removed.find, removed.frames, FrameTable.entries_unregisterEach]
  by_cases same : other = pa
  · subst same
    rw [removed.found] at before
    rw [if_pos rfl]
    split
    · simp [List.count_eq_zero]
    · rename_i absent
      rw [before]
      exact List.count_eq_zero.mpr fun there => absent ⟨there, covered⟩
  · rw [if_neg same]
    split
    · rw [List.count_filter (by simpa using same)]
      exact before
    · exact before

theorem ordered {out : List (Nat × Nat)} (removed : Removed pa why block cache after)
    (keys : (cache.installed.map (·.entryPa)).Nodup) (ordered : cache.Ordered out cache.lru cache.filed)
    (own : ∀ entry ∈ out, entry.2 = pa) : after.Ordered [] after.lru after.filed := by
  obtain ⟨member, entry⟩ := find_some removed.found
  have filedOnce := (ordered.distinct keys).1
  obtain ⟨tick, filedAt⟩ : ∃ tick, Lru.tick? cache.filed pa = some tick := by
    refine Option.isSome_iff_exists.mp (Lru.tick_isSome.mpr (ordered.keys.mem_iff.mpr ?_))
    exact List.mem_map.mpr ⟨block, member, entry⟩
  have left : after.lru = cache.lru.filter (·.2 ≠ pa) := by
    rw [removed.lru, filedAt]
    refine List.filter_congr fun x there => ?_
    have filed : (x.2, x.1) ∈ cache.filed := ordered.mem_iff.mpr (List.mem_append_right _ there)
    by_cases here : x.2 = pa
    · have only := (Lru.tick_some filedOnce).mpr filed
      rw [here, filedAt] at only
      have same : x = (tick, pa) := Prod.ext (Option.some.inj only).symm here
      simp [same]
    · have differs : x ≠ (tick, pa) := fun same => here (by rw [same])
      simp [here, differs]
  have emptied : out.filter (·.2 ≠ pa) = [] := by
    refine List.filter_eq_nil_iff.mpr fun x there => ?_
    simp [own x there]
  refine ⟨?_, ?_, by rw [left]; exact List.Pairwise.filter _ ordered.sorted, ?_⟩
  · have pruned := ordered.keys.filter (· ≠ pa)
    rw [List.filter_map, List.filter_map] at pruned
    rw [removed.filed, removed.installed]
    exact pruned
  · have pruned := ordered.matched.filter (·.1 ≠ pa)
    have swapped : ((fun x : Nat × Nat => decide (x.1 ≠ pa)) ∘ Prod.swap) = fun x => decide (x.2 ≠ pa) := rfl
    rw [List.filter_map, List.filter_append, swapped, emptied] at pruned
    rw [removed.filed, left]
    exact pruned
  · rw [removed.filed]
    intro x there other
    obtain ⟨filed, differs⟩ := Lru.mem_forget.mp there
    rw [removed.find, if_neg differs]
    exact ordered.lags x filed other

end Removed

-- Agreement while the blocks of one frame are leaving: its list is already empty.
structure IndexedBut (cache : Cache) (f : Nat) : Prop extends Settled cache where
  listed : ∀ g, cache.frames.covers g = true → g ≠ f → cache.ListedIn g
  cleared : cache.frames.covers f = true → cache.frames.entries f = []
  ordered : cache.Ordered [] cache.lru cache.filed

theorem Removed.indexedBut (removed : Removed pa .invalidated block cache after) (indexed : cache.IndexedBut f) :
    after.IndexedBut f := by
  refine ⟨removed.settled indexed.toSettled, ?_, ?_, removed.ordered indexed.keys indexed.ordered nofun⟩
  · intro g covered differs
    rw [removed.covers] at covered
    exact removed.listedIn covered (indexed.listed g covered differs)
  · intro covered
    rw [removed.covers] at covered
    rw [removed.frames, FrameTable.entries_unregisterEach, indexed.cleared covered]
    simp

theorem clearEntries_indexedBut (indexed : cache.Indexed) (f : Nat) :
    IndexedBut { cache with frames := cache.frames.clearEntries f } f := by
  refine ⟨⟨indexed.keys, indexed.numbers, indexed.numbered, indexed.valid, indexed.invalid, indexed.used, indexed.installs,
    indexed.retirements⟩, ?_, ?_, indexed.ordered.moved rfl⟩
  · intro g covered differs
    rw [(FrameTable.Alike.clearEntries f).covers] at covered
    refine (indexed.listed g covered).moved ?_ fun _ => rfl
    simp [FrameTable.entries_clearEntries, differs]
  · intro covered
    rw [(FrameTable.Alike.clearEntries f).covers] at covered
    simp [FrameTable.entries_clearEntries, covered]

theorem find_member (keys : (cache.installed.map (·.entryPa)).Nodup) (member : block ∈ cache.installed) :
    cache.find? block.entryPa = some block := by
  cases found : cache.find? block.entryPa with
  | none =>
    have absent := List.find?_eq_none.mp found block member
    simp at absent
  | some other =>
    have parted := (find_perm keys found).mem_iff.mp member
    rcases List.mem_cons.mp parted with rfl | rest
    · rfl
    · have differs := (List.mem_filter.mp rest).2
      simp at differs

theorem IndexedBut.completed {gone : List Nat} (indexed : after.IndexedBut f) (before : cache.Indexed)
    (sheds : Sheds gone cache after) (all : gone = cache.frames.entries f) : after.Indexed := by
  refine ⟨indexed.toSettled, ?_, indexed.ordered⟩
  intro g covered
  by_cases here : g = f
  · subst here
    intro pa
    rw [indexed.cleared covered]
    cases found : after.find? pa with
    | none => rfl
    | some block =>
      obtain ⟨member, entry⟩ := find_some found
      obtain ⟨old, there, like⟩ := sheds.installed block member
      have absent := sheds.absent block member
      -- The list had named this block had it been stamped with the frame.
      have count := before.listed g (by rw [← sheds.toWithin.frames.covers]; exact covered) block.entryPa
      rw [all] at absent
      rw [like.entryPa] at absent count
      rw [List.count_eq_zero.mpr absent, find_member before.keys there, Option.elim_some] at count
      rw [Option.elim_some, like.stamp, ← count]
      rfl
  · exact indexed.listed g covered here

theorem dropFrame_indexed (indexed : cache.Indexed) (f : Nat) : (cache.dropFrame f).2.Indexed := by
  have sheds := dropFrame_sheds indexed.keys f
  have kept := removeAll_keeps (P := (IndexedBut · f)) (clearEntries_indexedBut indexed f)
    (fun before removed => removed.indexedBut before) (cache.frames.entries f)
  refine IndexedBut.completed ?_ indexed sheds rfl
  unfold dropFrame
  dsimp only
  split
  · exact ⟨⟨kept.keys, kept.numbers, kept.numbered, kept.valid, kept.invalid, kept.used, kept.installs, kept.retirements⟩,
      kept.listed, kept.cleared, kept.ordered.moved rfl⟩
  · exact kept

theorem frameWritten_indexed (indexed : cache.Indexed) (fetch : Option Nat) (f : Nat) :
    (cache.frameWritten fetch f).2.Indexed := by
  refine (dropFrame_indexed indexed f).retuned ⟨rfl, rfl, rfl, rfl, rfl, rfl, rfl, rfl, rfl, rfl, ?_,
    frameWritten_entries cache fetch f⟩
  intro g
  rw [(frameWritten_frames cache fetch f).covers]
  exact FrameTable.covers_modify

theorem framesWritten_indexed (indexed : cache.Indexed) (fetch : Option Nat) (fs : List Nat) :
    (cache.framesWritten fetch fs).2.Indexed := by
  induction fs generalizing cache with
  | nil => exact indexed
  | cons f rest ih => exact ih (frameWritten_indexed indexed fetch f)

theorem find_markUsed (cache : Cache) (id pa : Nat) : (cache.markUsed id).find? pa =
    (cache.find? pa).map fun block => if block.id = id then { block with lastUsed := cache.clock + 1 } else block := by
  unfold find? markUsed useAt
  rw [List.find?_map]
  congr
  funext block
  by_cases own : block.id = id <;> simp [own]

theorem markUsed_indexed (indexed : cache.Indexed) (id : Nat) : (cache.markUsed id).Indexed := by
  have keys : (cache.markUsed id).installed.map (·.entryPa) = cache.installed.map (·.entryPa) :=
    useAt_map (fun _ _ => rfl) _ _ _
  have numbers : ((cache.markUsed id).installed ++ (cache.markUsed id).retired).map (·.id) =
      (cache.installed ++ cache.retired).map (·.id) := by
    simp only [List.map_append]
    exact congr (congrArg _ (useAt_map (fun _ _ => rfl) ..)) (useAt_map (fun _ _ => rfl) ..)
  refine ⟨⟨by rw [keys]; exact indexed.keys, by rw [numbers]; exact indexed.numbers, ?_, ?_, ?_, ?_, ?_,
    indexed.retirements⟩, ?_, ?_⟩
  · intro block there
    obtain ⟨old, here, same⟩ := List.mem_map.mp (numbers ▸ List.mem_map.mpr ⟨block, there, rfl⟩)
    rw [← same]
    exact indexed.numbered old here
  · intro block there
    obtain ⟨old, here, -, same⟩ := useAt_like there
    rw [same]
    exact indexed.valid old here
  · intro block there
    obtain ⟨old, here, -, same⟩ := useAt_like there
    rw [same]
    exact indexed.invalid old here
  · intro block there
    obtain ⟨old, here, rfl⟩ := List.mem_map.mp there
    have before := indexed.used old here
    show _ ≤ cache.clock + 1
    split
    · exact Nat.le_refl _
    · omega
  · have length := congrArg List.length keys
    rw [List.length_map, List.length_map] at length
    rw [length]
    exact indexed.installs
  · intro f covered pa
    rw [find_markUsed, Option.elim_map]
    refine (indexed.listed f covered pa).trans ?_
    congr
    funext block
    simp only [Function.comp]
    split <;> rfl
  · refine ⟨by rw [keys]; exact indexed.ordered.keys, indexed.ordered.matched, indexed.ordered.sorted, ?_⟩
    intro entry member block found
    rw [find_markUsed] at found
    obtain ⟨old, here, rfl⟩ := Option.map_eq_some_iff.mp found
    have lag := indexed.ordered.lags entry member old here
    have before := indexed.used old (find_some here).1
    split
    · show entry.2 ≤ cache.clock + 1
      omega
    · exact lag

theorem recycle_indexed {count : Nat} (indexed : cache.Indexed) (ran : recycle cache = .ok count after) :
    after.Indexed := by
  obtain ⟨kept, pool, recycled, rfl⟩ := recycle_parts ran
  have fewer : kept.Sublist cache.retired := by
    rw [recycleFrom_kept recycled]
    exact List.filter_sublist
  have blocks := (List.Sublist.refl cache.installed).append fewer
  exact ⟨⟨indexed.keys, indexed.numbers.sublist (blocks.map _), fun block there => indexed.numbered block (blocks.subset there),
    indexed.valid, fun block there => indexed.invalid block (fewer.subset there), indexed.used, indexed.installs,
    indexed.retirements⟩, indexed.listed, indexed.ordered.moved rfl⟩

theorem victim_settled (settled : cache.Settled) : (victim cache).2.Settled :=
  ⟨settled.keys, settled.numbers, settled.numbered, settled.valid, settled.invalid, settled.used, settled.installs,
    settled.retirements⟩

theorem evicted_indexed (indexed : cache.Indexed) (found : (victim cache).1 = some pa) :
    (((victim cache).2.remove pa .evicted).getD (victim cache).2).Indexed := by
  obtain ⟨out, gone, ordered⟩ := victim_ordered indexed.keys indexed.ordered
  rw [found] at gone
  have own : ∀ entry ∈ out, entry.2 = pa := by
    intro entry there
    have named : entry.2 ∈ out.map (·.2) := List.mem_map.mpr ⟨entry, there, rfl⟩
    rw [gone] at named
    exact List.mem_singleton.mp named
  have there : (victim cache).2.contains pa = true := by
    cases out with
    | nil => cases gone
    | cons entry rest =>
      obtain ⟨block, here⟩ := ordered.installed (show (entry.1, entry.2) ∈ _ from List.mem_cons_self ..)
      rw [own entry (List.mem_cons_self ..)] at here
      exact Option.isSome_iff_exists.mpr ⟨block, here⟩
  obtain ⟨after, left⟩ := remove_some there .evicted
  obtain ⟨block, removed⟩ := remove_removed left
  have settled := victim_settled indexed.toSettled
  rw [left, Option.getD_some]
  refine ⟨removed.settled settled, ?_, removed.ordered settled.keys (ordered.moved rfl) own⟩
  intro f covered
  rw [removed.covers] at covered
  exact removed.listedIn covered (indexed.listed f covered)

theorem exhausted_indexed (indexed : cache.Indexed) (found : (victim cache).1 = none) : (victim cache).2.Indexed := by
  obtain ⟨out, gone, ordered⟩ := victim_ordered indexed.keys indexed.ordered
  rw [found] at gone
  cases List.map_eq_nil_iff.mp gone
  exact ⟨victim_settled indexed.toSettled, indexed.listed, ordered.moved rfl⟩

theorem Cleared.indexed (cleared : Cleared cache after) (indexed : cache.Indexed) : after.Indexed := by
  induction cleared with
  | start => exact indexed
  | recycled _ ran ih => exact recycle_indexed ih ran
  | evicted _ found ih => exact evicted_indexed ih found
  | exhausted _ found ih =>
    exact (exhausted_indexed ih found).retuned ⟨rfl, rfl, rfl, rfl, rfl, rfl, rfl, rfl, rfl, rfl, fun _ => rfl, fun _ => rfl⟩

theorem Granted.indexed {size : Nat} {answer : Except Refusal Extent} (granted : Granted cache size answer after)
    (indexed : cache.Indexed) : after.Indexed := by
  cases granted with
  | given cleared _ =>
    exact (cleared.indexed indexed).retuned
      ⟨rfl, rfl, rfl, rfl, rfl, rfl, rfl, rfl, rfl, rfl, fun _ => rfl, fun _ => rfl⟩
  | refused cleared => exact cleared.indexed indexed

theorem enter_settled (settled : cache.Settled) (free : cache.contains block.entryPa = false)
    (number : block.id = cache.nextId) (valid : block.valid = true) :
    Settled (enter { cache with nextId := cache.nextId + 1 } block) := by
  have unnamed : block.id ∉ (cache.installed ++ cache.retired).map (·.id) := by
    intro there
    obtain ⟨old, here, same⟩ := List.mem_map.mp there
    have below := settled.numbered old here
    omega
  have absent : block.entryPa ∉ cache.installed.map (·.entryPa) := by
    rw [← contains_iff, free]
    exact Bool.false_ne_true
  refine ⟨List.nodup_cons.mpr ⟨absent, settled.keys⟩, List.nodup_cons.mpr ⟨unnamed, settled.numbers⟩, ?_, ?_,
    settled.invalid, ?_, ?_, settled.retirements⟩
  · intro other there
    show other.id < cache.nextId + 1
    rcases List.mem_cons.mp there with rfl | old
    · show block.id < cache.nextId + 1
      omega
    · exact Nat.lt_succ_of_lt (settled.numbered other old)
  · intro other there
    rcases List.mem_cons.mp there with rfl | old
    · exact valid
    · exact settled.valid other old
  · intro other there
    show other.lastUsed ≤ cache.clock + 1
    rcases List.mem_cons.mp there with rfl | old
    · exact Nat.le_refl _
    · exact Nat.le_succ_of_le (settled.used other old)
  · have installs := settled.installs
    show cache.counts.installs + 1 = cache.installed.length + 1 + cache.counts.evictions + cache.counts.invalidations
    omega

theorem enter_listedIn (listed : cache.ListedIn f) (covered : cache.frames.covers f = true)
    (free : cache.contains block.entryPa = false) : (cache.enter block).ListedIn f := by
  intro pa
  have before := listed pa
  rw [find_enter]
  show ((block.stamp.frames.foldl (·.register block.entryPa ·) cache.frames).entries f).count pa = _
  rw [FrameTable.count_registerEach, before]
  by_cases here : pa = block.entryPa
  · have unfound : cache.find? block.entryPa = none := by simpa [contains] using free
    subst here
    simp [covered, unfound]
  · simp [here]

theorem enter_ordered (ordered : cache.Ordered [] cache.lru cache.filed) (free : cache.contains block.entryPa = false) :
    (cache.enter block).Ordered [] (cache.enter block).lru (cache.enter block).filed := by
  have unfiled : block.entryPa ∉ cache.filed.map (·.1) := by
    rw [ordered.keys.mem_iff, ← contains_iff, free]
    exact Bool.false_ne_true
  have forgotten : Lru.forget cache.filed block.entryPa = cache.filed := by
    refine List.filter_eq_self.mpr fun entry there => ?_
    simpa using fun same : entry.1 = block.entryPa => unfiled (List.mem_map.mpr ⟨entry, there, same⟩)
  have filed : (cache.enter block).filed = (block.entryPa, cache.clock + 1) :: cache.filed := by
    show Lru.file cache.filed block.entryPa (cache.clock + 1) = _
    rw [Lru.file, forgotten]
  have untimed : Lru.tick? cache.filed block.entryPa = none := by
    rw [← Option.isNone_iff_eq_none, ← Option.isSome_eq_false_iff, ← Bool.not_eq_true, Lru.tick_isSome]
    exact unfiled
  have lru : (cache.enter block).lru = Lru.insert (cache.clock + 1, block.entryPa) cache.lru := by
    unfold enter
    simp only [untimed]
  have fresh : (cache.clock + 1, block.entryPa) ∉ cache.lru := fun there =>
    unfiled (List.mem_map.mpr ⟨_, ordered.mem_iff.mpr there, rfl⟩)
  rw [filed, lru]
  refine ⟨ordered.keys.cons _, ?_, Lru.insert_sorted ordered.sorted, ?_⟩
  · exact (ordered.matched.cons _).trans ((Lru.insert_perm fresh).symm.map Prod.swap)
  · intro entry there other found
    rw [find_enter] at found
    rcases List.mem_cons.mp there with rfl | older
    · rw [if_pos rfl] at found
      cases found
      exact Nat.le_refl _
    · have differs : entry.1 ≠ block.entryPa := fun same => unfiled (List.mem_map.mpr ⟨entry, older, same⟩)
      rw [if_neg differs] at found
      exact ordered.lags entry older other found

theorem Entered.indexed {code : HostCode} {host : Extent} (entered : Entered code host cache block after)
    (indexed : cache.Indexed) : after.Indexed := by
  cases entered.after
  refine ⟨enter_settled indexed.toSettled entered.free rfl rfl, ?_, enter_ordered (indexed.ordered.moved rfl) entered.free⟩
  intro f covered
  have tracked : cache.frames.covers f = true := by
    rw [← (FrameTable.Alike.foldl (fun _ f => .register code.entryPa f) code.stamp.frames).covers]
    exact covered
  exact enter_listedIn (indexed.listed f tracked) tracked entered.free

theorem placed_indexed (indexed : cache.Indexed) (arena : Arena) : Indexed { cache with arena := arena } :=
  indexed.retuned ⟨rfl, rfl, rfl, rfl, rfl, rfl, rfl, rfl, rfl, rfl, fun _ => rfl, fun _ => rfl⟩

theorem Seated.indexed {code : HostCode} {data : List UInt8} {host : Extent} (seated : Seated code data host cache block after)
    (indexed : cache.Indexed) : after.Indexed := by
  obtain ⟨-, -, entered⟩ := seated
  exact entered.indexed (placed_indexed indexed _)

theorem Published.indexed {code : HostCode} {answer : Except Refusal Block} (published : Published code cache answer after)
    (indexed : cache.Indexed) : after.Indexed := by
  cases published with
  | stale => exact indexed
  | occupied => exact indexed
  | refused _ _ cleared => exact cleared.indexed indexed
  | seated _ _ given seated => exact seated.indexed (given.indexed indexed)

theorem Filled.indexed {size : Nat} {answer : Except Refusal Block} (filled : Filled pa size cache answer after)
    (indexed : cache.Indexed) : after.Indexed := by
  cases filled with
  | refused cleared => exact cleared.indexed indexed
  | seated _ given seated => exact seated.indexed (given.indexed indexed)

end Cache
end TieredHart
