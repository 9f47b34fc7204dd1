import TieredHart.Proofs.Histories

namespace TieredHart

open ExtentPool (cover cover_cons cover_append cover_perm)

namespace Arena

theorem write_eq {arena after : Arena} {offset : Nat} {data : List UInt8} (wrote : arena.write offset data = .ok after) :
    after = arena.writeBytes offset data := by
  unfold write at wrote
  cases added : checkedAdd offset data.length with
  | error failure => rw [added] at wrote; cases wrote
  | ok stop =>
    rw [added] at wrote
    simp only [bind, Except.bind] at wrote
    split at wrote
    · cases wrote
      rfl
    · cases wrote

end Arena

theorem ExtentPool.alloc_some {pool after : ExtentPool} {size : Nat} {extent : Extent}
    (took : pool.alloc size = .ok (some (extent, after))) :
    ∃ need, rounded size = .ok need ∧ pool.take need = some (extent, after) := by
  unfold alloc at took
  cases given : rounded size with
  | error failure => rw [given] at took; cases took
  | ok need =>
    rw [given] at took
    exact ⟨need, rfl, Except.ok.inj took⟩

namespace Cache

variable {cache middle after : Cache} {pa : Nat} {block : Block} {lent : List Extent}

-- No block came in, whatever left the map was retired, and extents only passed from one owner to another; some of them
-- are on loan to whoever asked.
structure Kept (lent : List Extent) (cache after : Cache) : Prop where
  blocks : ∀ block ∈ after.installed ++ after.retired, ∃ old ∈ cache.installed ++ cache.retired,
    block.id = old.id ∧ block.host = old.host
  arena : after.arena = cache.arena
  nextId : after.nextId = cache.nextId
  capacity : after.extents.capacity = cache.extents.capacity
  shares : ∀ i, cover after.extents.free i + cover after.hosts i + cover lent i =
    cover cache.extents.free i + cover cache.hosts i
  retirements : cache.retirements ≤ after.retirements
  stays : after.retirements = cache.retirements → ∀ pa, cache.contains pa = true → after.contains pa = true

namespace Kept

theorem same (installed : after.installed = cache.installed) (retired : after.retired = cache.retired)
    (arena : after.arena = cache.arena) (nextId : after.nextId = cache.nextId) (extents : after.extents = cache.extents)
    (retirements : after.retirements = cache.retirements) : Kept [] cache after := by
  have hosts : after.hosts = cache.hosts := by
    unfold Cache.hosts
    rw [installed, retired]
  refine ⟨?_, arena, nextId, by rw [extents], fun i => by rw [extents, hosts]; rfl, Nat.le_of_eq retirements.symm, ?_⟩
  · rw [installed, retired]
    exact fun block there => ⟨block, there, rfl, rfl⟩
  · intro _ pa there
    rw [contains_iff] at there ⊢
    rwa [installed]

theorem refl (cache : Cache) : Kept [] cache cache := same rfl rfl rfl rfl rfl rfl

theorem trans (first : Kept [] cache middle) (second : Kept lent middle after) : Kept lent cache after := by
  refine ⟨?_, second.arena.trans first.arena, second.nextId.trans first.nextId, second.capacity.trans first.capacity, ?_,
    Nat.le_trans first.retirements second.retirements, ?_⟩
  · intro block there
    obtain ⟨between, here, id, host⟩ := second.blocks block there
    obtain ⟨old, before, id', host'⟩ := first.blocks between here
    exact ⟨old, before, id.trans id', host.trans host'⟩
  · intro i
    exact (second.shares i).trans (first.shares i)
  · intro same pa there
    have low := first.retirements
    have high := second.retirements
    exact second.stays (by omega) pa (first.stays (by omega) pa there)

end Kept

theorem Undisturbed.kept (same : Undisturbed cache after) : Kept [] cache after :=
  .same same.installed same.retired same.arena same.nextId same.extents same.retirements

theorem Removed.kept {why : Departure} (removed : Removed pa why block cache after)
    (keys : (cache.installed.map (·.entryPa)).Nodup) : Kept [] cache after := by
  refine ⟨?_, removed.arena, removed.nextId, by rw [removed.extents], ?_, by rw [removed.retirements]; omega, ?_⟩
  · rw [removed.installed, removed.retired]
    intro other there
    rcases List.mem_append.mp there with stayed | gone
    · exact ⟨other, List.mem_append_left _ (List.mem_filter.mp stayed).1, rfl, rfl⟩
    · rcases List.mem_append.mp gone with older | new
      · exact ⟨other, List.mem_append_right _ older, rfl, rfl⟩
      · cases List.mem_singleton.mp new
        exact ⟨block, List.mem_append_left _ (find_some removed.found).1, rfl, rfl⟩
  · intro i
    rw [removed.extents, cover_perm (removed.hosts keys)]
    rfl
  · rw [removed.retirements]
    omega

theorem Removed.keys {why : Departure} (removed : Removed pa why block cache after)
    (keys : (cache.installed.map (·.entryPa)).Nodup) : (after.installed.map (·.entryPa)).Nodup := by
  rw [removed.installed]
  exact keys.sublist (List.filter_sublist.map _)

theorem dropFrame_kept (keys : (cache.installed.map (·.entryPa)).Nodup) (f : Nat) : Kept [] cache (cache.dropFrame f).2 := by
  have cleared : Kept [] cache { cache with frames := cache.frames.clearEntries f } := .same rfl rfl rfl rfl rfl rfl
  have all := removeAll_keeps (P := fun after => (after.installed.map (·.entryPa)).Nodup ∧ Kept [] cache after)
    ⟨keys, cleared⟩ (fun before removed => ⟨removed.keys before.1, before.2.trans (removed.kept before.1)⟩)
    (cache.frames.entries f)
  unfold dropFrame
  dsimp only
  split
  · exact all.2.trans (Undisturbed.reported ..).kept
  · exact all.2

theorem markUsed_kept (cache : Cache) (id : Nat) : Kept [] cache (cache.markUsed id) := by
  have used : ∀ {blocks : List Block} {block : Block}, block ∈ useAt (cache.clock + 1) id blocks →
      ∃ old ∈ blocks, block.id = old.id ∧ block.host = old.host := by
    intro blocks block there
    obtain ⟨old, here, rfl⟩ := List.mem_map.mp there
    exact ⟨old, here, by split <;> rfl, by split <;> rfl⟩
  refine ⟨?_, rfl, rfl, rfl, ?_, Nat.le_refl _, ?_⟩
  · intro block there
    rcases List.mem_append.mp there with installed | retired
    · obtain ⟨old, here, same⟩ := used installed
      exact ⟨old, List.mem_append_left _ here, same⟩
    · obtain ⟨old, here, same⟩ := used retired
      exact ⟨old, List.mem_append_right _ here, same⟩
  · intro i
    rw [cover_perm (markUsed_sheds cache id).hosts]
    rfl
  · intro _ pa there
    have keys : (cache.markUsed id).installed.map (·.entryPa) = cache.installed.map (·.entryPa) :=
      useAt_map (fun _ _ => rfl) _ _ _
    rw [contains_iff] at there ⊢
    rwa [keys]

theorem recycle_kept {count : Nat} (orderly : cache.Orderly) (ran : recycle cache = .ok count after) :
    Kept [] cache after := by
  obtain ⟨kept, pool, recycled, rfl⟩ := recycle_parts ran
  obtain ⟨_, _, same, fewer, -, capacity, moved⟩ := orderly.recycled
  rw [recycled] at same
  cases same
  refine ⟨?_, rfl, rfl, capacity, ?_, Nat.le_refl _, fun _ _ there => there⟩
  · intro block there
    exact ⟨block, ((List.Sublist.refl _).append fewer).subset there, rfl, rfl⟩
  · intro i
    have here := moved i
    rw [cover_hosts, cover_hosts]
    show cover pool.free i + (cover (cache.installed.map (·.host)) i + cover (kept.map (·.host)) i) + 0 = _
    omega

theorem Cleared.kept (cleared : Cleared cache after) (orderly : cache.Orderly) : after.Orderly ∧ Kept [] cache after := by
  induction cleared with
  | start => exact ⟨orderly, .refl cache⟩
  | recycled _ ran ih =>
    obtain ⟨before, kept⟩ := ih
    exact ⟨((recycle_orderly before).answer ran).1, kept.trans (recycle_kept before ran)⟩
  | evicted _ found ih =>
    rename_i middle pa _
    obtain ⟨before, kept⟩ := ih
    have looked := before.sheds (victim_sheds middle)
    obtain ⟨gone, evicted⟩ := evict_sheds looked pa
    have searched : Kept [] middle (victim middle).2 := .same rfl rfl rfl rfl rfl rfl
    refine ⟨looked.sheds evicted, kept.trans (searched.trans ?_)⟩
    cases left : (victim middle).2.remove pa .evicted with
    | none => exact .refl _
    | some after =>
      obtain ⟨block, removed⟩ := remove_removed left
      exact removed.kept looked.keys
  | exhausted _ found ih =>
    obtain ⟨before, kept⟩ := ih
    exact ⟨before.sheds (.same rfl rfl rfl rfl rfl), kept.trans (.same rfl rfl rfl rfl rfl rfl)⟩

theorem Granted.lends {size : Nat} {extent : Extent} (granted : Granted cache size (.ok extent) after)
    (orderly : cache.Orderly) : after.Orderly ∧ Kept [extent] cache after ∧
      ∃ need, ExtentPool.rounded size = .ok need ∧ after.Reserved need extent := by
  cases granted with
  | given cleared took =>
    rename_i middle pool
    obtain ⟨before, kept⟩ := cleared.kept orderly
    obtain ⟨need, given, cut⟩ := ExtentPool.alloc_some took
    obtain ⟨orderly', -, reserved⟩ := take_reserved before given cut
    have units := ExtentPool.rounded_units given
    obtain ⟨-, capacity, -, -, parts⟩ := ExtentPool.take_wellFormed before.pool (by omega) (by omega) cut
    refine ⟨orderly', kept.trans ⟨(Kept.refl _).blocks, rfl, rfl, capacity, ?_, Nat.le_refl _, fun _ _ there => there⟩,
      need, given, reserved⟩
    intro i
    have here := parts i
    show cover pool.free i + cover middle.hosts i + _ = _
    omega

theorem Seated.orderly {code : HostCode} {data : List UInt8} {host : Extent} {need : Nat}
    (seated : Seated code data host cache block after) (orderly : cache.Orderly) (reserved : cache.Reserved need host) :
    after.Orderly := by
  obtain ⟨-, wrote, entered⟩ := seated
  cases Arena.write_eq wrote
  rw [entered.after]
  refine Orderly.enter ?_ entered.free entered.live ⟨reserved.whole, reserved.size, reserved.apart⟩
  exact ⟨orderly.keys, orderly.invalid, orderly.pool, orderly.apart, orderly.whole, orderly.room, orderly.live,
    orderly.listed⟩

theorem Published.orderly {code : HostCode} {answer : Except Refusal Block} (published : Published code cache answer after)
    (orderly : cache.Orderly) : after.Orderly := by
  cases published with
  | stale => exact orderly
  | occupied => exact orderly
  | refused _ _ cleared => exact (cleared.kept orderly).1
  | seated _ _ given seated =>
    obtain ⟨before, -, need, -, reserved⟩ := given.lends orderly
    exact seated.orderly before reserved

theorem framesWritten_kept (orderly : cache.Orderly) (fetch : Option Nat) (fs : List Nat) :
    Kept [] cache (cache.framesWritten fetch fs).2 := by
  induction fs generalizing cache with
  | nil => exact .refl cache
  | cons f rest ih =>
    have written : Kept [] (cache.dropFrame f).2 (cache.frameWritten fetch f).2 := .same rfl rfl rfl rfl rfl rfl
    exact ((dropFrame_kept orderly.keys f).trans written).trans (ih (frameWritten_orderly orderly fetch f).1)

theorem Effect.orderly {deed : Deed} (effect : cache.Effect deed after) (whole : deed.Whole) (orderly : cache.Orderly) :
    after.Orderly := by
  cases effect with
  | undisturbed same => exact orderly.sheds same.sheds
  | used id => exact orderly.sheds (markUsed_sheds cache id)
  | dropped f => exact orderly.sheds (dropFrame_sheds orderly.keys f)
  | recycled ran => exact ((recycle_orderly orderly).answer ran).1
  | published published => exact published.orderly orderly
  | filled filled =>
    cases filled with
    | refused cleared => exact (cleared.kept orderly).1
    | seated _ given seated =>
      obtain ⟨before, -, need, -, reserved⟩ := given.lends orderly
      exact seated.orderly before reserved
  | reserved granted =>
    cases granted with
    | given cleared took => exact (Granted.lends (.given cleared took) orderly).1
    | refused cleared => exact (cleared.kept orderly).1
  | placed => exact whole.elim
  | seated => exact whole.elim
  | stored same => exact (framesWritten_orderly orderly _ _).1.sheds same.sheds

end Cache
end TieredHart
