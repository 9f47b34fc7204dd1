import TieredHart.Proofs.CacheSteps
import TieredHart.Proofs.Extents

namespace TieredHart

open ExtentPool (cover cover_cons cover_append cover_perm)

structure Block.Like (block other : Block) : Prop where
  entryPa : block.entryPa = other.entryPa
  guestLen : block.guestLen = other.guestLen
  host : block.host = other.host
  stamp : block.stamp = other.stamp

theorem Block.Like.refl (block : Block) : block.Like block := ⟨rfl, rfl, rfl, rfl⟩

theorem Block.Like.trans {a b c : Block} (first : a.Like b) (second : b.Like c) : a.Like c :=
  ⟨first.entryPa.trans second.entryPa, first.guestLen.trans second.guestLen, first.host.trans second.host,
    first.stamp.trans second.stamp⟩

namespace Cache

def hosts (cache : Cache) : List Extent := (cache.installed ++ cache.retired).map (·.host)

-- One block per address, every tracked frame of its stamp lists it, and no version moved since. Extents of blocks and
-- free ones are apart.
structure Orderly (cache : Cache) : Prop where
  keys : (cache.installed.map (·.entryPa)).Nodup
  invalid : ∀ block ∈ cache.retired, block.valid = false
  pool : cache.extents.WellFormed
  apart : ∀ i, cover cache.extents.free i + cover cache.hosts i ≤ 1
  whole : ∀ host ∈ cache.hosts, host.Whole cache.extents.capacity
  room : cache.extents.capacity ≤ cache.arena.capacity ∧ cache.arena.capacity < hostLimit
  live : ∀ block ∈ cache.installed, ∀ page ∈ block.stamp.pages, cache.frames.version page.frame = page.version
  listed : ∀ block ∈ cache.installed, ∀ page ∈ block.stamp.pages, cache.frames.covers page.frame = true →
    block.entryPa ∈ cache.frames.entries page.frame

structure Within (cache cache' : Cache) : Prop where
  installed : ∀ block ∈ cache'.installed, ∃ old ∈ cache.installed, block.Like old
  frames : cache.frames.Alike cache'.frames
  arena : cache'.arena = cache.arena
  capacity : cache'.extents.capacity = cache.extents.capacity

-- The blocks at some addresses are gone from the map, and stay in none of the lists kept for frames. What they occupy is
-- still theirs.
structure Sheds (gone : List Nat) (cache cache' : Cache) : Prop extends Within cache cache' where
  keys : (cache'.installed.map (·.entryPa)).Sublist (cache.installed.map (·.entryPa))
  absent : ∀ block ∈ cache'.installed, block.entryPa ∉ gone
  invalid : (∀ block ∈ cache.retired, block.valid = false) → ∀ block ∈ cache'.retired, block.valid = false
  hosts : cache'.hosts.Perm cache.hosts
  extents : cache'.extents = cache.extents
  entries : ∀ f, ∀ pa ∈ cache.frames.entries f, pa ∉ gone → pa ∈ cache'.frames.entries f

variable {cache cache' cache'' : Cache} {gone gone' : List Nat} {pa : Nat}

namespace Within

theorem refl (cache : Cache) : Within cache cache := ⟨fun block member => ⟨block, member, .refl block⟩, .refl _, rfl, rfl⟩

theorem trans (first : Within cache cache') (second : Within cache' cache'') : Within cache cache'' := by
  refine ⟨?_, first.frames.trans second.frames, second.arena.trans first.arena, second.capacity.trans first.capacity⟩
  intro block member
  obtain ⟨middle, there, like⟩ := second.installed block member
  obtain ⟨old, here, alike⟩ := first.installed middle there
  exact ⟨old, here, like.trans alike⟩

theorem contains (inside : Within cache cache') (free : cache.contains pa = false) : cache'.contains pa = false := by
  unfold Cache.contains find? at *
  rw [Option.isSome_eq_false_iff, Option.isNone_iff_eq_none, List.find?_eq_none] at *
  intro block member
  obtain ⟨old, there, like⟩ := inside.installed block member
  rw [like.entryPa]
  exact free old there

end Within

namespace Sheds

theorem trans (first : Sheds gone cache cache') (second : Sheds gone' cache' cache'') :
    Sheds (gone ++ gone') cache cache'' := by
  refine ⟨first.toWithin.trans second.toWithin, second.keys.trans first.keys, ?_,
    fun all => second.invalid (first.invalid all), second.hosts.trans first.hosts, second.extents.trans first.extents, ?_⟩
  · intro block member
    obtain ⟨middle, there, like⟩ := second.installed block member
    have left := first.absent middle there
    have right := second.absent block member
    rw [← like.entryPa] at left
    simp [left, right]
  · intro f pa member away
    rw [List.mem_append, not_or] at away
    exact second.entries f pa (first.entries f pa member away.1) away.2

theorem followed (first : Sheds gone cache cache') (second : Sheds [] cache' cache'') : Sheds gone cache cache'' := by
  have both := first.trans second
  rwa [List.append_nil] at both

theorem reframed (alike : cache.frames.Alike cache'.frames)
    (entries : ∀ f, ∀ pa ∈ cache.frames.entries f, pa ∈ cache'.frames.entries f)
    (installed : cache'.installed = cache.installed) (retired : cache'.retired = cache.retired)
    (extents : cache'.extents = cache.extents) (arena : cache'.arena = cache.arena) : Sheds [] cache cache' := by
  refine ⟨⟨?_, alike, arena, by rw [extents]⟩, by simp only [installed, List.Sublist.refl], fun _ _ => List.not_mem_nil,
    by rw [retired]; exact id, ?_, extents, fun f pa member _ => entries f pa member⟩
  · rw [installed]
    exact fun block member => ⟨block, member, .refl block⟩
  · unfold Cache.hosts
    rw [installed, retired]

theorem same (frames : cache'.frames = cache.frames) (installed : cache'.installed = cache.installed)
    (retired : cache'.retired = cache.retired) (extents : cache'.extents = cache.extents)
    (arena : cache'.arena = cache.arena) : Sheds [] cache cache' :=
  .reframed (by rw [frames]; exact .refl _) (by rw [frames]; exact fun _ _ => id) installed retired extents arena

end Sheds

theorem Orderly.sheds (orderly : cache.Orderly) (sheds : Sheds gone cache cache') : cache'.Orderly := by
  refine ⟨orderly.keys.sublist sheds.keys, sheds.invalid orderly.invalid, by rw [sheds.extents]; exact orderly.pool, ?_,
    ?_, ?_, ?_, ?_⟩
  · intro i
    rw [sheds.extents, cover_perm sheds.hosts]
    exact orderly.apart i
  · intro host member
    rw [sheds.extents]
    exact orderly.whole host (sheds.hosts.mem_iff.mp member)
  · rw [sheds.extents, sheds.arena]
    exact orderly.room
  · intro block member page stamped
    obtain ⟨old, there, like⟩ := sheds.installed block member
    rw [like.stamp] at stamped
    rw [sheds.frames.version]
    exact orderly.live old there page stamped
  · intro block member page stamped covered
    obtain ⟨old, there, like⟩ := sheds.installed block member
    have away := sheds.absent block member
    rw [like.stamp] at stamped
    rw [sheds.toWithin.frames.covers] at covered
    rw [like.entryPa] at away ⊢
    exact sheds.entries _ _ (orderly.listed old there page stamped covered) away

theorem entries_unregisterAll {frames : FrameTable} {f other : Nat} (fs : List Nat) (member : other ∈ frames.entries f)
    (differs : other ≠ pa) : other ∈ (fs.foldl (·.unregister pa ·) frames).entries f := by
  induction fs generalizing frames with
  | nil => exact member
  | cons g rest ih =>
    refine ih ?_
    rw [FrameTable.entries_unregister]
    split
    · exact List.mem_filter.mpr ⟨member, by simpa using differs⟩
    · exact member

theorem find_perm {blocks : List Block} {block : Block} (keys : (blocks.map (·.entryPa)).Nodup)
    (found : blocks.find? (·.entryPa = pa) = some block) :
    blocks.Perm (block :: blocks.filter (·.entryPa ≠ pa)) := by
  induction blocks with
  | nil => cases found
  | cons other rest ih =>
    obtain ⟨fresh, keys⟩ := List.nodup_cons.mp keys
    by_cases here : other.entryPa = pa
    · rw [List.find?_cons_of_pos (by simpa using here)] at found
      cases found
      rw [List.filter_cons_of_neg (by simpa using here)]
      refine .cons _ (.of_eq (List.filter_eq_self.mpr ?_).symm)
      intro later member
      have apart : later.entryPa ≠ pa := fun same => fresh (List.mem_map.mpr ⟨later, member, same.trans here.symm⟩)
      simpa using apart
    · rw [List.find?_cons_of_neg (by simpa using here)] at found
      rw [List.filter_cons_of_pos (by simpa using here)]
      exact ((ih keys found).cons other).trans (.swap block other _)

theorem Removed.hosts {why : Departure} {block : Block} (removed : Removed pa why block cache cache')
    (keys : (cache.installed.map (·.entryPa)).Nodup) : cache'.hosts.Perm cache.hosts := by
  have whole := ((find_perm keys removed.found).map (·.host)).symm.append_right (cache.retired.map (·.host))
  unfold Cache.hosts
  rw [removed.installed, removed.retired]
  simp only [List.map_append, List.map_cons, List.map_nil] at whole ⊢
  rw [← List.append_assoc]
  exact (List.perm_append_singleton _ _).trans whole

theorem remove_sheds (keys : (cache.installed.map (·.entryPa)).Nodup) {why : Departure}
    (left : cache.remove pa why = some cache') : Sheds [pa] cache cache' := by
  obtain ⟨block, removed⟩ := remove_removed left
  refine ⟨⟨?_, ?_, removed.arena, by rw [removed.extents]⟩, ?_, ?_, ?_, removed.hosts keys, removed.extents, ?_⟩
  · rw [removed.installed]
    exact fun other member => ⟨other, (List.mem_filter.mp member).1, .refl other⟩
  · rw [removed.frames]
    exact .foldl (fun frames f => .unregister pa f) _
  · rw [removed.installed]
    exact List.filter_sublist.map _
  · rw [removed.installed]
    intro other member
    simpa using (List.mem_filter.mp member).2
  · rw [removed.retired]
    intro all other member
    rcases List.mem_append.mp member with before | new
    · exact all other before
    · cases List.mem_singleton.mp new
      rfl
  · rw [removed.frames]
    intro f other member away
    exact entries_unregisterAll _ member (by simpa using away)

theorem remove_none {why : Departure} (refused : cache.remove pa why = none) : cache.contains pa = false := by
  unfold remove at refused
  unfold contains
  cases found : cache.find? pa with
  | none => rfl
  | some block => rw [found] at refused; cases refused

theorem Sheds.also (sheds : Sheds gone cache cache') (free : cache.contains pa = false) :
    Sheds (pa :: gone) cache cache' := by
  refine { sheds with absent := ?_, entries := ?_ }
  · intro block member here
    rcases List.mem_cons.mp here with same | other
    · unfold contains find? at free
      rw [Option.isSome_eq_false_iff, Option.isNone_iff_eq_none, List.find?_eq_none] at free
      obtain ⟨old, there, like⟩ := sheds.installed block member
      exact free old there (by simpa [like.entryPa] using same)
    · exact sheds.absent block member other
  · intro f other member away
    exact sheds.entries f other member fun later => away (List.mem_cons_of_mem _ later)

theorem removeAll_sheds (cache : Cache) (keys : (cache.installed.map (·.entryPa)).Nodup) (pas : List Nat) :
    Sheds pas cache (cache.removeAll pas).2 := by
  induction pas generalizing cache with
  | nil => exact .same rfl rfl rfl rfl rfl
  | cons pa rest ih =>
    unfold removeAll
    cases removed : cache.remove pa .invalidated with
    | none => exact (ih cache keys).also (remove_none removed)
    | some after =>
      have one := remove_sheds keys removed
      exact one.trans (ih after (keys.sublist one.keys))

theorem dropFrame_sheds (keys : (cache.installed.map (·.entryPa)).Nodup) (f : Nat) :
    Sheds (cache.frames.entries f) cache (cache.dropFrame f).2 := by
  have cleared := removeAll_sheds { cache with frames := cache.frames.clearEntries f } keys (cache.frames.entries f)
  have shed : Sheds (cache.frames.entries f) cache
      (removeAll { cache with frames := cache.frames.clearEntries f } (cache.frames.entries f)).2 := by
    refine { cleared with frames := (FrameTable.Alike.clearEntries f).trans cleared.frames, entries := ?_ }
    intro g pa member away
    refine cleared.entries g pa ?_ away
    simp only [FrameTable.entries_clearEntries]
    split
    · rename_i here
      rw [here.1] at member
      exact absurd member away
    · exact member
  unfold dropFrame
  dsimp only
  split
  · exact shed.followed (.same rfl rfl rfl rfl rfl)
  · exact shed

theorem useAt_like {tick id : Nat} {blocks : List Block} {block : Block} (member : block ∈ useAt tick id blocks) :
    ∃ old ∈ blocks, block.Like old ∧ block.valid = old.valid := by
  obtain ⟨old, there, rfl⟩ := List.mem_map.mp member
  refine ⟨old, there, ?_⟩
  split
  · exact ⟨⟨rfl, rfl, rfl, rfl⟩, rfl⟩
  · exact ⟨.refl old, rfl⟩

theorem useAt_map {β : Type} {view : Block → β} (blind : ∀ block tick, view { block with lastUsed := tick } = view block)
    (tick id : Nat) (blocks : List Block) : (useAt tick id blocks).map view = blocks.map view := by
  unfold useAt
  rw [List.map_map]
  refine List.map_congr_left fun block _ => ?_
  simp only [Function.comp]
  split
  · exact blind block tick
  · rfl

theorem markUsed_sheds (cache : Cache) (id : Nat) : Sheds [] cache (cache.markUsed id) := by
  refine ⟨⟨?_, .refl _, rfl, rfl⟩, ?_, fun _ _ => List.not_mem_nil, ?_, ?_, rfl, fun _ _ member _ => member⟩
  · intro block member
    obtain ⟨old, there, like, -⟩ := useAt_like member
    exact ⟨old, there, like⟩
  · have keys : (useAt (cache.clock + 1) id cache.installed).map (·.entryPa) = cache.installed.map (·.entryPa) :=
      useAt_map (fun _ _ => rfl) _ _ _
    exact keys ▸ List.Sublist.refl _
  · intro all block member
    obtain ⟨old, there, -, same⟩ := useAt_like member
    rw [same, all old there]
  · refine .of_eq ?_
    unfold hosts
    rw [List.map_append, List.map_append]
    exact congr (congrArg _ (useAt_map (fun _ _ => rfl) ..)) (useAt_map (fun _ _ => rfl) ..)

theorem lookup_sheds (cache : Cache) (pa : Nat) : Sheds [] cache (cache.lookup pa).2 := by
  unfold lookup
  split <;> exact .same rfl rfl rfl rfl rfl

theorem cover_hosts (cache : Cache) (i : Nat) :
    cover cache.hosts i = cover (cache.installed.map (·.host)) i + cover (cache.retired.map (·.host)) i := by
  unfold hosts
  rw [List.map_append, cover_append]

theorem recycleFrom_ok (inUse : Nat → Bool) {blocks : List Block} {pool : ExtentPool} (sound : pool.WellFormed)
    (bounded : pool.capacity < hostLimit) (whole : ∀ block ∈ blocks, block.host.Whole pool.capacity)
    (apart : ∀ i, cover pool.free i + cover (blocks.map (·.host)) i ≤ 1) :
    ∃ kept after, recycleFrom inUse blocks pool = .ok (kept, after) ∧ kept.Sublist blocks ∧ after.WellFormed ∧
      after.capacity = pool.capacity ∧
      ∀ i, cover after.free i + cover (kept.map (·.host)) i = cover pool.free i + cover (blocks.map (·.host)) i := by
  induction blocks generalizing pool with
  | nil => exact ⟨[], pool, rfl, .refl _, sound, rfl, fun _ => rfl⟩
  | cons block rest ih =>
    have wholeRest := fun other member => whole other (List.mem_cons_of_mem _ member)
    simp only [List.map_cons] at apart ⊢
    unfold recycleFrom
    by_cases used : inUse block.id = true
    · have apartRest : ∀ i, cover pool.free i + cover (rest.map (·.host)) i ≤ 1 := by
        intro i
        have both := apart i
        rw [cover_cons] at both
        omega
      obtain ⟨kept, after, ran, fewer, sound', capacity, same⟩ := ih sound bounded wholeRest apartRest
      refine ⟨block :: kept, after, ?_, fewer.cons_cons block, sound', capacity, ?_⟩
      · rw [if_pos used, ran]
        rfl
      · intro i
        have here := same i
        rw [List.map_cons, cover_cons block.host (kept.map _), cover_cons block.host (rest.map _)]
        omega
    · have apartHere : ∀ i, cover pool.free i + cover [block.host] i ≤ 1 := by
        intro i
        have both := apart i
        rw [cover_cons] at both
        omega
      obtain ⟨middle, released, sound', capacity, gained⟩ :=
        ExtentPool.release_ok sound bounded (whole block (List.mem_cons_self ..)) apartHere
      have apartRest : ∀ i, cover middle.free i + cover (rest.map (·.host)) i ≤ 1 := by
        intro i
        have both := apart i
        rw [cover_cons] at both
        rw [gained]
        omega
      obtain ⟨kept, after, ran, fewer, sound'', capacity', same⟩ :=
        ih sound' (by omega) (by rw [capacity]; exact wholeRest) apartRest
      refine ⟨kept, after, ?_, fewer.cons block, sound'', capacity'.trans capacity, ?_⟩
      · rw [if_neg used, released]
        exact ran
      · intro i
        have here := same i
        rw [gained] at here
        rw [cover_cons block.host]
        omega

theorem Orderly.recycled (orderly : cache.Orderly) : ∃ kept pool,
    recycleFrom cache.inUse cache.retired cache.extents = .ok (kept, pool) ∧ kept.Sublist cache.retired ∧
      pool.WellFormed ∧ pool.capacity = cache.extents.capacity ∧
      ∀ i, cover pool.free i + cover (kept.map (·.host)) i =
        cover cache.extents.free i + cover (cache.retired.map (·.host)) i := by
  have room := orderly.room
  refine recycleFrom_ok cache.inUse orderly.pool (Nat.lt_of_le_of_lt room.1 room.2) ?_ ?_
  · exact fun block member => orderly.whole _ (List.mem_map.mpr ⟨block, List.mem_append_right _ member, rfl⟩)
  · intro i
    have all := orderly.apart i
    rw [cover_hosts] at all
    omega

theorem recycle_orderly (orderly : cache.Orderly) :
    Ends recycle cache (fun _ after => after.Orderly ∧ Within cache after) fun _ _ => False := by
  obtain ⟨kept, pool, ran, fewer, sound, capacity, same⟩ := orderly.recycled
  unfold recycle
  rw [ends_bind, ends_get, ends_bind, ran, ends_ofExcept_ok, ends_bind, ends_set]
  refine ⟨⟨orderly.keys, fun block member => orderly.invalid block (fewer.subset member), sound, ?_, ?_, ?_, orderly.live,
    orderly.listed⟩, ⟨(Within.refl cache).installed, .refl _, rfl, capacity⟩⟩
  · intro i
    have all := orderly.apart i
    have moved := same i
    rw [cover_hosts] at all ⊢
    dsimp only
    omega
  · intro host member
    obtain ⟨block, there, rfl⟩ := List.mem_map.mp member
    rw [capacity]
    refine orderly.whole _ (List.mem_map.mpr ⟨block, ?_, rfl⟩)
    rcases List.mem_append.mp there with inside | outside
    · exact List.mem_append_left _ inside
    · exact List.mem_append_right _ (fewer.subset outside)
  · rw [capacity]
    exact orderly.room

end Cache
end TieredHart
