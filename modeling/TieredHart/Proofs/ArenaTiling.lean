import TieredHart.Proofs.IndexAgreement
import TieredHart.Proofs.Tenancy

namespace TieredHart

open ExtentPool (cover cover_cons cover_append)

structure Extent.Tiling (capacity : Nat) (extents : List Extent) : Prop where
  nonempty : ∀ extent ∈ extents, 0 < extent.size
  inside : ∀ extent ∈ extents, extent.stop ≤ capacity
  apart : extents.Pairwise fun a b => a.stop ≤ b.start ∨ b.stop ≤ a.start
  filled : ∀ i < capacity, ∃ extent ∈ extents, extent.start ≤ i ∧ i < extent.stop

namespace ExtentPool

variable {extents : List Extent} {capacity : Nat}

theorem apart_all (sized : ∀ extent ∈ extents, 0 < extent.size) (once : ∀ i, cover extents i ≤ 1) :
    extents.Pairwise fun a b => a.stop ≤ b.start ∨ b.stop ≤ a.start := by
  induction extents with
  | nil => exact .nil
  | cons extent rest ih =>
    have later : ∀ i, cover rest i ≤ 1 := by
      intro i
      have all := once i
      rw [cover_cons] at all
      omega
    refine .cons ?_ (ih (fun other there => sized other (List.mem_cons_of_mem _ there)) later)
    intro other there
    refine apart_of_cover ?_ (sized extent (List.mem_cons_self ..)) (sized other (List.mem_cons_of_mem _ there))
    intro i
    have all := once i
    have part : cover [other] i ≤ cover rest i := cover_mem there
    rw [cover_cons] at all
    omega

theorem tiling_of_cover (whole : ∀ extent ∈ extents, extent.Whole capacity)
    (once : ∀ i, cover extents i = if i < capacity then 1 else 0) : Extent.Tiling capacity extents := by
  refine ⟨fun extent there => (whole extent there).nonempty, fun extent there => (whole extent there).inside, ?_, ?_⟩
  · refine apart_all (fun extent there => (whole extent there).nonempty) fun i => ?_
    rw [once]
    split <;> omega
  · intro i below
    have here := once i
    rw [if_pos below] at here
    have positive : 0 < cover extents i := by omega
    obtain ⟨extent, there, holds⟩ := List.countP_pos_iff.mp positive
    exact ⟨extent, there, by simpa using holds⟩

theorem cover_ofCapacity (capacity i : Nat) :
    cover (ofCapacity capacity).free i = if i < (ofCapacity capacity).capacity then 1 else 0 := by
  unfold ofCapacity
  dsimp only
  split
  · rename_i zero
    rw [zero]
    rfl
  · rw [cover_single_eq]
    simp [Extent.stop]

end ExtentPool

namespace Cache

variable {cache middle after : Cache} {deeds : List Deed} {deed : Deed} {code : HostCode} {block : Block} {extent : Extent}
  {capacity : Nat}

-- Everything of the arena has one owner, and a block still has the code that it was published with.
structure Housed (capacity : Nat) (deeds : List Deed) (cache : Cache) : Prop where
  orderly : cache.Orderly
  pooled : cache.extents.capacity = capacity
  shares : ∀ i, cover cache.extents.free i + cover cache.hosts i = if i < capacity then 1 else 0
  numbered : ∀ code given, Deed.published code (.ok given) ∈ deeds → given.id < cache.nextId
  published : ∀ block ∈ cache.installed ++ cache.retired, ∃ code given,
    Deed.published code (.ok given) ∈ deeds ∧ given.id = block.id
  coded : ∀ block ∈ cache.installed ++ cache.retired, ∀ code given, Deed.published code (.ok given) ∈ deeds →
    given.id = block.id → cache.arena.readBytes block.host.start block.host.stop = code.code

theorem ofArena_housed {host : Host} {size : Nat} {arena : Arena} (mapped : Arena.map? size host = .ok (some arena))
    (base pages threshold : Nat) :
    (ofArena arena base pages threshold).Housed arena.capacity [] := by
  obtain ⟨bounded, paged⟩ := Engine.map_whole mapped
  have sound := Engine.ofArena_sound bounded ⟨0, #[], rfl⟩ base pages threshold
  have whole : (ExtentPool.ofCapacity arena.capacity).capacity = arena.capacity := by
    show arena.capacity / 16 * 16 = arena.capacity
    omega
  have shares := ExtentPool.cover_ofCapacity arena.capacity
  rw [whole] at shares
  refine ⟨sound.toOrderly, whole, shares, ?_, ?_, ?_⟩
  · exact fun _ _ there => absurd there List.not_mem_nil
  · exact fun _ there => absurd there List.not_mem_nil
  · exact fun _ there => absurd there List.not_mem_nil

theorem Housed.kept (housed : cache.Housed capacity deeds) (kept : Kept [] cache after) (orderly : after.Orderly)
    (nothing : deed.installs = false) : after.Housed capacity (deeds ++ [deed]) := by
  have past : ∀ {code given}, Deed.published code (.ok given) ∈ deeds ++ [deed] →
      Deed.published code (.ok given) ∈ deeds := by
    intro code given there
    rcases List.mem_append.mp there with old | new
    · exact old
    · rw [← List.mem_singleton.mp new] at nothing
      cases nothing
  refine ⟨orderly, kept.capacity.trans housed.pooled, ?_, ?_, ?_, ?_⟩
  · intro i
    rw [← housed.shares i]
    exact kept.shares i
  · intro code given there
    rw [kept.nextId]
    exact housed.numbered code given (past there)
  · intro block there
    obtain ⟨old, here, id, -⟩ := kept.blocks block there
    obtain ⟨code, given, offered, same⟩ := housed.published old here
    exact ⟨code, given, List.mem_append_left _ offered, same.trans id.symm⟩
  · intro block there code given offered same
    obtain ⟨old, here, id, host⟩ := kept.blocks block there
    rw [kept.arena, host]
    exact housed.coded old here code given (past offered) (same.trans id)

theorem Housed.seated (housed : cache.Housed capacity deeds) (compiled : code.Compiled)
    (given : Granted cache code.code.size (.ok extent) middle)
    (seated : Seated code code.code.toList extent middle block after) :
    after.Housed capacity (deeds ++ [.published code (.ok block)]) := by
  obtain ⟨orderly, kept, need, rounded, reserved⟩ := given.lends housed.orderly
  have settled := seated.orderly orderly reserved
  obtain ⟨fits, wrote, entered⟩ := seated
  cases Arena.write_eq wrote
  have number : block.id = cache.nextId := by
    rw [entered.block, ← kept.nextId]
    rfl
  -- Code is made of whole records, so it fills its extent.
  have tight : extent.stop = extent.start + code.code.toList.length := by
    have units := ExtentPool.rounded_units rounded
    have size := compiled.size
    unfold Extent.stop
    rw [reserved.size, Array.length_toList]
    omega
  have stands : ∀ other ∈ middle.installed ++ middle.retired,
      after.arena.readBytes other.host.start other.host.stop = cache.arena.readBytes other.host.start other.host.stop := by
    intro other there
    rw [entered.after, ← kept.arena]
    exact orderly.readBytes_placed reserved fits (List.mem_map.mpr ⟨other, there, rfl⟩)
  have members : ∀ other ∈ after.installed ++ after.retired, other = block ∨ other ∈ middle.installed ++ middle.retired := by
    rw [entered.after, entered.block]
    exact fun other there => List.mem_cons.mp there
  have older : ∀ other ∈ middle.installed ++ middle.retired, other.id < cache.nextId := by
    intro other there
    obtain ⟨old, here, id, -⟩ := kept.blocks other there
    obtain ⟨code, given, offered, same⟩ := housed.published old here
    have below := housed.numbered code given offered
    omega
  have offers : ∀ {other given}, Deed.published other (.ok given) ∈ deeds ++ [Deed.published code (.ok block)] →
      Deed.published other (.ok given) ∈ deeds ∧ given.id < cache.nextId ∨ other = code ∧ given = block := by
    intro other given there
    rcases List.mem_append.mp there with old | new
    · exact .inl ⟨old, housed.numbered other given old⟩
    · cases List.mem_singleton.mp new
      exact .inr ⟨rfl, rfl⟩
  refine ⟨settled, ?_, ?_, ?_, ?_, ?_⟩
  · rw [entered.after]
    exact kept.capacity.trans housed.pooled
  · intro i
    have before := housed.shares i
    have lent := kept.shares i
    rw [entered.after]
    show cover middle.extents.free i + cover (extent :: middle.hosts) i = _
    rw [cover_cons]
    omega
  · intro other given offered
    rw [entered.after]
    show given.id < middle.nextId + 1
    rw [kept.nextId]
    rcases offers offered with ⟨-, below⟩ | ⟨-, rfl⟩ <;> omega
  · intro other there
    rcases members other there with rfl | old
    · exact ⟨code, other, List.mem_append_right _ (List.mem_singleton.mpr rfl), rfl⟩
    · obtain ⟨before, here, id, -⟩ := kept.blocks other old
      obtain ⟨code, given, offered, same⟩ := housed.published before here
      exact ⟨code, given, List.mem_append_left _ offered, same.trans id.symm⟩
  · intro other there source given offered same
    rcases members other there with rfl | old
    · rcases offers offered with ⟨-, below⟩ | ⟨rfl, rfl⟩
      · omega
      · rw [entered.after, entered.block]
        exact (Arena.readBytes_written tight).trans Array.toArray_toList
    · have below := older other old
      rcases offers offered with ⟨earlier, -⟩ | ⟨-, rfl⟩
      · obtain ⟨before, here, id, host⟩ := kept.blocks other old
        rw [stands other old, host]
        exact housed.coded before here source given earlier (same.trans id)
      · omega

theorem Effect.housed (effect : cache.Effect deed after) (regular : deed.Regular) (housed : cache.Housed capacity deeds) :
    after.Housed capacity (deeds ++ [deed]) := by
  have whole : deed.Whole := by cases deed <;> first | exact regular.elim | trivial
  have orderly := effect.orderly whole housed.orderly
  cases effect with
  | undisturbed same => exact housed.kept same.kept orderly rfl
  | used id => exact housed.kept (markUsed_kept cache id) orderly rfl
  | dropped f => exact housed.kept (dropFrame_kept housed.orderly.keys f) orderly rfl
  | recycled ran => exact housed.kept (recycle_kept housed.orderly ran) orderly rfl
  | published published =>
    cases published with
    | stale => exact housed.kept (.refl cache) orderly rfl
    | occupied => exact housed.kept (.refl cache) orderly rfl
    | refused _ _ cleared => exact housed.kept (cleared.kept housed.orderly).2 orderly rfl
    | seated _ _ given seated => exact housed.seated regular given seated
  | filled => exact regular.elim
  | reserved => exact regular.elim
  | placed => exact regular.elim
  | seated => exact regular.elim
  | stored same => exact housed.kept ((framesWritten_kept housed.orderly _ _).trans same.kept) orderly rfl

structure Accounted (deeds : List Deed) (capacity : Nat) (cache : Cache) : Prop where
  tiling : Extent.Tiling capacity (cache.extents.free ++ cache.hosts)
  published : ∀ block ∈ cache.installed ++ cache.retired, ∃ code given,
    Deed.published code (.ok given) ∈ deeds ∧ given.id = block.id
  code : ∀ block ∈ cache.installed ++ cache.retired, ∀ code given, Deed.published code (.ok given) ∈ deeds →
    given.id = block.id → cache.code block = .ok code.code

theorem Housed.accounted (housed : cache.Housed capacity deeds) : cache.Accounted deeds capacity := by
  have orderly := housed.orderly
  have size := housed.pooled
  refine ⟨ExtentPool.tiling_of_cover ?_ ?_, housed.published, ?_⟩
  · intro extent there
    rcases List.mem_append.mp there with free | held
    · exact size ▸ orderly.pool.whole extent free
    · exact size ▸ orderly.whole extent held
  · intro i
    rw [cover_append]
    exact housed.shares i
  · intro block there code given offered same
    have inside := (orderly.whole block.host (List.mem_map.mpr ⟨block, there, rfl⟩)).inside
    have room := orderly.room.1
    unfold Cache.code Arena.code
    rw [if_pos ⟨Nat.le_add_right .., by omega⟩, housed.coded block there code given offered same]

end Cache

namespace Engine

variable {start final : Engine} {past deeds : List Deed} {capacity : Nat}

theorem History.housed (history : History start deeds final) (regular : ∀ deed ∈ deeds, deed.Regular)
    (housed : start.cache.Housed capacity past) : final.cache.Housed capacity (past ++ deeds) := by
  induction history generalizing past with
  | nil => rwa [List.append_nil]
  | cons does _ ih =>
    have first := does.effect.housed (regular _ (List.mem_cons_self ..)) housed
    have rest := ih (fun deed there => regular deed (List.mem_cons_of_mem _ there)) first
    rwa [List.append_assoc] at rest

-- Nothing of the arena is lost and no live code overwritten, whatever is compiled, stored and let go of.
theorem History.arena_accounted {size base pages threshold : Nat} {arena : Arena} {journal : Array Event}
    {host : Host} (mapped : Arena.map? size host = .ok (some arena))
    (fresh : start.cache = { Cache.ofArena arena base pages threshold with journal := journal })
    (history : History start deeds final) (regular : ∀ deed ∈ deeds, deed.Regular) :
    final.cache.Accounted deeds arena.capacity := by
  have empty := Cache.ofArena_housed mapped base pages threshold
  have housed : start.cache.Housed arena.capacity [] := by
    rw [fresh]
    exact ⟨empty.orderly.sheds (.same rfl rfl rfl rfl rfl), empty.pooled, empty.shares, empty.numbered, empty.published,
      empty.coded⟩
  exact (history.housed regular housed).accounted

theorem pageEndLoop_arena_accounted : ∃ size arena base pages threshold journal start deeds final,
    Arena.map? size = .ok (some arena) ∧
    start.cache = { Cache.ofArena arena base pages threshold with journal := journal } ∧ History start deeds final ∧
    (∀ deed ∈ deeds, deed.Regular) ∧ final.cache.installed.length = 1 ∧ final.cache.retired.length = 1 ∧
    final.cache.Accounted deeds arena.capacity := by
  obtain ⟨start, deeds, final, built, history, regular, installed, retired⟩ := pageEndLoop_history
  obtain ⟨arena, journal, mapped, fresh⟩ := setup_fresh built
  exact ⟨_, arena, _, _, _, journal, start, deeds, final, mapped, fresh, history, regular, installed, retired,
    history.arena_accounted mapped fresh regular⟩

end Engine
end TieredHart
