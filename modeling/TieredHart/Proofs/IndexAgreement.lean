import TieredHart.Proofs.Histories
import TieredHart.Proofs.NoStaleCode

namespace TieredHart

namespace Cache

variable {cache after : Cache} {deed : Deed}

theorem Effect.indexed (effect : cache.Effect deed after) (indexed : cache.Indexed) : after.Indexed := by
  cases effect with
  | undisturbed same => exact indexed.retuned same.toRetuned
  | used id => exact markUsed_indexed indexed id
  | dropped f => exact dropFrame_indexed indexed f
  | recycled ran => exact recycle_indexed indexed ran
  | published published => exact published.indexed indexed
  | filled filled => exact filled.indexed indexed
  | reserved granted => exact granted.indexed indexed
  | placed => exact placed_indexed indexed _
  | seated entered => exact entered.indexed indexed
  | stored same => exact (framesWritten_indexed indexed _ _).retuned same.toRetuned

structure Agreement (cache : Cache) : Prop where
  mapped : ∀ pa block, cache.find? pa = some block → block.entryPa = pa ∧ block.valid = true
  -- No block is hidden behind another one.
  reached : ∀ block ∈ cache.installed, cache.find? block.entryPa = some block
  retired : ∀ block ∈ cache.retired, block.valid = false ∧ ∀ pa other, cache.find? pa = some other → other.id ≠ block.id
  listed : ∀ f, cache.frames.covers f = true → ∀ pa, (cache.frames.entries f).count pa =
    match cache.find? pa with
    | some block => block.stamp.frames.count f
    | none => 0
  filed : ∀ pa, (Lru.tick? cache.filed pa).isSome = cache.contains pa
  filedOnce : (cache.filed.map (·.1)).Nodup
  order : ∀ tick pa, (tick, pa) ∈ cache.lru ↔ Lru.tick? cache.filed pa = some tick
  orderOnce : cache.lru.Nodup
  lags : ∀ pa tick block, Lru.tick? cache.filed pa = some tick → cache.find? pa = some block → tick ≤ block.lastUsed
  installs : cache.counts.installs =
    cache.installed.length + cache.counts.evictions + cache.counts.invalidations
  retirements : cache.retirements = cache.counts.evictions + cache.counts.invalidations

theorem Indexed.agreement (indexed : cache.Indexed) : cache.Agreement := by
  have ordered := indexed.ordered
  obtain ⟨filedOnce, orderOnce⟩ := ordered.distinct indexed.keys
  constructor
  · intro pa block found
    obtain ⟨member, entry⟩ := find_some found
    exact ⟨entry, indexed.valid block member⟩
  · exact fun block member => find_member indexed.keys member
  · intro block member
    refine ⟨indexed.invalid block member, ?_⟩
    intro pa other found same
    have numbers := indexed.numbers
    rw [List.map_append, List.nodup_append] at numbers
    exact numbers.2.2 other.id (List.mem_map.mpr ⟨other, (find_some found).1, rfl⟩) block.id
      (List.mem_map.mpr ⟨block, member, rfl⟩) same
  · intro f covered pa
    rw [indexed.listed f covered pa]
    cases cache.find? pa <;> rfl
  · intro pa
    rw [Bool.eq_iff_iff, Lru.tick_isSome, contains_iff]
    exact ordered.keys.mem_iff
  · exact filedOnce
  · intro tick pa
    rw [Lru.tick_some filedOnce, ordered.mem_iff]
    rfl
  · exact orderOnce
  · intro pa tick block filed found
    exact ordered.lags (pa, tick) ((Lru.tick_some filedOnce).mp filed) block found
  · exact indexed.installs
  · exact indexed.retirements

end Cache

namespace Engine

variable {start engine after final : Engine} {deeds : List Deed}

theorem History.indexed (history : History start deeds final) (indexed : start.cache.Indexed) : final.cache.Indexed := by
  induction history with
  | nil => exact indexed
  | cons does _ ih => exact ih (does.effect.indexed indexed)

-- Whatever is done with a cache that was empty at first, its indexes agree.
theorem History.indexes_agree {arena : Arena} {base pages threshold : Nat} {journal : Array Event}
    (fresh : start.cache = { Cache.ofArena arena base pages threshold with journal := journal })
    (history : History start deeds final) : final.cache.Agreement := by
  refine (history.indexed ?_).agreement
  rw [fresh]
  exact (Cache.ofArena_indexed arena base pages threshold).retuned
    (Cache.Undisturbed.booked _ [] journal rfl rfl rfl).toRetuned

theorem setup_fresh {config : Config} {ram : Ram} {host : Host} (built : setup config ram host = .ok (.ok engine)) :
    ∃ arena journal, Arena.map? config.codeArenaSize host = .ok (some arena) ∧ engine.cache =
      { Cache.ofArena arena ram.baseFrame ram.pages config.promotionThreshold with journal := journal } := by
  obtain ⟨arena, event, mapped, -, -, -, cache⟩ := setup_parts built
  exact ⟨arena, _, mapped, cache⟩

theorem setup_indexed {config : Config} {ram : Ram} {host : Host} (built : setup config ram host = .ok (.ok engine)) :
    engine.cache.Indexed := by
  obtain ⟨arena, journal, -, fresh⟩ := setup_fresh built
  rw [fresh]
  exact (Cache.ofArena_indexed ..).retuned (Cache.Undisturbed.booked _ [] journal rfl rfl rfl).toRetuned

theorem phases_history {request : CompileRequest} {block : Block}
    (ran : phases request engine = .ok (.ok block) after) (later : History after deeds final) :
    ∃ code, code.Compiled ∧ History engine ([.upkeep, .upkeep, .published code (.ok block)] ++ deeds) final := by
  obtain ⟨taken, code, before, middle, captured, compiled, published⟩ := phases_parts ran
  have made := ((compileWith_upkeep ..).answer compiled).2 code rfl
  exact ⟨code, made, .cons (.capture captured) (.cons (.compile compiled) (.cons (.publish published) later))⟩

theorem pageEndLoop_recompiled : ∃ engine, setup {} Session.pageEndLoop = .ok (.ok engine) ∧
    ∃ block middle, phases ⟨8188, 0, none⟩ engine = .ok (.ok block) middle ∧
    ∃ effect written, store 8188 [0x7d] none { middle with cache := middle.cache.acquire block.id } =
      .ok (.ok effect) written ∧
    ∃ second final, phases ⟨8188, 0, none⟩ written = .ok (.ok second) final ∧ final.cache.installed.length = 1 ∧
      final.cache.retired.length = 1 := by
  decide +kernel

theorem pageEndLoop_history : ∃ start deeds final, setup {} Session.pageEndLoop = .ok (.ok start) ∧
    History start deeds final ∧ (∀ deed ∈ deeds, deed.Regular) ∧ final.cache.installed.length = 1 ∧
    final.cache.retired.length = 1 := by
  obtain ⟨start, built, block, middle, first, effect, written, wrote, second, final, again, installed, retired⟩ :=
    pageEndLoop_recompiled
  obtain ⟨code', compiled', last⟩ := phases_history again .nil
  obtain ⟨code, compiled, history⟩ := phases_history first (.cons (.acquire block.id) (.cons (.store wrote) last))
  refine ⟨start, _, final, built, history, ?_, installed, retired⟩
  simp [Deed.Regular, compiled, compiled']

theorem pageEndLoop_indexes_agree : ∃ arena base pages threshold journal start deeds final,
    start.cache = { Cache.ofArena arena base pages threshold with journal := journal } ∧ History start deeds final ∧
    final.cache.installed.length = 1 ∧ final.cache.retired.length = 1 ∧ final.cache.Agreement := by
  obtain ⟨start, deeds, final, built, history, -, installed, retired⟩ := pageEndLoop_history
  obtain ⟨arena, journal, -, fresh⟩ := setup_fresh built
  exact ⟨arena, _, _, _, journal, start, deeds, final, fresh, history, installed, retired, history.indexes_agree fresh⟩

end Engine
end TieredHart
