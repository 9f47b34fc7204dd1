import TieredHart.Proofs.FreeGaps
import TieredHart.Proofs.StoreEffects
import TieredHart.Proofs.VictimSearch

namespace TieredHart

open ExtentPool (cover cover_cons)

def Deed.Complete : Deed → Prop
  | .reserved | .placed | .seated => False
  | .published .. | .stored .. | .filled | .upkeep => True

theorem Deed.Complete.whole {deed : Deed} (complete : deed.Complete) : deed.Whole := by
  cases deed <;> first | exact complete.elim | trivial

namespace Cache

variable {cache middle after : Cache} {code : HostCode} {data : List UInt8} {extent : Extent} {block : Block} {size need : Nat}

theorem framesWritten_sublist (cache : Cache) (fetch : Option Nat) (fs : List Nat) :
    (cache.framesWritten fetch fs).2.installed.Sublist cache.installed := by
  induction fs generalizing cache with
  | nil => exact .refl _
  | cons f rest ih => exact (ih _).trans (dropFrame_sublist cache f)

theorem Cleared.sublist (cleared : Cleared cache after) : after.installed.Sublist cache.installed := by
  induction cleared with
  | start => exact .refl _
  | recycled _ ran ih =>
    obtain ⟨_, _, -, rfl⟩ := recycle_parts ran
    exact ih
  | evicted _ _ ih =>
    rename_i middle pa _ _
    cases left : (victim middle).2.remove pa .evicted with
    | none => exact ih
    | some after =>
      obtain ⟨block, removed⟩ := remove_removed left
      rw [Option.getD_some, removed.installed]
      exact List.filter_sublist.trans ih
  | exhausted _ _ ih => exact ih

-- Indexes agree, free extents and blocks divide the arena, and no two installed blocks were last used at one tick.
structure Stocked (cache : Cache) : Prop where
  indexed : cache.Indexed
  orderly : cache.Orderly
  divided : cache.extents.Divided cache.hosts
  ticks : (cache.installed.map (·.lastUsed)).Nodup

namespace Stocked

theorem kept (stocked : cache.Stocked) (kept : Kept [] cache after) (indexed : after.Indexed) (orderly : after.Orderly)
    (ticks : (after.installed.map (·.lastUsed)).Nodup) : after.Stocked := by
  refine ⟨indexed, orderly, ⟨orderly.pool, orderly.whole, fun i => ?_⟩, ticks⟩
  rw [kept.capacity, ← stocked.divided.shares i]
  exact kept.shares i

theorem fewer (stocked : cache.Stocked) (sublist : after.installed.Sublist cache.installed) :
    (after.installed.map (·.lastUsed)).Nodup := stocked.ticks.sublist (sublist.map _)

theorem cleared (stocked : cache.Stocked) (cleared : Cleared cache after) : after.Stocked := by
  obtain ⟨orderly, kept⟩ := cleared.kept stocked.orderly
  exact stocked.kept kept (cleared.indexed stocked.indexed) orderly (stocked.fewer cleared.sublist)

theorem used (stocked : cache.Stocked) (id : Nat) : ((cache.markUsed id).installed.map (·.lastUsed)).Nodup := by
  have numbers := stocked.indexed.numbers
  rw [List.map_append, List.nodup_append] at numbers
  have both := (List.pairwise_map.mp numbers.1).and (List.pairwise_map.mp stocked.ticks)
  refine List.pairwise_map.mpr (List.pairwise_map.mpr (both.imp_of_mem ?_))
  rintro a b memberA memberB ⟨ids, ticks⟩
  have beforeA := stocked.indexed.used a memberA
  have beforeB := stocked.indexed.used b memberB
  by_cases own : a.id = id
  · rw [if_pos own, if_neg fun other => ids (own.trans other.symm)]
    show cache.clock + 1 ≠ b.lastUsed
    omega
  · rw [if_neg own]
    split
    · show a.lastUsed ≠ cache.clock + 1
      omega
    · exact ticks

theorem seated (stocked : cache.Stocked) (given : Granted cache size (.ok extent) middle)
    (seated : Seated code data extent middle block after) : after.Stocked := by
  obtain ⟨between, kept, need, -, reserved⟩ := given.lends stocked.orderly
  have indexed := given.indexed stocked.indexed
  have orderly := seated.orderly between reserved
  have later := seated.indexed indexed
  have left : middle.installed.Sublist cache.installed := by
    cases given with
    | given cleared _ => exact cleared.sublist
  obtain ⟨-, -, entered⟩ := seated
  refine ⟨later, orderly, ⟨orderly.pool, orderly.whole, fun i => ?_⟩, ?_⟩
  · have before := stocked.divided.shares i
    have lent := kept.shares i
    rw [entered.after]
    show cover middle.extents.free i + cover (extent :: middle.hosts) i = if i < middle.extents.capacity then 1 else 0
    rw [cover_cons, kept.capacity]
    omega
  · rw [entered.after]
    refine List.nodup_cons.mpr ⟨fun there => ?_, stocked.fewer left⟩
    obtain ⟨other, member, same⟩ := List.mem_map.mp there
    have old := indexed.used other member
    change other.lastUsed = middle.clock + 1 at same
    omega

end Stocked

theorem Effect.stocked {deed : Deed} (effect : cache.Effect deed after) (complete : deed.Complete)
    (stocked : cache.Stocked) : after.Stocked := by
  have indexed := effect.indexed stocked.indexed
  have orderly := effect.orderly complete.whole stocked.orderly
  cases effect with
  | undisturbed same => exact stocked.kept same.kept indexed orderly (by rw [same.installed]; exact stocked.ticks)
  | used id => exact stocked.kept (markUsed_kept cache id) indexed orderly (stocked.used id)
  | dropped f =>
    exact stocked.kept (dropFrame_kept stocked.orderly.keys f) indexed orderly (stocked.fewer (dropFrame_sublist cache f))
  | recycled ran => exact stocked.cleared (.recycled .start ran)
  | published published =>
    cases published with
    | stale => exact stocked
    | occupied => exact stocked
    | refused _ _ cleared => exact stocked.cleared cleared
    | seated _ _ given seated => exact stocked.seated given seated
  | filled filled =>
    cases filled with
    | refused cleared => exact stocked.cleared cleared
    | seated _ given seated => exact stocked.seated given seated
  | reserved => exact complete.elim
  | placed => exact complete.elim
  | seated => exact complete.elim
  | stored same =>
    refine stocked.kept ((framesWritten_kept stocked.orderly _ _).trans same.kept) indexed orderly ?_
    rw [same.installed]
    exact stocked.fewer (framesWritten_sublist ..)

theorem ofArena_stocked {host : Host} {arena : Arena} (mapped : Arena.map? size host = .ok (some arena))
    (base pages threshold : Nat) (journal : Array Event) :
    Stocked { ofArena arena base pages threshold with journal := journal } := by
  have same := Undisturbed.booked (ofArena arena base pages threshold) [] journal rfl rfl rfl
  have orderly := (ofArena_housed mapped base pages threshold).orderly
  have fresh : (ofArena arena base pages threshold).Stocked :=
    ⟨ofArena_indexed arena base pages threshold, orderly, .fresh arena.capacity, .nil⟩
  exact fresh.kept same.kept (fresh.indexed.retuned same.toRetuned) (orderly.sheds same.sheds) .nil

-- What has an extent when so many of the blocks in order are gone and retired blocks without references are recycled.
def occupied (cache : Cache) (order : List Block) (count : Nat) : List Extent :=
  ((cache.installed.filter (· ∉ order.take count)) ++ cache.retired.filter fun block => cache.inUse block.id).map (·.host)

def Fits (cache : Cache) (order : List Block) (count need : Nat) : Prop :=
  ∃ gap : Extent, gap.Gap cache.extents.capacity (cache.occupied order count) ∧ need ≤ gap.size

-- Eviction down to room: the blocks that go are the first of the order, as few as will do, and everything else stays.
structure Evicts (cache : Cache) (size need : Nat) (order : List Block) (count : Nat) (answer : Except Refusal Extent)
    (after : Cache) : Prop where
  within : count ≤ order.length
  installed : after.installed = cache.installed.filter (· ∉ order.take count)
  retired : after.retired = cache.retired.filter fun block => cache.inUse block.id
  references : after.references = cache.references
  -- One report for each, in the order in which they went.
  reported : after.journal.toList =
    cache.journal.toList ++ (order.take count).map fun block => .evicted block.entryPa block.lastUsed
  fewest : ∀ fewer < count, ¬ cache.Fits order fewer need
  given : ∀ extent, answer = .ok extent → extent.size = need ∧
    ∃ gap : Extent, gap.Gap cache.extents.capacity (cache.occupied order count) ∧ need ≤ gap.size ∧ extent.start = gap.start
  refused : ∀ refusal, answer = .error refusal →
    refusal = .arenaExhausted size ∧ count = order.length ∧ ¬ cache.Fits order count need

structure Shed (block : Block) (cache after : Cache) : Prop where
  installed : after.installed = cache.installed.filter (· ≠ block)
  retired : after.retired = cache.retired
  references : after.references = cache.references
  journal : after.journal = cache.journal.push (.evicted block.entryPa block.lastUsed)
  capacity : after.extents.capacity = cache.extents.capacity

namespace Shed

variable {order : List Block} {count : Nat}

theorem inUse (shed : Shed block cache after) (id : Nat) : after.inUse id = cache.inUse id := by
  unfold Cache.inUse
  rw [shed.references]

theorem idle (shed : Shed block cache after) (idle : cache.Idle (block :: order)) : after.Idle order := by
  obtain ⟨later, sorted⟩ := List.pairwise_cons.mp idle.sorted
  refine ⟨fun other => ?_, sorted⟩
  have before := idle.mem_iff other
  rw [shed.inUse, shed.installed, List.mem_filter]
  by_cases same : other = block
  · have absent : block ∉ order := fun there => Nat.lt_irrefl _ (later block there)
    simp [same, absent]
  · simpa [same] using before

theorem left (shed : Shed block cache after) :
    after.installed.filter (· ∉ order.take count) = cache.installed.filter (· ∉ (block :: order).take (count + 1)) := by
  rw [shed.installed, List.filter_filter]
  apply List.filter_congr
  intro other _
  simp only [List.take_succ_cons, List.mem_cons]
  by_cases same : other = block <;> simp [same]

theorem stays (shed : Shed block cache after) : (after.retired.filter fun block => after.inUse block.id) =
    cache.retired.filter fun block => cache.inUse block.id := by
  rw [shed.retired]
  exact List.filter_congr fun other _ => shed.inUse other.id

theorem occupied (shed : Shed block cache after) : after.occupied order count = cache.occupied (block :: order) (count + 1) := by
  unfold Cache.occupied
  rw [shed.left, shed.stays]

theorem fits (shed : Shed block cache after) : after.Fits order count need ↔ cache.Fits (block :: order) (count + 1) need := by
  unfold Fits
  rw [shed.occupied, shed.capacity]

theorem evicts {answer : Except Refusal Extent} {final : Cache} (shed : Shed block cache after)
    (full : ¬ cache.Fits (block :: order) 0 need) (rest : after.Evicts size need order count answer final) :
    cache.Evicts size need (block :: order) (count + 1) answer final := by
  constructor
  · exact Nat.succ_le_succ rest.within
  · exact rest.installed.trans shed.left
  · exact rest.retired.trans shed.stays
  · exact rest.references.trans shed.references
  · rw [rest.reported, shed.journal]
    simp
  · intro fewer below
    cases fewer with
    | zero => exact full
    | succ fewer => exact fun room => rest.fewest fewer (by omega) (shed.fits.mpr room)
  · intro extent ok
    rw [← shed.occupied, ← shed.capacity]
    exact rest.given extent ok
  · intro refusal failed
    obtain ⟨which, all, cramped⟩ := rest.refused refusal failed
    exact ⟨which, congrArg (· + 1) all, fun room => cramped (shed.fits.mpr room)⟩

end Shed

theorem remove_reported {pa : Nat} (found : cache.find? pa = some block) : ∃ after, cache.remove pa .evicted = some after ∧
    after.references = cache.references ∧ after.journal = cache.journal.push (.evicted pa block.lastUsed) := by
  unfold remove
  rw [found]
  exact ⟨_, rfl, rfl, rfl⟩

theorem evict_shed (stocked : cache.Stocked) (clean : ∀ old ∈ cache.retired, cache.inUse old.id = true)
    (member : block ∈ cache.installed) (free : cache.inUse block.id = false)
    (found : (victim cache).1 = some block.entryPa) :
    Ends recycle (((victim cache).2.remove block.entryPa .evicted).getD (victim cache).2)
      (fun _ after => Shed block cache after ∧ after.Stocked) fun _ _ => False := by
  have here : (victim cache).2.find? block.entryPa = some block := find_member stocked.indexed.keys member
  have cleared : Cleared cache _ := .evicted .start found
  obtain ⟨gone, left, references, journal⟩ := remove_reported here
  obtain ⟨other, removed⟩ := remove_removed left
  cases here.symm.trans removed.found
  rw [left, Option.getD_some] at cleared ⊢
  have between := (stocked.cleared cleared).orderly
  refine Ends.intro (fun count after ran => ?_) fun _ _ failed => (recycle_orderly between).failure failed
  have later := stocked.cleared (.recycled cleared ran)
  have capacity := ((Cleared.recycled cleared ran).kept stocked.orderly).2.capacity
  obtain ⟨kept, pool, recycled, rfl⟩ := recycle_parts ran
  refine ⟨⟨?_, ?_, references, journal, capacity⟩, later⟩
  · refine removed.installed.trans (List.filter_congr fun other there => ?_)
    have own := find_member stocked.indexed.keys there
    have same : other.entryPa = block.entryPa ↔ other = block := by
      refine ⟨fun entry => ?_, congrArg _⟩
      rw [entry] at own
      exact Option.some.inj (own.symm.trans here)
    simp [same]
  · have used : gone.inUse = cache.inUse := by
      unfold Cache.inUse
      rw [references]
      rfl
    show kept = cache.retired
    rw [recycleFrom_kept recycled, removed.retired, used, List.filter_append]
    show (cache.retired.filter fun block => cache.inUse block.id) ++ _ = _
    rw [List.filter_eq_self.mpr clean]
    simp [free]

theorem left_zero (blocks order : List Block) : blocks.filter (· ∉ order.take 0) = blocks := by
  apply List.filter_eq_self.mpr
  simp

theorem occupied_zero (clean : ∀ old ∈ cache.retired, cache.inUse old.id = true) (order : List Block) :
    cache.occupied order 0 = cache.hosts := by
  unfold occupied hosts
  rw [left_zero, List.filter_eq_self.mpr clean]

theorem evicts_none {order : List Block} {answer : Except Refusal Extent}
    (clean : ∀ old ∈ cache.retired, cache.inUse old.id = true) (installed : after.installed = cache.installed)
    (retired : after.retired = cache.retired) (references : after.references = cache.references)
    (journal : after.journal = cache.journal)
    (given : ∀ extent, answer = .ok extent → extent.size = need ∧
      ∃ gap : Extent, gap.Gap cache.extents.capacity cache.hosts ∧ need ≤ gap.size ∧ extent.start = gap.start)
    (refused : ∀ refusal, answer = .error refusal →
      refusal = .arenaExhausted size ∧ 0 = order.length ∧ ¬ cache.Fits order 0 need) :
    cache.Evicts size need order 0 answer after := by
  refine ⟨Nat.zero_le _, installed.trans (left_zero ..).symm, ?_, references, by simp [journal], ?_, ?_, refused⟩
  · rw [List.filter_eq_self.mpr clean]
    exact retired
  · exact fun _ below => absurd below (Nat.not_lt_zero _)
  · rw [occupied_zero clean]
    exact given

-- The induction is on the rounds; each one takes the head of the order and leaves its tail to the next.
theorem makeRoom_evicts {order : List Block} {rounds : Nat} (stocked : cache.Stocked)
    (clean : ∀ old ∈ cache.retired, cache.inUse old.id = true) (idle : cache.Idle order)
    (given : ExtentPool.rounded size = .ok need) (enough : order.length < rounds) :
    Ends (makeRoom size rounds) cache (fun answer after => ∃ count, cache.Evicts size need order count answer after)
      fun _ _ => False := by
  induction rounds generalizing cache order with
  | zero => exact absurd enough (Nat.not_lt_zero _)
  | succ rounds ih =>
    have allots := stocked.divided.allots need
    unfold makeRoom
    rw [ends_bind, ends_get, ends_bind, ExtentPool.alloc_take given, ends_ofExcept_ok]
    cases took : cache.extents.take need with
    | some taken =>
      obtain ⟨extent, pool⟩ := taken
      obtain ⟨sized, -, gap, there, large, start, -⟩ := allots.lowest extent pool took
      refine ⟨0, evicts_none clean rfl rfl rfl rfl ?_ ?_⟩
      · intro other same
        cases same
        exact ⟨sized, gap, there, large, start⟩
      · intro refusal failed
        cases failed
    | none =>
      have full : ¬ cache.Fits order 0 need := by
        rintro ⟨gap, there, large⟩
        rw [occupied_zero clean] at there
        exact absurd (allots.refused.mp took gap there) (Nat.not_lt.mpr large)
      have found := idle.victim stocked.indexed.keys stocked.indexed.ordered
      simp only [ends_bind, ends_modifyGet]
      cases order with
      | nil =>
        rw [found]
        refine ⟨0, evicts_none clean rfl rfl rfl rfl ?_ ?_⟩
        · intro extent ok
          cases ok
        · intro refusal failed
          cases failed
          exact ⟨rfl, rfl, full⟩
      | cons block rest =>
        obtain ⟨member, free⟩ := (idle.mem_iff block).mp (List.mem_cons_self ..)
        have later := evict_shed stocked clean member free found
        rw [found]
        simp only [List.head?_cons, Option.map_some, ends_bind, ends_modify]
        refine later.weaken ?_
        rintro _ next ⟨shed, stocked'⟩
        have clean' : ∀ old ∈ next.retired, next.inUse old.id = true := by
          rw [shed.retired]
          exact fun old there => (shed.inUse _).trans (clean old there)
        refine (ih stocked' clean' (shed.idle idle) (Nat.lt_of_succ_lt_succ enough)).weaken ?_
        rintro answer after ⟨count, evicts⟩
        exact ⟨count + 1, shed.evicts full evicts⟩

theorem reserve_evicts {order : List Block} (stocked : cache.Stocked) (idle : cache.Idle order)
    (given : ExtentPool.rounded size = .ok need) (room : need ≤ cache.extents.capacity) :
    Ends (reserve size) cache (fun answer after => ∃ count, cache.Evicts size need order count answer after)
      fun _ _ => False := by
  unfold reserve
  rw [ends_bind, given, ends_ofExcept_ok, ends_bind, ends_get, if_neg (Nat.not_lt.mpr room), ends_bind]
  refine Ends.intro (fun count middle ran => ?_) fun _ _ failed => (recycle_orderly stocked.orderly).failure failed
  have between := stocked.cleared (.recycled .start ran)
  have capacity := (recycle_kept stocked.orderly ran).capacity
  obtain ⟨kept, pool, recycled, rfl⟩ := recycle_parts ran
  have kept' := recycleFrom_kept recycled
  rw [ends_bind, ends_get]
  have clean : ∀ old ∈ kept, cache.inUse old.id = true := by
    rw [kept']
    exact fun old there => (List.mem_filter.mp there).2
  have stays : (kept.filter fun block => cache.inUse block.id) = kept := List.filter_eq_self.mpr clean
  have short := idle.length_le stocked.indexed.keys
  refine (makeRoom_evicts between clean ⟨idle.mem_iff, idle.sorted⟩ given (Nat.lt_succ_of_le short)).weaken ?_
  rintro answer after ⟨count, evicts⟩
  -- What is recycled first is not in the way of the blocks in order.
  have same : ∀ count, Cache.occupied { cache with retired := kept, extents := pool } order count = cache.occupied order count := by
    intro count
    show ((cache.installed.filter _) ++ kept.filter fun block => cache.inUse block.id).map _ = _
    rw [stays, kept']
    rfl
  have fits : ∀ count, Cache.Fits { cache with retired := kept, extents := pool } order count need ↔
      cache.Fits order count need := by
    intro count
    unfold Fits
    rw [same, capacity]
  refine ⟨count, evicts.within, evicts.installed, ?_, evicts.references, evicts.reported, ?_, ?_, ?_⟩
  · exact evicts.retired.trans (stays.trans kept')
  · exact fun fewer below room => evicts.fewest fewer below ((fits fewer).mpr room)
  · intro extent ok
    have answered := evicts.given extent ok
    rwa [same, capacity] at answered
  · intro refusal failed
    have answered := evicts.refused refusal failed
    rwa [fits] at answered

namespace Evicts

variable {order : List Block} {count : Nat} {answer : Except Refusal Extent}

theorem keeps_used (evicts : cache.Evicts size need order count answer after) (idle : cache.Idle order)
    (member : block ∈ cache.installed) (used : cache.inUse block.id = true) : block ∈ after.installed := by
  rw [evicts.installed, List.mem_filter]
  refine ⟨member, ?_⟩
  simp only [decide_eq_true_eq]
  intro there
  have free := ((idle.mem_iff block).mp (List.mem_of_mem_take there)).2
  rw [used] at free
  cases free

theorem only_used (evicts : cache.Evicts size need order count answer after) (idle : cache.Idle order)
    {refusal : Refusal} (failed : answer = .error refusal) (member : block ∈ after.installed) :
    cache.inUse block.id = true := by
  obtain ⟨-, all, -⟩ := evicts.refused refusal failed
  rw [evicts.installed, all, List.take_length, List.mem_filter] at member
  obtain ⟨there, stayed⟩ := member
  simp only [decide_eq_true_eq] at stayed
  cases used : cache.inUse block.id with
  | true => rfl
  | false => exact absurd ((idle.mem_iff block).mpr ⟨there, used⟩) stayed

theorem succeeds (evicts : cache.Evicts size need order count answer after) (idle : cache.Idle order)
    (given : ExtentPool.rounded size = .ok need) (room : need ≤ cache.extents.capacity)
    (unused : ∀ block ∈ cache.installed ++ cache.retired, cache.inUse block.id = false) :
    ∃ extent, answer = .ok extent := by
  cases answer with
  | ok extent => exact ⟨extent, rfl⟩
  | error refusal =>
    obtain ⟨-, -, full⟩ := evicts.refused refusal rfl
    have installed : after.installed = [] := by
      apply List.eq_nil_iff_forall_not_mem.mpr
      intro block there
      have used := evicts.only_used idle rfl there
      rw [evicts.installed] at there
      rw [unused block (List.mem_append_left _ (List.mem_filter.mp there).1)] at used
      cases used
    have retired : (cache.retired.filter fun block => cache.inUse block.id) = [] := by
      apply List.filter_eq_nil_iff.mpr
      intro block there
      simp [unused block (List.mem_append_right _ there)]
    have nothing : cache.occupied order count = [] := by
      unfold occupied
      rw [← evicts.installed, installed, retired]
      rfl
    have units := ExtentPool.rounded_units given
    refine absurd ⟨⟨0, cache.extents.capacity⟩, ?_, room⟩ full
    rw [nothing]
    exact .whole (by omega)

end Evicts
end Cache

namespace Engine

variable {start final : Engine} {deeds : List Deed}

theorem History.stocked (history : History start deeds final) (complete : ∀ deed ∈ deeds, deed.Complete)
    (stocked : start.cache.Stocked) : final.cache.Stocked := by
  induction history with
  | nil => exact stocked
  | cons does _ ih =>
    have first := does.effect.stocked (complete _ (List.mem_cons_self ..)) stocked
    exact ih (fun deed there => complete deed (List.mem_cons_of_mem _ there)) first

-- Room is made at the price of the least recently used blocks that nothing references, of as few of them as will do, and
-- is refused only if none of them is left.
theorem History.evicts_least_recent {bytes base pages threshold size need : Nat} {arena : Arena} {journal : Array Event}
    {host : Host} (mapped : Arena.map? bytes host = .ok (some arena))
    (fresh : start.cache = { Cache.ofArena arena base pages threshold with journal := journal })
    (history : History start deeds final) (complete : ∀ deed ∈ deeds, deed.Complete)
    (given : ExtentPool.rounded size = .ok need) (room : need ≤ final.cache.extents.capacity) :
    ∃ order count answer after, final.cache.Idle order ∧ Cache.reserve size final.cache = .ok answer after ∧
      final.cache.Evicts size need order count answer after ∧
      (∀ block ∈ final.cache.installed, final.cache.inUse block.id = true → block ∈ after.installed) ∧
      (∀ refusal, answer = .error refusal → ∀ block ∈ after.installed, final.cache.inUse block.id = true) ∧
      ((∀ block ∈ final.cache.installed ++ final.cache.retired, final.cache.inUse block.id = false) →
        ∃ extent, answer = .ok extent) := by
  have stocked : final.cache.Stocked := by
    apply history.stocked complete
    rw [fresh]
    exact Cache.ofArena_stocked mapped base pages threshold journal
  obtain ⟨order, idle⟩ := Cache.exists_idle stocked.ticks
  obtain ⟨answer, after, ran, count, evicts⟩ := (Cache.reserve_evicts stocked idle given room).answers
  refine ⟨order, count, answer, after, idle, ran, evicts, ?_, ?_, ?_⟩
  · exact fun block member used => evicts.keeps_used idle member used
  · exact fun refusal failed block member => evicts.only_used idle failed member
  · exact evicts.succeeds idle given room

set_option synthInstance.maxSize 512 in
theorem fourQuarters_filled : ∃ start, setup { codeArenaSize := 4096 } Session.pageEndLoop = .ok (.ok start) ∧
    ∃ a one, onCache (Cache.installFiller 0x1000 1024 none) start = .ok (.ok a) one ∧
    ∃ b two, onCache (Cache.installFiller 0x1010 1024 none) one = .ok (.ok b) two ∧
    ∃ c three, onCache (Cache.installFiller 0x1020 1024 none) two = .ok (.ok c) three ∧
    ∃ d four, onCache (Cache.installFiller 0x1030 1024 none) three = .ok (.ok d) four ∧
      four.cache.installed.map (·.id) = [3, 2, 1, 0] ∧ four.cache.references = [] ∧
      four.cache.extents.free = [] ∧ 1504 ≤ four.cache.extents.capacity := by
  decide +kernel

theorem fourQuarters_evicts : ∃ start deeds final, setup { codeArenaSize := 4096 } Session.pageEndLoop = .ok (.ok start) ∧
    History start deeds final ∧ (∀ deed ∈ deeds, deed.Complete) ∧ final.cache.installed.map (·.id) = [3, 2, 1, 0] ∧
    final.cache.references = [1] ∧ final.cache.extents.free = [] ∧
    ∃ order count answer after, final.cache.Idle order ∧ Cache.reserve 1500 final.cache = .ok answer after ∧
      final.cache.Evicts 1500 1504 order count answer after ∧
      (∀ block ∈ final.cache.installed, final.cache.inUse block.id = true → block ∈ after.installed) ∧
      (∀ refusal, answer = .error refusal → ∀ block ∈ after.installed, final.cache.inUse block.id = true) ∧
      ((∀ block ∈ final.cache.installed ++ final.cache.retired, final.cache.inUse block.id = false) →
        ∃ extent, answer = .ok extent) := by
  obtain ⟨start, built, a, one, first, b, two, second, c, three, third, d, four, fourth, ids, free, full, large⟩ :=
    fourQuarters_filled
  obtain ⟨arena, journal, mapped, fresh⟩ := setup_fresh built
  have history : History start [.filled, .filled, .filled, .filled, .upkeep, .upkeep] _ :=
    .cons (.fill first) (.cons (.fill second) (.cons (.fill third) (.cons (.fill fourth)
      (.cons (.markUsed 0) (.cons (.acquire 1) .nil)))))
  have complete : ∀ deed ∈ [Deed.filled, .filled, .filled, .filled, .upkeep, .upkeep], deed.Complete := by
    simp [Deed.Complete]
  refine ⟨start, _, _, built, history, complete, ?_, ?_, full, history.evicts_least_recent mapped fresh complete rfl large⟩
  · rw [← ids]
    exact Cache.useAt_map (fun _ _ => rfl) ..
  · show 1 :: four.cache.references = [1]
    rw [free]

end Engine
end TieredHart
