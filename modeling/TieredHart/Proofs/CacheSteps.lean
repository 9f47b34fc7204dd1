import TieredHart.Cache.Install
import TieredHart.Proofs.Outcome
import TieredHart.Proofs.Snapshots

namespace TieredHart.Cache

variable {cache middle after : Cache} {pa size count rounds : Nat} {why : Departure} {block : Block} {extent : Extent}
  {code : HostCode} {data : List UInt8}

theorem find_some (found : cache.find? pa = some block) : block ∈ cache.installed ∧ block.entryPa = pa :=
  ⟨List.mem_of_find?_eq_some found, by simpa using List.find?_some found⟩

theorem contains_iff : cache.contains pa = true ↔ pa ∈ cache.installed.map (·.entryPa) := by
  unfold contains find?
  rw [List.find?_isSome]
  simp

structure Removed (pa : Nat) (why : Departure) (block : Block) (cache after : Cache) : Prop where
  found : cache.find? pa = some block
  installed : after.installed = cache.installed.filter (·.entryPa ≠ pa)
  retired : after.retired = cache.retired ++ [{ block with valid := false }]
  lru : after.lru = (Lru.tick? cache.filed pa).elim cache.lru fun tick => cache.lru.filter (· ≠ (tick, pa))
  filed : after.filed = Lru.forget cache.filed pa
  frames : after.frames = block.stamp.frames.foldl (·.unregister pa ·) cache.frames
  counts : after.counts = countRemoval cache.counts why
  retirements : after.retirements = cache.retirements + 1
  extents : after.extents = cache.extents
  arena : after.arena = cache.arena
  clock : after.clock = cache.clock
  nextId : after.nextId = cache.nextId

theorem remove_removed (removed : cache.remove pa why = some after) : ∃ block, Removed pa why block cache after := by
  unfold remove at removed
  cases found : cache.find? pa with
  | none => rw [found] at removed; cases removed
  | some block =>
    rw [found] at removed
    cases removed
    refine ⟨block, found, rfl, rfl, ?_, rfl, rfl, rfl, rfl, rfl, rfl, rfl, rfl⟩
    cases Lru.tick? cache.filed pa <;> rfl

theorem remove_some (there : cache.contains pa = true) (why : Departure) : ∃ after, cache.remove pa why = some after := by
  obtain ⟨block, found⟩ := Option.isSome_iff_exists.mp there
  unfold remove
  rw [found]
  exact ⟨_, rfl⟩

namespace Removed

theorem covers (removed : Removed pa why block cache after) (f : Nat) :
    after.frames.covers f = cache.frames.covers f := by
  rw [removed.frames]
  exact (FrameTable.Alike.foldl (fun _ f => .unregister pa f) _).covers f

theorem find (removed : Removed pa why block cache after) (other : Nat) :
    after.find? other = if other = pa then none else cache.find? other := by
  unfold find?
  rw [removed.installed, List.find?_filter]
  split
  · rename_i same
    subst same
    simp
  · rename_i differs
    congr
    funext block
    by_cases here : block.entryPa = other
    · simp [here, differs]
    · simp [here]

end Removed

theorem removeAll_keeps {P : Cache → Prop} (start : P cache)
    (keeps : ∀ {pa block cache after}, P cache → Removed pa .invalidated block cache after → P after) (pas : List Nat) :
    P (cache.removeAll pas).2 := by
  induction pas generalizing cache with
  | nil => exact start
  | cons pa rest ih =>
    unfold removeAll
    cases removed : cache.remove pa .invalidated with
    | none => exact ih start
    | some after =>
      obtain ⟨block, parts⟩ := remove_removed removed
      exact ih (keeps start parts)

theorem recycleFrom_kept {inUse : Nat → Bool} {blocks kept : List Block} {pool pool' : ExtentPool}
    (ran : recycleFrom inUse blocks pool = .ok (kept, pool')) : kept = blocks.filter fun block => inUse block.id := by
  induction blocks generalizing pool kept with
  | nil => cases ran; rfl
  | cons block rest ih =>
    unfold recycleFrom at ran
    by_cases used : inUse block.id = true
    · rw [if_pos used] at ran
      cases later : recycleFrom inUse rest pool with
      | error failure => rw [later] at ran; cases ran
      | ok result =>
        obtain ⟨others, pool''⟩ := result
        rw [later] at ran
        cases ran
        rw [List.filter_cons, if_pos used, ih later]
    · rw [if_neg used] at ran
      cases released : pool.release block.host.start block.host.stop with
      | error failure => rw [released] at ran; cases ran
      | ok pool'' =>
        rw [released] at ran
        rw [List.filter_cons, if_neg used]
        exact ih ran

theorem recycle_parts (ran : recycle cache = .ok count after) :
    ∃ kept pool, recycleFrom cache.inUse cache.retired cache.extents = .ok (kept, pool) ∧
      after = { cache with retired := kept, extents := pool } := by
  have ends : Ends recycle cache (fun _ after => ∃ kept pool,
      recycleFrom cache.inUse cache.retired cache.extents = .ok (kept, pool) ∧
      after = { cache with retired := kept, extents := pool }) fun _ _ => True := by
    unfold recycle
    rw [ends_bind, ends_get, ends_bind, ends_ofExcept]
    exact ⟨fun _ recycled => ⟨_, _, recycled, rfl⟩, fun _ _ => trivial⟩
  exact ends.answer ran

-- What making room does before anything is handed out: extents are recycled and victims leave, and a search that finds
-- none is counted.
inductive Cleared (cache : Cache) : Cache → Prop where
  | start : Cleared cache cache
  | recycled {middle after : Cache} {count : Nat} (before : Cleared cache middle) (ran : recycle middle = .ok count after) :
      Cleared cache after
  | evicted {middle : Cache} {pa : Nat} (before : Cleared cache middle) (found : (victim middle).1 = some pa) :
      Cleared cache (((victim middle).2.remove pa .evicted).getD (victim middle).2)
  | exhausted {middle : Cache} (before : Cleared cache middle) (found : (victim middle).1 = none) :
      Cleared cache { (victim middle).2 with counts := { middle.counts with
        exhaustedAborts := middle.counts.exhaustedAborts + 1 } }

inductive Granted (cache : Cache) (size : Nat) : Except Refusal Extent → Cache → Prop where
  | given {middle : Cache} {extent : Extent} {pool : ExtentPool} (cleared : Cleared cache middle)
      (took : middle.extents.alloc size = .ok (some (extent, pool))) :
      Granted cache size (.ok extent) { middle with extents := pool }
  | refused {after : Cache} (cleared : Cleared cache after) : Granted cache size (.error (.arenaExhausted size)) after

theorem makeRoom_granted (cleared : Cleared cache middle) :
    Ends (makeRoom size rounds) middle (Granted cache size) fun _ _ => True := by
  induction rounds generalizing middle with
  | zero => exact .refused cleared
  | succ rounds ih =>
    unfold makeRoom
    rw [ends_bind, ends_get, ends_bind, ends_ofExcept]
    refine ⟨fun answer took => ?_, fun _ _ => trivial⟩
    cases answer with
    | some found => exact .given cleared took
    | none =>
      simp only [ends_bind, ends_modifyGet]
      cases found : (victim middle).1 with
      | none => exact .refused (.exhausted cleared found)
      | some pa =>
        simp only [ends_bind, ends_modify]
        refine Ends.intro (fun n recycled ran => ?_) fun _ _ _ => trivial
        exact ih (.recycled (.evicted cleared found) ran)

theorem reserve_granted (cache : Cache) (size : Nat) :
    Ends (reserve size) cache (Granted cache size) fun _ _ => True := by
  unfold reserve
  rw [ends_bind, ends_ofExcept]
  refine ⟨fun need given => ?_, fun _ _ => trivial⟩
  rw [ends_bind, ends_get]
  split
  · exact .refused .start
  · rw [ends_bind]
    refine Ends.intro (fun n recycled ran => ?_) fun _ _ _ => trivial
    rw [ends_bind, ends_get]
    exact makeRoom_granted (.recycled .start ran)

def blockOf (code : HostCode) (host : Extent) (id : Nat) : Block :=
  ⟨id, code.entryPa, code.entryVa, code.guestLen, code.insnCount, host, code.ending, code.hasLoop, code.stamp, true, 0⟩

structure Entered (code : HostCode) (host : Extent) (cache : Cache) (block : Block) (after : Cache) : Prop where
  live : code.stamp.moved? cache.frames.version = none
  free : cache.contains code.entryPa = false
  block : block = { blockOf code host cache.nextId with lastUsed := cache.clock + 1 }
  after : after = enter { cache with nextId := cache.nextId + 1 } (blockOf code host cache.nextId)

inductive Seated (code : HostCode) (data : List UInt8) (host : Extent) (cache : Cache) (block : Block) (after : Cache) :
    Prop where
  | intro {arena : Arena} (fits : data.length ≤ host.size) (wrote : cache.arena.write host.start data = .ok arena)
      (entered : Entered code host { cache with arena := arena } block after) : Seated code data host cache block after

theorem placeCode_parts (ran : placeCode extent data cache = .ok () after) :
    data.length ≤ extent.size ∧ ∃ arena, cache.arena.write extent.start data = .ok arena ∧
      after = { cache with arena := arena } := by
  have ends : Ends (placeCode extent data) cache (fun _ after => data.length ≤ extent.size ∧
      ∃ arena, cache.arena.write extent.start data = .ok arena ∧ after = { cache with arena := arena }) fun _ _ => True := by
    unfold placeCode
    split
    · trivial
    · rename_i fits
      rw [ends_bind, ends_get, ends_bind, ends_ofExcept]
      exact ⟨fun arena wrote => ⟨Nat.le_of_not_lt fits, arena, wrote, rfl⟩, fun _ _ => trivial⟩
  exact ends.answer ran

theorem find_enter (cache : Cache) (block : Block) (pa : Nat) : (cache.enter block).find? pa =
    if pa = block.entryPa then some { block with lastUsed := cache.clock + 1 } else cache.find? pa := by
  unfold find? enter
  rw [List.find?_cons]
  by_cases here : pa = block.entryPa
  · simp [here]
  · simp [here, Ne.symm here]

theorem Entered.find {host : Extent} (entered : Entered code host cache block after) :
    after.find? code.entryPa = some block := by
  rw [entered.after, entered.block, find_enter]
  exact if_pos rfl

-- The end of every installation: a number, the checks of the map, and the entry into it.
theorem install_entered (code : HostCode) (host : Extent) (cache : Cache) :
    Ends (do install (← newBlock code host)) cache (fun _ after => ∃ block, Entered code host cache block after)
      fun _ _ => True := by
  unfold newBlock install
  simp only [ends_bind, ends_modifyGet, ends_get]
  split
  · trivial
  · rename_i live
    split
    · trivial
    · rename_i free
      exact ⟨_, by simpa using live, (Bool.not_eq_true _).mp free, rfl, rfl⟩

theorem answer_entered (code : HostCode) (host : Extent) (cache : Cache) :
    Ends (do
      let block ← newBlock code host
      install block
      return Except.ok (((← get).find? code.entryPa).getD block)) cache
      (fun (answer : Except Refusal Block) after => ∃ block, answer = .ok block ∧ Entered code host cache block after)
      fun _ _ => True := by
  have entered := install_entered code host cache
  rw [ends_bind] at entered ⊢
  refine entered.weaken fun block middle ends => ?_
  rw [ends_bind]
  refine ends.weaken ?_
  rintro _ after ⟨found, entered⟩
  rw [ends_bind, ends_get, ends_pure, entered.find]
  exact ⟨found, rfl, entered⟩

inductive Published (code : HostCode) (cache : Cache) : Except Refusal Block → Cache → Prop where
  | stale {frame : Nat} (moved : code.stamp.moved? cache.frames.version = some frame) :
      Published code cache (.error (.staleSnapshot frame)) cache
  | occupied (live : code.stamp.moved? cache.frames.version = none) (there : cache.contains code.entryPa = true) :
      Published code cache (.error (.alreadyInstalled code.entryPa)) cache
  | refused {after : Cache} (live : code.stamp.moved? cache.frames.version = none)
      (free : cache.contains code.entryPa = false) (cleared : Cleared cache after) :
      Published code cache (.error (.arenaExhausted code.code.size)) after
  | seated {middle after : Cache} {extent : Extent} {block : Block} (live : code.stamp.moved? cache.frames.version = none)
      (free : cache.contains code.entryPa = false) (given : Granted cache code.code.size (.ok extent) middle)
      (seated : Seated code code.code.toList extent middle block after) : Published code cache (.ok block) after

theorem publish_published (code : HostCode) (cache : Cache) :
    Ends (publish code) cache (Published code cache) fun _ _ => True := by
  unfold publish
  rw [ends_bind, ends_get]
  cases moved : code.stamp.moved? cache.frames.version with
  | some frame => exact .stale moved
  | none =>
    dsimp only
    by_cases there : cache.contains code.entryPa = true
    · rw [if_pos there]
      exact .occupied moved there
    rw [if_neg there, ends_bind]
    have free : cache.contains code.entryPa = false := by simpa using there
    refine (reserve_granted cache code.code.size).weaken fun answer middle granted => ?_
    cases answer with
    | error refusal =>
      cases granted with
      | refused cleared => exact .refused moved free cleared
    | ok extent =>
      dsimp only
      rw [ends_bind]
      refine Ends.intro (fun _ placed ran => ?_) fun _ _ _ => trivial
      obtain ⟨fits, arena, wrote, rfl⟩ := placeCode_parts ran
      refine (answer_entered code extent _).weaken ?_
      rintro _ after ⟨block, rfl, entered⟩
      exact .seated moved free granted ⟨fits, wrote, entered⟩

inductive Filled (pa size : Nat) (cache : Cache) : Except Refusal Block → Cache → Prop where
  | refused {after : Cache} (cleared : Cleared cache after) : Filled pa size cache (.error (.arenaExhausted size)) after
  | seated {middle after : Cache} {extent : Extent} {block : Block} {code : HostCode} (address : code.entryPa = pa)
      (given : Granted cache size (.ok extent) middle)
      (seated : Seated code (List.replicate size 0xAA) extent middle block after) : Filled pa size cache (.ok block) after

theorem installFiller_filled (pa size : Nat) (stamp : Option Stamp) (cache : Cache) :
    Ends (installFiller pa size stamp) cache (Filled pa size cache) fun _ _ => True := by
  unfold installFiller
  rw [ends_bind]
  refine (reserve_granted cache size).weaken fun answer middle granted => ?_
  cases answer with
  | error refusal =>
    cases granted with
    | refused cleared => exact .refused cleared
  | ok extent =>
    dsimp only
    rw [ends_bind]
    refine Ends.intro (fun _ placed ran => ?_) fun _ _ _ => trivial
    obtain ⟨fits, arena, wrote, rfl⟩ := placeCode_parts ran
    rw [ends_bind, ends_get]
    refine (answer_entered _ extent _).weaken ?_
    rintro _ after ⟨block, rfl, entered⟩
    exact .seated rfl granted ⟨fits, wrote, entered⟩

end TieredHart.Cache
