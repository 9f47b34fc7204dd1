import TieredHart.Cache.Departure

namespace TieredHart.Cache

structure Search where
  lru : List (Nat × Nat)
  filed : List (Nat × Nat)
  aside : List (Nat × Nat)

-- Look at the oldest entry. One used since it was filed is filed again, one referenced from outside is set aside, and
-- the first other one is the victim. The budget bounds how often entries are filed again.
def findVictim (cache : Cache) : Nat → Search → Option Nat × Search
  | 0, search => (none, search)
  | budget + 1, search =>
    match search.lru with
    | [] => (none, search)
    | (tick, pa) :: lru =>
      match cache.find? pa with
      | none => findVictim cache budget { search with lru := lru, filed := Lru.forget search.filed pa }
      | some block =>
        if block.lastUsed ≠ tick then
          findVictim cache budget { search with
            lru := Lru.insert (block.lastUsed, pa) lru
            filed := Lru.file search.filed pa block.lastUsed }
        else if cache.inUse block.id then
          findVictim cache budget { search with lru := lru, aside := search.aside ++ [(tick, pa)] }
        else (some pa, { search with lru := lru })

-- The least recently used installed block that nothing else references. Every entry is filed again at most once, so
-- twice their number of looks and one more are enough.
def victim (cache : Cache) : Option Nat × Cache :=
  let (found, search) := findVictim cache (2 * cache.filed.length + 1) ⟨cache.lru, cache.filed, []⟩
  (found, { cache with lru := search.aside.foldl (fun lru entry => Lru.insert entry lru) search.lru
                       filed := search.filed })

-- Evict until an allocation fits. Each round but the last takes a block out, so one round more than there are blocks
-- always suffices.
def makeRoom (size : Nat) : Nat → EStateM Failure Cache (Except Refusal Extent)
  | 0 => return .error (.arenaExhausted size)
  | rounds + 1 => do
    match ← MonadExcept.ofExcept ((← get).extents.alloc size) with
    | some (extent, extents) =>
      modify fun cache => { cache with extents := extents }
      return .ok extent
    | none =>
      match ← modifyGet victim with
      | none =>
        modify fun cache => { cache with counts := { cache.counts with
          exhaustedAborts := cache.counts.exhaustedAborts + 1 } }
        return .error (.arenaExhausted size)
      | some pa =>
        modify fun cache => (cache.remove pa .evicted).getD cache
        let _ ← recycle
        makeRoom size rounds

def reserve (size : Nat) : EStateM Failure Cache (Except Refusal Extent) := do
  let need ← MonadExcept.ofExcept (ExtentPool.rounded size)
  if (← get).extents.capacity < need then return .error (.arenaExhausted size)
  let _ ← recycle
  makeRoom size ((← get).installed.length + 1)

end TieredHart.Cache
