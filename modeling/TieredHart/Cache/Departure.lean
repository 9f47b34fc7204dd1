import TieredHart.Cache.Basic

namespace TieredHart

inductive Departure where
  | evicted | invalidated
  deriving DecidableEq

namespace Cache

def countRemoval (counts : CacheCounts) : Departure → CacheCounts
  | .evicted => { counts with evictions := counts.evictions + 1 }
  | .invalidated => { counts with invalidations := counts.invalidations + 1 }

-- Take the block at an address out of every index and retire it. Its extent stays taken for now.
def remove (cache : Cache) (pa : Nat) (why : Departure) : Option Cache :=
  match cache.find? pa with
  | none => none
  | some block =>
    let journal := match why with
      | .evicted => cache.journal.push (.evicted pa block.lastUsed)
      | .invalidated => cache.journal
    let lru := match Lru.tick? cache.filed pa with
      | some tick => cache.lru.filter (· ≠ (tick, pa))
      | none => cache.lru
    some { cache with
      installed := cache.installed.filter (·.entryPa ≠ pa)
      lru := lru
      filed := Lru.forget cache.filed pa
      frames := block.stamp.frames.foldl (·.unregister pa ·) cache.frames
      counts := countRemoval cache.counts why
      journal := journal
      retired := cache.retired ++ [{ block with valid := false }]
      retirements := cache.retirements + 1 }

def removeAll (cache : Cache) : List Nat → Nat × Cache
  | [] => (0, cache)
  | pa :: rest =>
    match cache.remove pa .invalidated with
    | some cache =>
      let (count, cache) := removeAll cache rest
      (count + 1, cache)
    | none => removeAll cache rest

def dropFrame (cache : Cache) (frame : Nat) : Nat × Cache :=
  let entries := cache.frames.entries frame
  let (removed, cache) := removeAll { cache with frames := cache.frames.clearEntries frame } entries
  (removed, if 0 < removed then cache.report (.invalidated removed frame) else cache)

def recycleFrom (inUse : Nat → Bool) : List Block → ExtentPool → Except Failure (List Block × ExtentPool)
  | [], extents => .ok ([], extents)
  | block :: rest, extents =>
    if inUse block.id then do
      let (kept, extents) ← recycleFrom inUse rest extents
      return (block :: kept, extents)
    else do
      let extents ← extents.release block.host.start block.host.stop
      recycleFrom inUse rest extents

def recycle : EStateM Failure Cache Nat := do
  let cache ← get
  let (kept, extents) ← MonadExcept.ofExcept (recycleFrom cache.inUse cache.retired cache.extents)
  set { cache with retired := kept, extents := extents }
  return cache.retired.length - kept.length

end Cache
end TieredHart
