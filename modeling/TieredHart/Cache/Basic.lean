import TieredHart.Arena
import TieredHart.Event
import TieredHart.FrameTable

namespace TieredHart

structure CacheCounts where
  hits : Nat := 0
  misses : Nat := 0
  installs : Nat := 0
  evictions : Nat := 0
  invalidations : Nat := 0
  staleAborts : Nat := 0
  duplicateAborts : Nat := 0
  exhaustedAborts : Nat := 0
  deriving DecidableEq

def CacheCounts.named (counts : CacheCounts) : List (String × Nat) :=
  [("hits", counts.hits), ("misses", counts.misses), ("installs", counts.installs), ("evictions", counts.evictions),
   ("invalidations", counts.invalidations), ("stale_aborts", counts.staleAborts),
   ("duplicate_aborts", counts.duplicateAborts), ("exhausted_aborts", counts.exhaustedAborts)]

structure Cache where
  frames : FrameTable
  -- Misses that make an address worth compiling.
  threshold : Nat
  arena : Arena
  extents : ExtentPool
  installed : List Block
  -- Filed ticks with entry addresses, oldest first. A tick may lag behind the block's last use.
  lru : List (Nat × Nat)
  -- The tick each entry address is filed under.
  filed : List (Nat × Nat)
  -- Blocks that left, waiting for their last reference to go away.
  retired : List Block
  -- Numbers of blocks referenced from outside, once per reference.
  references : List Nat
  clock : Nat
  retirements : Nat
  nextId : Nat
  counts : CacheCounts
  journal : Array Event
  deriving DecidableEq

namespace Cache

def ofArena (arena : Arena) (baseFrame pages threshold : Nat) : Cache where
  frames := .fresh baseFrame pages
  threshold := max threshold 1
  arena := arena
  extents := .ofCapacity arena.capacity
  installed := []
  lru := []
  filed := []
  retired := []
  references := []
  clock := 0
  retirements := 0
  nextId := 0
  counts := {}
  journal := #[]

def report (cache : Cache) (event : Event) : Cache := { cache with journal := cache.journal.push event }

def find? (cache : Cache) (pa : Nat) : Option Block := cache.installed.find? (·.entryPa = pa)

def contains (cache : Cache) (pa : Nat) : Bool := (cache.find? pa).isSome

def block? (cache : Cache) (id : Nat) : Option Block := (cache.installed ++ cache.retired).find? (·.id = id)

def inUse (cache : Cache) (id : Nat) : Bool := cache.references.contains id

def acquire (cache : Cache) (id : Nat) : Cache := { cache with references := id :: cache.references }

def release (cache : Cache) (id : Nat) : Cache := { cache with references := cache.references.erase id }

def lookup (cache : Cache) (pa : Nat) : Option Block × Cache :=
  match cache.find? pa with
  | some block => (some block, { cache with counts := { cache.counts with hits := cache.counts.hits + 1 } })
  | none => (none, { cache with counts := { cache.counts with misses := cache.counts.misses + 1 } })

def useAt (tick id : Nat) (blocks : List Block) : List Block :=
  blocks.map fun block => if block.id = id then { block with lastUsed := tick } else block

-- Record a use at a new tick. The order of eviction catches up later.
def markUsed (cache : Cache) (id : Nat) : Cache :=
  let tick := cache.clock + 1
  { cache with
    clock := tick
    installed := useAt tick id cache.installed
    retired := useAt tick id cache.retired }

def code (cache : Cache) (block : Block) : Except Failure (Array UInt8) :=
  cache.arena.code block.host.start block.host.stop

end Cache

namespace Lru

def before (a b : Nat × Nat) : Bool := a.1 < b.1 ∨ (a.1 = b.1 ∧ a.2 < b.2)

def insert (entry : Nat × Nat) : List (Nat × Nat) → List (Nat × Nat)
  | [] => [entry]
  | other :: rest =>
    if before entry other then entry :: other :: rest
    else if entry = other then other :: rest
    else other :: insert entry rest

def tick? (filed : List (Nat × Nat)) (pa : Nat) : Option Nat := (filed.find? (·.1 = pa)).map (·.2)

def forget (filed : List (Nat × Nat)) (pa : Nat) : List (Nat × Nat) := filed.filter (·.1 ≠ pa)

def file (filed : List (Nat × Nat)) (pa tick : Nat) : List (Nat × Nat) := (pa, tick) :: forget filed pa

end Lru
end TieredHart
