import TieredHart.Failure

namespace TieredHart

structure Extent where
  start : Nat
  size : Nat
  deriving DecidableEq

def Extent.stop (extent : Extent) : Nat := extent.start + extent.size

-- First-fit allocation over a fixed range. Free extents are sorted by their starts and merged with their neighbours
-- when one is given back, so giving everything back leaves one extent.
structure ExtentPool where
  capacity : Nat
  free : List Extent
  freeBytes : Nat
  deriving DecidableEq

namespace ExtentPool

def unit : Nat := 16

def rounded (size : Nat) : Except Failure Nat := checkedRoundUp unit (max size 1)

def ofCapacity (capacity : Nat) : ExtentPool :=
  let whole := capacity / 16 * 16
  ⟨whole, if whole = 0 then [] else [⟨0, whole⟩], whole⟩

-- At most one extent starts at a place; a new one there takes the place of the old.
def place (extent : Extent) : List Extent → List Extent
  | [] => [extent]
  | other :: rest =>
    if extent.start < other.start then extent :: other :: rest
    else if extent.start = other.start then extent :: rest
    else other :: place extent rest

def without (start : Nat) (free : List Extent) : List Extent := free.filter (·.start ≠ start)

def startingAt? (start : Nat) (free : List Extent) : Option Extent := free.find? (·.start = start)

def before? (start : Nat) (free : List Extent) : Option Extent := (free.filter (·.start < start)).getLast?

def fragments (pool : ExtentPool) : Nat := pool.free.length

def canFit (pool : ExtentPool) (size : Nat) : Except Failure Bool := do
  let need ← rounded size
  return pool.free.any (need ≤ ·.size)

def take (pool : ExtentPool) (need : Nat) : Option (Extent × ExtentPool) :=
  match pool.free.find? (need ≤ ·.size) with
  | none => none
  | some hole =>
    let others := without hole.start pool.free
    let free := if need < hole.size then place ⟨hole.start + need, hole.size - need⟩ others else others
    some (⟨hole.start, need⟩, ⟨pool.capacity, free, pool.freeBytes - need⟩)

def alloc (pool : ExtentPool) (size : Nat) : Except Failure (Option (Extent × ExtentPool)) := do
  return pool.take (← rounded size)

-- Join an extent with the free one that ends where it starts; one that reaches into it has been given back before.
def joinBefore (extent : Extent) (free : List Extent) : Except Failure (Extent × List Extent) :=
  match before? extent.start free with
  | none => .ok (extent, free)
  | some left =>
    if extent.start < left.stop then .error .assertion
    else if left.stop = extent.start then .ok (⟨left.start, left.size + extent.size⟩, without left.start free)
    else .ok (extent, free)

def joinAfter (extent : Extent) (free : List Extent) : Extent × List Extent :=
  match startingAt? extent.stop free with
  | none => (extent, free)
  | some right => (⟨extent.start, extent.size + right.size⟩, without extent.stop free)

-- Give back a range. It has to be made of whole units inside the capacity and must not start inside a free extent.
def release (pool : ExtentPool) (start stop : Nat) : Except Failure ExtentPool := do
  let size := stop - start
  if start % 16 ≠ 0 ∨ size % 16 ≠ 0 ∨ pool.capacity < stop then throw .assertion
  let freeBytes ← checkedAdd pool.freeBytes size
  let (extent, free) ← joinBefore ⟨start, size⟩ pool.free
  let (extent, free) := joinAfter extent free
  return ⟨pool.capacity, place extent free, freeBytes⟩

end ExtentPool
end TieredHart
