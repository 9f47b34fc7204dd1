import TieredHart.Cache.Eviction

namespace TieredHart

structure HostCode where
  entryPa : Nat
  entryVa : Word
  code : Array UInt8
  guestLen : Nat
  insnCount : Nat
  ending : Ending
  hasLoop : Bool
  stamp : Stamp
  deriving DecidableEq

namespace Cache

def placeCode (extent : Extent) (code : List UInt8) : EStateM Failure Cache Unit := do
  if extent.size < code.length then throw .assertion
  let arena ← MonadExcept.ofExcept ((← get).arena.write extent.start code)
  modify fun cache => { cache with arena := arena }

def enter (cache : Cache) (block : Block) : Cache :=
  let tick := cache.clock + 1
  let pa := block.entryPa
  let lru := match Lru.tick? cache.filed pa with
    | some old => cache.lru.filter (· ≠ (old, pa))
    | none => cache.lru
  { cache with
    installed := { block with lastUsed := tick } :: cache.installed
    frames := block.stamp.frames.foldl (·.register pa ·) cache.frames
    clock := tick
    lru := Lru.insert (tick, pa) lru
    filed := Lru.file cache.filed pa tick
    counts := { cache.counts with installs := cache.counts.installs + 1 }
    journal := cache.journal.push (.installed pa block.insnCount block.guestLen block.host.size) }

-- Publish a block. That its stamp is live and its address free is for the caller to have checked.
def install (block : Block) : EStateM Failure Cache Unit := do
  let cache ← get
  if (block.stamp.moved? cache.frames.version).isSome then throw (.violated (.staleInstall block.entryPa))
  if cache.contains block.entryPa then throw (.violated (.doubleInstall block.entryPa))
  set (cache.enter block)

def newBlock (code : HostCode) (host : Extent) : EStateM Failure Cache Block := modifyGet fun cache =>
  (⟨cache.nextId, code.entryPa, code.entryVa, code.guestLen, code.insnCount, host, code.ending, code.hasLoop,
    code.stamp, true, 0⟩, { cache with nextId := cache.nextId + 1 })

-- Check, make room, write and publish. Code whose frames were written since they were read is refused first, then code
-- for an address that already has a block.
def publish (code : HostCode) : EStateM Failure Cache (Except Refusal Block) := do
  let cache ← get
  match code.stamp.moved? cache.frames.version with
  | some frame => return .error (.staleSnapshot frame)
  | none =>
    if cache.contains code.entryPa then return .error (.alreadyInstalled code.entryPa)
    match ← reserve code.code.size with
    | .error refusal => return .error refusal
    | .ok extent =>
      placeCode extent code.code.toList
      let block ← newBlock code extent
      install block
      return .ok (((← get).find? code.entryPa).getD block)

-- A block that stands for code of a given size without having any: its extent is filled with one byte. Unless a stamp
-- is given it is stamped with the live version of its frame.
def installFiller (pa size : Nat) (stamp : Option Stamp) : EStateM Failure Cache (Except Refusal Block) := do
  match ← reserve size with
  | .error refusal => return .error refusal
  | .ok extent =>
    placeCode extent (List.replicate size 0xAA)
    let frame := Page.frame pa
    let stamp := stamp.getD ⟨⟨frame, (← get).frames.version frame⟩, none⟩
    let block ← newBlock ⟨pa, BitVec.ofNat 64 pa, #[], 4, 1, .directBranch, false, stamp⟩ extent
    install block
    return .ok (((← get).find? pa).getD block)

end Cache
end TieredHart
