import TieredHart.Engine.Basic

namespace TieredHart

structure StoreEffect where
  invalidated : Nat
  -- Whether the store hit the frame instructions are fetched from.
  samePage : Bool
  deriving DecidableEq

namespace Cache

-- What a write does to one frame: its blocks go, its version moves, its heat is gone, and it changes state if code is
-- being fetched from it.
def frameWritten (cache : Cache) (fetch : Option Nat) (frame : Nat) : Nat × Cache :=
  let (removed, cache) := cache.dropFrame frame
  let frames := (cache.frames.bump frame).cool frame
  (removed, { cache with
    frames := if fetch = some frame then frames.setState frame .smcDetected else frames })

def framesWritten (cache : Cache) (fetch : Option Nat) : List Nat → Nat × Cache
  | [] => (0, cache)
  | frame :: rest =>
    let (removed, cache) := cache.frameWritten fetch frame
    let (others, cache) := cache.framesWritten fetch rest
    (removed + others, cache)

end Cache

namespace Engine

def framesOf (pa len : Nat) : List Nat :=
  List.range' (Page.frame pa) (Page.frame (pa + len - 1) - Page.frame pa + 1)

-- Write memory and drop what was compiled from the bytes before. The end of the range has to be an address, which is
-- asked before memory is.
def store (pa : Nat) (data : List UInt8) (fetch : Option Nat) : EngineM (Except OutOfRange StoreEffect) := do
  if data.isEmpty then return .ok ⟨0, false⟩
  if hostLimit ≤ pa + data.length then throw (.storeEnd pa data.length)
  match ← MonadExcept.ofExcept ((← get).ram.write pa data) with
  | .error error => return .error error
  | .ok ram =>
    let frames := framesOf pa data.length
    let removed ← modifyGet fun engine =>
      let (removed, cache) := engine.cache.framesWritten fetch frames
      (removed, { engine with ram := ram, cache := cache })
    let samePage := frames.any fun frame => fetch = some frame
    if samePage then report (.storeToExecuting (Page.frame pa))
    return .ok ⟨removed, samePage⟩

def deviceStore (pa : Nat) (data : List UInt8) : EngineM (Except OutOfRange StoreEffect) := do
  store pa data (← get).fetchFrame

def restoreFrame (frame : Nat) : EngineM Unit := do
  modify fun engine => { engine with cache := { engine.cache with
    frames := engine.cache.frames.setState frame .normal } }
  report (.backToNormal frame)

end Engine
end TieredHart
