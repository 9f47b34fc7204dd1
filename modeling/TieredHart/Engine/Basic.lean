import TieredHart.Compile
import TieredHart.RequestQueue
import TieredHart.Config
import TieredHart.Shortcuts
import TieredHart.Ram
import TieredHart.AddressSpace

namespace TieredHart

structure RunCounts where
  interpBlocks : Nat := 0
  interpInsns : Nat := 0
  compiledBlocks : Nat := 0
  compiledInsns : Nat := 0
  shortcutHits : Nat := 0
  -- Blocks entered at an address known from the block before.
  chained : Nat := 0
  -- Blocks interpreted because of the state of their frame.
  forcedInterp : Nat := 0
  interrupts : Nat := 0
  exceptions : Nat := 0
  compileRequests : Nat := 0
  compileDropped : Nat := 0
  deriving DecidableEq

def RunCounts.named (counts : RunCounts) : List (String × Nat) :=
  [("interp_blocks", counts.interpBlocks), ("interp_insns", counts.interpInsns),
   ("compiled_blocks", counts.compiledBlocks), ("compiled_insns", counts.compiledInsns),
   ("jump_cache_hits", counts.shortcutHits), ("chained", counts.chained), ("forced_interp", counts.forcedInterp),
   ("interrupts", counts.interrupts), ("exceptions", counts.exceptions),
   ("compile_requests", counts.compileRequests), ("compile_dropped", counts.compileDropped)]

structure Engine where
  config : Config
  ram : Ram
  cache : Cache
  queue : RequestQueue
  shortcuts : Shortcuts
  fetchFrame : Option Nat
  counts : RunCounts
  -- Retirements at the last purge of the shortcuts.
  seenRetirements : Nat
  deriving DecidableEq

abbrev EngineM := EStateM Failure Engine

namespace Engine

variable {α : Type}

inductive SetupError where
  | config (problem : Config.Problem)
  | arena
  deriving DecidableEq

-- A new engine around a memory. Its frames are tracked from the memory's base frame on, one for each whole page.
def setup (config : Config) (ram : Ram) (host : Host := {}) : Except Failure (Except SetupError Engine) := do
  match config.problem? with
  | some problem => return .error (.config problem)
  | none =>
    match ← Arena.map? config.codeArenaSize host with
    | none => return .error .arena
    | some arena =>
      let queue ← RequestQueue.ofDepth config.compileQueueDepth host
      let cache := Cache.ofArena arena ram.baseFrame ram.pages config.promotionThreshold
      return .ok {
        config := config
        ram := ram
        cache := cache.report (.arenaMapped (arena.capacity / 1024))
        queue := queue
        shortcuts := .empty
        fetchFrame := none
        counts := {}
        seenRetirements := 0 }

def report (event : Event) : EngineM Unit :=
  modify fun engine => { engine with cache := engine.cache.report event }

def onCache (action : EStateM Failure Cache α) : EngineM α := fun engine =>
  match action engine.cache with
  | .ok a cache => .ok a { engine with cache := cache }
  | .error e cache => .error e { engine with cache := cache }

def count (change : RunCounts → RunCounts) : EngineM Unit :=
  modify fun engine => { engine with counts := change engine.counts }

def readRam (pa len : Nat) : EngineM (Except OutOfRange (List UInt8)) := do
  MonadExcept.ofExcept ((← get).ram.read pa len)

def loadImage (pa : Nat) (data : List UInt8) : EngineM (Except OutOfRange Unit) := do
  match ← MonadExcept.ofExcept ((← get).ram.write pa data) with
  | .error error => return .error error
  | .ok ram =>
    modify fun engine => { engine with ram := ram }
    return .ok ()

-- The events since some earlier length of the journal. A violation that ended the action is the last of them.
def eventsSince (engine : Engine) (start : Nat) (failure : Option Failure) : List Event :=
  (engine.cache.journal.toList.drop start) ++
    match failure with
    | some (.violated violation) => [.violated violation]
    | _ => []

end Engine
end TieredHart
