import TieredHart.Engine.Interpret

namespace TieredHart

namespace Engine

def refreshShortcuts : EngineM Unit := modify fun engine =>
  if engine.cache.retirements = engine.seenRetirements then engine
  else { engine with
    shortcuts := engine.shortcuts.purge engine.cache.block?
    seenRetirements := engine.cache.retirements }

def lookupBlock (pa : Nat) : EngineM (Option Block) := modifyGet fun engine =>
  match engine.shortcuts.lookup engine.cache.block? pa with
  | (some block, shortcuts) =>
    (some block, { engine with
      shortcuts := shortcuts
      counts := { engine.counts with shortcutHits := engine.counts.shortcutHits + 1 } })
  | (none, shortcuts) =>
    match engine.cache.lookup pa with
    | (some block, cache) => (some block, { engine with shortcuts := shortcuts.insert block, cache := cache })
    | (none, cache) => (none, { engine with shortcuts := shortcuts, cache := cache })

def secondUsable (frames : FrameTable) (space : AddressSpace) (pc : Word) : Option FrameVersion → Bool
  | none => true
  | some second =>
    match space .fetch pc.nextPage with
    | some location => Page.frame location.pa = second.frame ∧ frames.version second.frame = second.version
    | none => false

-- A block that may be run from pc. An installed block whose first frame has moved on would be stale code, which the
-- store hook makes impossible.
def usableBlock (space : AddressSpace) (pc : Word) (pa : Nat) : EngineM (Option Block) := do
  match ← lookupBlock pa with
  | none => return none
  | some block =>
    let frames := (← get).cache.frames
    let first := block.stamp.first
    if ¬ block.valid then return none
    if frames.version first.frame ≠ first.version then
      throw (.violated (.staleBlock pa first.version first.frame (frames.version first.frame)))
    return if secondUsable frames space pc block.stamp.second then some block else none

def promote (space : AddressSpace) (pc : Word) (pa : Nat) : EngineM Unit := do
  let queue := (← get).queue
  if queue.busy pa then return
  let (answer, queue) := queue.offer ⟨pa, pc, (space .fetch pc.nextPage).map (·.pa)⟩
  modify fun engine => { engine with queue := queue }
  match answer with
  | .sent =>
    count fun counts => { counts with compileRequests := counts.compileRequests + 1 }
    report (.queued pa)
  | .busy => pure ()
  | .full =>
    count fun counts => { counts with compileDropped := counts.compileDropped + 1 }
    report (.dropped pa)

def miss (space : AddressSpace) (pc : Word) (pa : Nat) : EngineM Unit := do
  modify fun engine => { engine with cache := { engine.cache with frames := engine.cache.frames.warm pa } }
  let cache := (← get).cache
  if cache.threshold ≤ cache.frames.heat pa then promote space pc pa

def enterFrame (frame : Nat) : EngineM Unit := do
  let engine ← get
  match engine.fetchFrame with
  | some previous =>
    if previous ≠ frame ∧ engine.cache.frames.state previous = .smcDetected then restoreFrame previous
  | none => pure ()
  modify fun engine => { engine with fetchFrame := some frame }

end Engine

namespace LoopM

def runCompiled (fuel : Nat) (space : AddressSpace) (block : Block) (pa : Nat) : LoopM Step := do
  onEngine (modify fun engine => { engine with cache := engine.cache.markUsed block.id })
  let core ← get
  let code ← MonadExcept.ofExcept (core.device.cache.code block)
  let bus := DataSide.codeBus space (Page.frame pa) block.stamp.frames
  let exit ← onDataSide (ThreadedCode.run fuel code bus ⟨core.hart.pc, pa⟩)
  setPc exit.nextPc
  onEngine do
    Engine.count fun counts =>
      { counts with compiledBlocks := counts.compiledBlocks + 1, compiledInsns := counts.compiledInsns + exit.insns }
    match exit.refusedCsr with
    | some csr => Engine.report (.refusedCsr csr exit.nextPc)
    | none => pure ()
    Engine.report (.ran pa exit)
  match exit.cause with
  | .fallthrough => return .next exit.chain
  | .exception fault => return .fault fault
  | .interrupt | .toInterpreter => return .next none

-- Run one block at a physical address: interpreted if its frame is being overwritten, compiled if there is a usable
-- block, and otherwise counted and interpreted.
def enterBlock (fuel : Nat) (space : AddressSpace) (pc : Word) (pa : Nat) : LoopM Step := do
  onEngine (Engine.enterFrame (Page.frame pa))
  if (← get).device.cache.frames.state (Page.frame pa) = .smcDetected then
    onEngine (Engine.count fun counts => { counts with forcedInterp := counts.forcedInterp + 1 })
    runInterpreted space pa
  else
    match ← onEngine (Engine.usableBlock space pc pa) with
    | some block => runCompiled fuel space block pa
    | none =>
      onEngine (Engine.miss space pc pa)
      runInterpreted space pa

end LoopM
end TieredHart
