import TieredHart.Engine.Basic

namespace TieredHart.Engine

-- First phase: versions and bytes, taken together. An odd address is never fetched from.
def capture (request : CompileRequest) : EngineM (Except Refusal Snapshot) := do
  let pa := request.entryPa
  if pa % 2 = 1 then return .error (.empty pa)
  let frames := (← get).cache.frames
  if (← get).cache.contains pa then return .error (.alreadyInstalled pa)
  let stampOf (pa : Nat) : FrameVersion := ⟨Page.frame pa, frames.version (Page.frame pa)⟩
  match ← readRam pa (Page.rest pa) with
  | .error _ => return .error (.empty pa)
  | .ok bytes =>
    match request.nextPage with
    | none => return .ok ⟨pa, request.entryVa, bytes, ⟨stampOf pa, none⟩⟩
    | some next =>
      match ← readRam next 2 with
      | .error _ => return .ok ⟨pa, request.entryVa, bytes, ⟨stampOf pa, none⟩⟩
      | .ok half => return .ok ⟨pa, request.entryVa, bytes ++ half, ⟨stampOf pa, some (stampOf next)⟩⟩

-- Second phase, on the private copy alone. Safepoints poll at the engine's own interval.
def compileWith (interval maxInsns : Nat) (taken : Snapshot) : EngineM (Except Refusal HostCode) := do
  match ← MonadExcept.ofExcept (Compile.compile (← get).config.safepointInterval interval maxInsns taken) with
  | .error refusal => return .error refusal
  | .ok code =>
    report (.compiled code.entryPa code.insnCount code.ending code.hasLoop)
    return .ok code

def compile (taken : Snapshot) : EngineM (Except Refusal HostCode) := do
  let config := (← get).config
  compileWith config.safepointInterval config.maxBlockInsns taken

-- Third phase: the versions are compared again before anything is published.
def publish (code : HostCode) : EngineM (Except Refusal Block) := onCache (Cache.publish code)

def phases (request : CompileRequest) : EngineM (Except Refusal Block) := do
  match ← capture request with
  | .error refusal => return .error refusal
  | .ok taken =>
    match ← compile taken with
    | .error refusal => return .error refusal
    | .ok code => publish code

def countRefusal (counts : CacheCounts) : Refusal → CacheCounts
  | .staleSnapshot _ => { counts with staleAborts := counts.staleAborts + 1 }
  | .alreadyInstalled _ => { counts with duplicateAborts := counts.duplicateAborts + 1 }
  | .empty _ | .arenaExhausted _ => counts

def fulfil (request : CompileRequest) : EngineM (Except Refusal Block) := do
  let result ← phases request
  modify fun engine => { engine with queue := engine.queue.complete request.entryPa }
  match result with
  | .ok _ => pure ()
  | .error refusal =>
    modify fun engine => { engine with cache := { engine.cache with
      counts := countRefusal engine.cache.counts refusal } }
    report (.aborted request.entryPa refusal)
  return result

def fulfilFrom : Nat → EngineM Nat
  | 0 => return 0
  | more + 1 => do
    match (← get).queue.receive? with
    | none => return 0
    | some (request, queue) =>
      modify fun engine => { engine with queue := queue }
      let result ← fulfil request
      let rest ← fulfilFrom more
      return rest + match result with
        | .ok _ => 1
        | .error _ => 0

def fulfilAll : EngineM Nat := do fulfilFrom (← get).queue.pending

end TieredHart.Engine
