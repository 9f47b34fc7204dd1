import TieredHart.Engine.Store

namespace TieredHart

variable {α σ : Type}

-- Where a data access goes. The line of its page is raised even if memory then has nothing there.
def AddressSpace.locate (space : AddressSpace) (kind : Access) (va : Word) :
    EStateM Failure (Attached σ) (Except Fault Nat) := do
  match space kind va with
  | none => return .error (PageFault.fault ⟨va, kind⟩)
  | some location =>
    match location.irq with
    | none => pure ()
    | some code =>
      let lines ← MonadExcept.ofExcept (Lines.raised (← get).lines code)
      modify fun s => { s with lines := lines }
    return .ok location.pa

structure DataSide where
  engine : Engine
  exit : Bool

namespace DataSide

def onEngine (action : EngineM α) : EStateM Failure (Attached DataSide) α := fun s =>
  match action s.device.engine with
  | .ok a engine => .ok a { s with device := { s.device with engine := engine } }
  | .error e engine => .error e { s with device := { s.device with engine := engine } }

def load (space : AddressSpace) (va : Word) (width : Width) :
    EStateM Failure (Attached DataSide) (Except Fault Word) := do
  match ← AddressSpace.locate space .load va with
  | .error fault => return .error fault
  | .ok pa =>
    match ← onEngine (Engine.readRam pa width.bytes) with
    | .error _ => return .error (.loadAccess va)
    | .ok bytes => return .ok (BitVec.ofNat 64 (Bytes.value bytes))

-- A store to the frame code is fetched from, or to one the running block was built from, ends the block.
def store (space : AddressSpace) (fetch : Nat) (codeFrames : List Nat) (va : Word) (width : Width) (value : Word) :
    EStateM Failure (Attached DataSide) (Except Fault Unit) := do
  match ← AddressSpace.locate space .store va with
  | .error fault => return .error fault
  | .ok pa =>
    match ← onEngine (Engine.store pa (Bytes.ofNat width.bytes value.toNat) (some fetch)) with
    | .error _ => return .error (.storeAccess va)
    | .ok outcome =>
      if outcome.samePage || codeFrames.contains (Page.frame pa) then
        modify fun s => { s with device := { s.device with exit := true } }
      return .ok ()

def codeBus (space : AddressSpace) (fetch : Nat) (codeFrames : List Nat) : CodeBus DataSide where
  load := load space
  store := store space fetch codeFrames
  poll hart side := (hart.interruptToTake.isSome, side)
  mustLeave side := side.exit

end DataSide

abbrev LoopM := EStateM Failure (Core Engine)

namespace LoopM

def onEngine (action : EngineM α) : LoopM α := fun core =>
  match action core.device with
  | .ok a engine => .ok a { core with device := engine }
  | .error e engine => .error e { core with device := engine }

def onDataSide (action : EStateM Failure (Core DataSide) α) : LoopM α := fun core =>
  match action ⟨core.hart, ⟨core.device, false⟩⟩ with
  | .ok a c => .ok a ⟨c.hart, c.device.engine⟩
  | .error e c => .error e ⟨c.hart, c.device.engine⟩

def setPc (pc : Word) : LoopM Unit := Core.modifyHart ({ · with pc := pc })

end LoopM
end TieredHart
