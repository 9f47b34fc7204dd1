import TieredHart.Engine.Dispatch

namespace TieredHart

inductive RunEnd where
  | halted (trap : Trap)
  | blockLimit
  deriving DecidableEq

inductive Turn (τ : Type) where
  | again (chain : Option Nat) (memory : τ)
  | ended (reason : RunEnd) (memory : τ)

namespace LoopM

variable {τ : Type}

def raise (handler : TrapHandler τ) (trap : Trap) (memory : τ) : LoopM (TrapReply × τ) := do
  onEngine (Engine.report (.trapped trap (← get).hart.pc))
  let (action, hart, memory) ← MonadExcept.ofExcept (handler.handle trap (← get).hart memory)
  Core.modifyHart fun _ => hart
  return (action, memory)

-- Run the block at pc. A known physical address needs neither the alignment check nor the address space.
def runNext (fuel : Nat) (space : AddressSpace) (chain : Option Nat) : LoopM Step := do
  let pc := (← get).hart.pc
  match chain with
  | some pa =>
    onEngine (Engine.count fun counts => { counts with chained := counts.chained + 1 })
    enterBlock fuel space pc pa
  | none =>
    if pc.toNat % 2 = 1 then return .fault (.instructionMisaligned pc)
    match space .fetch pc with
    | some location => enterBlock fuel space pc location.pa
    | none => return .fault (PageFault.fault ⟨pc, .fetch⟩)

def settle (handler : TrapHandler τ) (step : Step) (memory : τ) : LoopM (Turn τ) := do
  match step with
  | .next chain => return .again chain memory
  | .fault fault =>
    onEngine (Engine.count fun counts => { counts with exceptions := counts.exceptions + 1 })
    match ← raise handler (.exception fault) memory with
    | (.resume, memory) => return .again none memory
    | (.halt, memory) => return .ended (.halted (.exception fault)) memory

def takeInterrupt (handler : TrapHandler τ) (chain : Option Nat) (memory : τ) : LoopM (Turn τ) := do
  match (← get).hart.interruptToTake with
  | none => return .again chain memory
  | some code =>
    onEngine (Engine.count fun counts => { counts with interrupts := counts.interrupts + 1 })
    match ← raise handler (.interrupt code) memory with
    | (.resume, memory) => return .again none memory
    | (.halt, memory) => return .ended (.halted (.interrupt code)) memory

def turn (fuel : Nat) (space : AddressSpace) (handler : TrapHandler τ) (chain : Option Nat) (memory : τ) :
    LoopM (Turn τ) := do
  onEngine Engine.refreshShortcuts
  let step ← runNext fuel space chain
  match ← settle handler step memory with
  | .ended reason memory => return .ended reason memory
  | .again chain memory => takeInterrupt handler chain memory

def runFrom (space : AddressSpace) (handler : TrapHandler τ) (limit : Option Nat) :
    Nat → Nat → Option Nat → τ → LoopM (RunEnd × τ)
  | fuel, blocks, chain, memory => do
    if limit.any (· ≤ blocks) then return (.blockLimit, memory)
    match fuel with
    | 0 => throw .outOfFuel
    | fuel + 1 =>
      match ← turn fuel space handler chain memory with
      | .ended reason memory => return (reason, memory)
      | .again chain memory => runFrom space handler limit fuel (blocks + 1) chain memory

-- Execute from the hart's pc. The fuel bounds the number of turns, and in each the records of compiled code.
def run (fuel : Nat) (space : AddressSpace) (handler : TrapHandler τ) (limit : Option Nat) (memory : τ) :
    LoopM (RunEnd × τ) := runFrom space handler limit fuel 0 none memory

end LoopM
end TieredHart
