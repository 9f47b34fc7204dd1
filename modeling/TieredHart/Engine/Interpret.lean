import TieredHart.Engine.DataSide

namespace TieredHart

-- What running one block comes to: go on at pc, whose physical address may be known, or take an exception at pc.
inductive Step where
  | next (chain : Option Nat)
  | fault (fault : Fault)
  deriving DecidableEq

inductive Fetched where
  | insn (insn : Instruction) (crosses : Bool)
  -- Its second half is on a page that may not be fetched from, and instructions before it already ran.
  | stop
  | fault (fault : Fault)
  deriving DecidableEq

inductive Interpreted where
  -- The block is over, with so many instructions retired.
  | over (insns : Nat) (step : Step)
  -- An instruction of a length retired, and the block goes on after it.
  | further (next : Word) (len : Nat)
  deriving DecidableEq

namespace Fetched

def ofBytes (crosses : Bool) (bytes : List UInt8) : Fetched :=
  match Instruction.decode bytes with
  | .ok decoded => .insn decoded crosses
  | .error reason => .fault reason

end Fetched

namespace Engine

def fetchHigh (pc : Word) (crosses : Bool) (low : List UInt8) (pa : Nat) : EngineM Fetched := do
  match ← readRam pa 2 with
  | .error _ => return .fault (.instructionAccess pc)
  | .ok high => return .ofBytes crosses (low ++ high)

-- The instruction at pc, whose physical address is given. A long one at the end of a page has its upper half looked up
-- through the next page; if that may not be fetched from, the block ends before the instruction unless it is the first.
def fetchInsn (space : AddressSpace) (pc : Word) (pa : Nat) (first : Bool) : EngineM Fetched := do
  match ← readRam pa 2 with
  | .error _ => return .fault (.instructionAccess pc)
  | .ok low =>
    if Instruction.lengthOf (Bytes.value low) = 2 then return .ofBytes false low
    else if Page.offset pa = 4094 then
      match space .fetch (pc + 2) with
      | some location => fetchHigh pc true low location.pa
      | none => if first then return .fault (PageFault.fault ⟨pc + 2, .fetch⟩) else return .stop
    else
      let high ← MonadExcept.ofExcept (checkedAdd pa 2)
      fetchHigh pc false low high

end Engine

namespace LoopM

def executeOne (space : AddressSpace) (frame : Nat) (insn : Instruction) (pc : Word) :
    LoopM (Except Fault Flow) := do
  let result ← onDataSide (execute (DataSide.codeBus space frame []).toBus insn pc)
  match result, insn.readOnlyCsr? with
  | .error _, some csr => onEngine (Engine.report (.refusedCsr csr pc))
  | _, _ => pure ()
  return result

-- Interpret the instruction at pc, with n instructions of the block behind. pc of the hart follows every retired
-- instruction, so it stays at one that faults.
def interpretOne (space : AddressSpace) (frame : Nat) (pc : Word) (pa n : Nat) : LoopM Interpreted := do
  match ← onEngine (Engine.fetchInsn space pc pa (n = 0)) with
  | .fault fault => return .over n (.fault fault)
  | .stop => return .over n (.next none)
  | .insn insn crosses =>
    match ← executeOne space frame insn pc with
    | .error fault => return .over n (.fault fault)
    | .ok flow =>
      let next := flow.target pc insn.len
      setPc next
      if insn.isTerminal || crosses then return .over (n + 1) (.next none)
      return .further next insn.len

def interpretFrom (space : AddressSpace) (frame : Nat) : Nat → Word → Nat → Nat → LoopM (Nat × Step)
  | more, pc, pa, n => do
    match ← interpretOne space frame pc pa n with
    | .over insns step => return (insns, step)
    | .further next len =>
      match more with
      | 0 => return (n + 1, .next none)
      | more + 1 =>
        let pa ← MonadExcept.ofExcept (checkedAdd pa len)
        if Page.frame pa ≠ frame then return (n + 1, .next none)
        interpretFrom space frame more next pa (n + 1)

def runInterpreted (space : AddressSpace) (pa : Nat) : LoopM Step := do
  let core ← get
  let (n, step) ← interpretFrom space (Page.frame pa) (core.device.config.maxBlockInsns - 1) core.hart.pc pa 0
  onEngine do
    Engine.count fun counts =>
      { counts with interpBlocks := counts.interpBlocks + 1, interpInsns := counts.interpInsns + n }
    Engine.report (.interpreted pa n)
  return step

end LoopM
end TieredHart
