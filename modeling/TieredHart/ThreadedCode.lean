import TieredHart.Execute
import TieredHart.MicroOp

namespace TieredHart

structure Entry where
  pc : Word
  pa : Nat

inductive ExitCause where
  | fallthrough
  -- An instruction faulted; the exception has not been taken yet.
  | exception (fault : Fault)
  | interrupt
  -- A store asked for the block to be left.
  | toInterpreter
  deriving DecidableEq

namespace ExitCause

def name : ExitCause → String
  | fallthrough => "Fallthrough" | exception _ => "Exception" | interrupt => "Interrupt"
  | toInterpreter => "ToInterpreter"

def label (cause : ExitCause) : String :=
  match cause with
  | exception fault => s!"Exception({fault.label})"
  | _ => cause.name

end ExitCause

structure CodeExit where
  -- The first instruction not retired.
  nextPc : Word
  cause : ExitCause
  -- Its physical address, when it is known to lie on the entry page.
  chain : Option Nat
  insns : Nat
  -- The read-only register whose write the faulting instruction was refused.
  refusedCsr : Option Nat
  deriving DecidableEq

structure CodeBus (σ : Type) extends Bus σ where
  -- Whether an interrupt is pending, with pc at the next instruction.
  poll : Hart → σ → Bool × σ
  -- Whether the block has to be left, asked after every instruction.
  mustLeave : σ → Bool

namespace ThreadedCode

variable {σ : Type}

structure Builder where
  interval : Nat
  base : Word
  buffer : ByteBuffer

namespace Builder

def defaultInterval : Nat := 65536

def start (interval : Nat) (base : Word) : Builder := ⟨max interval 1, base, .empty⟩

def records (builder : Builder) : Nat := builder.buffer.size / 16

-- Blocks are short, so an address of theirs is less than 65536 bytes from the entry.
def offsetOf (builder : Builder) (pc : Word) : Except Failure UInt16 :=
  let offset := (pc - builder.base).toNat
  if offset < 65536 then .ok (UInt16.ofNat offset) else .error .assertion

def push (builder : Builder) (micro : MicroOp) : Builder :=
  { builder with buffer := micro.encode builder.buffer }

def insn (builder : Builder) (insn : Instruction) (pc : Word) : Except Failure Builder := do
  return builder.push (.ofInstruction .insn insn (← builder.offsetOf pc) 0)

def safepoint (builder : Builder) (pc : Word) : Except Failure (Nat × Builder) := do
  let interval := Int32.ofInt (min builder.interval 2147483647 : Nat)
  return (builder.records, builder.push (.control .safepoint (← builder.offsetOf pc) interval))

def loopBranch (builder : Builder) (insn : Instruction) (pc : Word) (label : Nat) : Except Failure Builder := do
  return builder.push (.ofInstruction .loopBranch insn (← builder.offsetOf pc) (UInt16.ofNat label))

def finish (builder : Builder) (pc : Word) : Except Failure Builder := do
  return builder.push (.control .exit (← builder.offsetOf pc) 0)

end Builder

def chain? (entry : Entry) (target : Word) : Option Nat :=
  if target.page = entry.pc.page then some (Page.base entry.pa + target.pageOffset) else none

structure Cursor where
  index : Nat
  insns : Nat
  sincePoll : Nat

inductive Progress where
  | further (cursor : Cursor)
  | left (exit : CodeExit)

def setPc (pc : Word) : EStateM Failure (Core σ) Unit := Core.modifyHart ({ · with pc := pc })

def poll (bus : CodeBus σ) : EStateM Failure (Core σ) Bool := modifyGet fun core =>
  let (pending, device) := bus.poll core.hart core.device
  (pending, { core with device := device })

def stepSafepoint (bus : CodeBus σ) (micro : MicroOp) (pc : Word) (cursor : Cursor) :
    EStateM Failure (Core σ) Progress := do
  if micro.pollAfter ≤ cursor.sincePoll then
    setPc pc
    if ← poll bus then return .left ⟨pc, .interrupt, none, cursor.insns, none⟩
    else return .further ⟨cursor.index + 1, cursor.insns, 0⟩
  else return .further { cursor with index := cursor.index + 1 }

-- After an instruction retired: a requested exit comes first, then a jump, then the next record.
def afterRetired (bus : CodeBus σ) (entry : Entry) (micro : MicroOp) (insn : Instruction) (pc : Word) (flow : Flow)
    (cursor : Cursor) : EStateM Failure (Core σ) Progress := do
  let insns := cursor.insns + 1
  let next := flow.target pc insn.len
  if bus.mustLeave (← get).device then
    setPc next
    return .left ⟨next, .toInterpreter, none, insns, none⟩
  match flow with
  | .next => return .further ⟨cursor.index + 1, insns, cursor.sincePoll + 1⟩
  | .jump target =>
    if micro.kind = .loopBranch then return .further ⟨micro.aux.toNat, insns, cursor.sincePoll + 1⟩
    else
      setPc target
      let chain := if insn.role = .directBranch then chain? entry target else none
      return .left ⟨target, .fallthrough, chain, insns, none⟩

def stepInsn (bus : CodeBus σ) (entry : Entry) (micro : MicroOp) (pc : Word) (cursor : Cursor) :
    EStateM Failure (Core σ) Progress := do
  match micro.instruction? with
  | none => throw (.violated (.badOpcode micro.op.toNat cursor.index))
  | some insn =>
    match ← execute bus.toBus insn pc with
    | .ok flow => afterRetired bus entry micro insn pc flow cursor
    | .error fault =>
      setPc pc
      return .left ⟨pc, .exception fault, none, cursor.insns, insn.readOnlyCsr?⟩

def step (code : Array UInt8) (bus : CodeBus σ) (entry : Entry) (cursor : Cursor) :
    EStateM Failure (Core σ) Progress := do
  match MicroOp.decode? code cursor.index with
  | none => throw (.violated (.malformedCode cursor.index))
  | some micro =>
    let pc := entry.pc + BitVec.ofNat 64 micro.pcOffset.toNat
    match micro.kind with
    | .safepoint => stepSafepoint bus micro pc cursor
    | .insn | .loopBranch => stepInsn bus entry micro pc cursor
    | .exit =>
      setPc pc
      return .left ⟨pc, .fallthrough, chain? entry pc, cursor.insns, none⟩

-- Run records until one leaves the block. Every exit leaves pc at the exit's next instruction.
def runFrom (code : Array UInt8) (bus : CodeBus σ) (entry : Entry) :
    Nat → Cursor → EStateM Failure (Core σ) CodeExit
  | 0, _ => throw .outOfFuel
  | fuel + 1, cursor => do
    match ← step code bus entry cursor with
    | .further cursor => runFrom code bus entry fuel cursor
    | .left exit => return exit

def run (fuel : Nat) (code : Array UInt8) (bus : CodeBus σ) (entry : Entry) :
    EStateM Failure (Core σ) CodeExit := runFrom code bus entry fuel ⟨0, 0, 0⟩

end ThreadedCode
end TieredHart
