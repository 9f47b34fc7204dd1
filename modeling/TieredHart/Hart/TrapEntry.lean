import TieredHart.Hart.Basic

namespace TieredHart

inductive TrapReply where
  | resume | halt
  deriving DecidableEq

namespace Hart

def stackInterruptEnable (status : Word) : Word :=
  (if status &&& Status.mie = 0 then status &&& ~~~Status.mpie else status ||| Status.mpie) &&& ~~~Status.mie

def unstackInterruptEnable (status : Word) : Word :=
  (if status &&& Status.mpie = 0 then status &&& ~~~Status.mie else (status &&& ~~~Status.mie) ||| Status.mie)
    ||| Status.mpie

def trapCause : Trap → Word
  | .exception fault => BitVec.ofNat 64 fault.cause
  | .interrupt code => BitVec.twoPow 64 63 ||| BitVec.ofNat 64 code

def trapValue : Trap → Word
  | .exception fault => fault.trapValue
  | .interrupt _ => 0

-- Architectural entry. A hart without a handler address has nowhere to go and halts unchanged.
def enterTrap (hart : Hart) (trap : Trap) : TrapReply × Hart :=
  if hart.mtvec = 0 then (.halt, hart)
  else (.resume, { hart with
    mepc := hart.pc
    mcause := trapCause trap
    mtval := trapValue trap
    mstatus := stackInterruptEnable hart.mstatus
    pc := hart.mtvec })

end Hart

-- Whoever answers traps: it sees the hart with pc at the faulting or first unexecuted instruction, may change it, and
-- keeps a state of its own between traps.
structure TrapHandler (τ : Type) where
  handle : Trap → Hart → τ → Except Failure (TrapReply × Hart × τ)

namespace TrapHandler

def machine : TrapHandler Unit where
  handle trap hart memory := .ok ((hart.enterTrap trap).1, (hart.enterTrap trap).2, memory)

structure Answer where
  adjust : Hart → Hart
  raise : Option Nat
  lower : Option Nat
  action : TrapReply

def Answer.play (answer : Answer) (hart : Hart) : Except Failure Hart := do
  let hart := answer.adjust hart
  let hart ← match answer.raise with
    | some code => hart.raise code
    | none => pure hart
  match answer.lower with
    | some code => hart.lower code
    | none => pure hart

def scripted : TrapHandler (List Answer) where
  handle _ hart
    | [] => .ok (.halt, hart, [])
    | answer :: rest => do return (answer.action, ← answer.play hart, rest)

end TrapHandler
end TieredHart
