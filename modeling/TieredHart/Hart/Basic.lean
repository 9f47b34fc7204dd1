import TieredHart.Failure
import TieredHart.Fault

namespace TieredHart

-- Machine-mode state of one RV64 hart. The pending lines (mip) are shared with devices: a bus may change them during
-- an access.
structure Hart where
  regs : Vector Word 32
  pc : Word
  mstatus : Word
  mie : Word
  mtvec : Word
  mscratch : Word
  mepc : Word
  mcause : Word
  mtval : Word
  instret : Word
  hartid : Word
  mip : Word
  deriving DecidableEq

namespace Status

def mie : Word := 0x8
def mpie : Word := 0x80
def mpp : Word := 0x1800

end Status

namespace Hart

def reset : Hart :=
  ⟨Vector.replicate 32 0, 0, Status.mpp, 0, 0, 0, 0, 0, 0, 0, 0, 0⟩

-- Reads of x0 see whatever is stored there; that it is zero is kept by never writing it.
def reg (hart : Hart) (r : Nat) : Except Failure Word :=
  if h : r < 32 then .ok hart.regs[r] else .error .registerNumber

def writeReg (hart : Hart) (r : Nat) (value : Word) : Except Failure Hart :=
  if r = 0 then .ok hart
  else if h : r < 32 then .ok { hart with regs := hart.regs.set r value }
  else .error .registerNumber

def retire (hart : Hart) : Hart := { hart with instret := hart.instret + 1 }

end Hart

namespace Lines

def mask (code : Nat) : Except Failure Word :=
  if code < 64 then .ok (BitVec.twoPow 64 code) else .error .interruptLine

def raised (lines : Word) (code : Nat) : Except Failure Word := do
  return lines ||| (← mask code)

def lowered (lines : Word) (code : Nat) : Except Failure Word := do
  return lines &&& ~~~(← mask code)

-- External before software before timer, machine before supervisor.
def priority : List Nat := [11, 3, 7, 9, 1, 5]

end Lines

namespace Hart

def raise (hart : Hart) (code : Nat) : Except Failure Hart := do
  return { hart with mip := ← Lines.raised hart.mip code }

def lower (hart : Hart) (code : Nat) : Except Failure Hart := do
  return { hart with mip := ← Lines.lowered hart.mip code }

-- The registers beside the general ones, by name. Setting one this way writes it whole, legal or not.
def named (hart : Hart) : List (String × Word) :=
  [("pc", hart.pc), ("mstatus", hart.mstatus), ("mie", hart.mie), ("mtvec", hart.mtvec), ("mscratch", hart.mscratch),
   ("mepc", hart.mepc), ("mcause", hart.mcause), ("mtval", hart.mtval), ("instret", hart.instret),
   ("hartid", hart.hartid), ("mip", hart.mip)]

def setNamed (hart : Hart) (name : String) (value : Word) : Hart :=
  match name with
  | "pc" => { hart with pc := value }
  | "mstatus" => { hart with mstatus := value }
  | "mie" => { hart with mie := value }
  | "mtvec" => { hart with mtvec := value }
  | "mscratch" => { hart with mscratch := value }
  | "mepc" => { hart with mepc := value }
  | "mcause" => { hart with mcause := value }
  | "mtval" => { hart with mtval := value }
  | "instret" => { hart with instret := value }
  | "hartid" => { hart with hartid := value }
  | "mip" => { hart with mip := value }
  | _ => hart

def setRaw (hart : Hart) (r : Nat) (value : Word) : Hart := { hart with regs := hart.regs.setIfInBounds r value }

-- The interrupt to take: pending, enabled in mie and enabled globally. Lines outside the priority list never interrupt.
def interruptToTake (hart : Hart) : Option Nat :=
  if hart.mstatus &&& Status.mie = 0 then none
  else Lines.priority.find? fun code => (hart.mip &&& hart.mie).getLsbD code

end Hart
end TieredHart
