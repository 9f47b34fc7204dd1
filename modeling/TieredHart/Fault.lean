import TieredHart.Page
import TieredHart.Text

namespace TieredHart

inductive Access where
  | fetch | load | store
  deriving DecidableEq

def Access.name : Access → String
  | .fetch => "Fetch" | .load => "Load" | .store => "Store"

-- Synchronous guest exceptions. Except for an illegal instruction, which carries its encoding, the payload is the
-- address at fault.
inductive Fault where
  | instructionMisaligned (va : Word)
  | instructionAccess (va : Word)
  | illegalInstruction (encoding : BitVec 32)
  | breakpoint (va : Word)
  | loadMisaligned (va : Word)
  | loadAccess (va : Word)
  | storeMisaligned (va : Word)
  | storeAccess (va : Word)
  | environmentCall
  | instructionPage (va : Word)
  | loadPage (va : Word)
  | storePage (va : Word)
  deriving DecidableEq

namespace Fault

def name : Fault → String
  | instructionMisaligned _ => "InstructionMisaligned"
  | instructionAccess _ => "InstructionAccessFault"
  | illegalInstruction _ => "IllegalInstruction"
  | breakpoint _ => "Breakpoint"
  | loadMisaligned _ => "LoadMisaligned"
  | loadAccess _ => "LoadAccessFault"
  | storeMisaligned _ => "StoreMisaligned"
  | storeAccess _ => "StoreAccessFault"
  | environmentCall => "EnvironmentCall"
  | instructionPage _ => "InstructionPageFault"
  | loadPage _ => "LoadPageFault"
  | storePage _ => "StorePageFault"

def ofName? (name : String) (value : Word) : Option Fault :=
  match name with
  | "InstructionMisaligned" => some (instructionMisaligned value)
  | "InstructionAccessFault" => some (instructionAccess value)
  | "IllegalInstruction" => some (illegalInstruction (value.setWidth 32))
  | "Breakpoint" => some (breakpoint value)
  | "LoadMisaligned" => some (loadMisaligned value)
  | "LoadAccessFault" => some (loadAccess value)
  | "StoreMisaligned" => some (storeMisaligned value)
  | "StoreAccessFault" => some (storeAccess value)
  | "EnvironmentCall" => some environmentCall
  | "InstructionPageFault" => some (instructionPage value)
  | "LoadPageFault" => some (loadPage value)
  | "StorePageFault" => some (storePage value)
  | _ => none

def cause : Fault → Nat
  | instructionMisaligned _ => 0
  | instructionAccess _ => 1
  | illegalInstruction _ => 2
  | breakpoint _ => 3
  | loadMisaligned _ => 4
  | loadAccess _ => 5
  | storeMisaligned _ => 6
  | storeAccess _ => 7
  | environmentCall => 11
  | instructionPage _ => 12
  | loadPage _ => 13
  | storePage _ => 15

def trapValue : Fault → Word
  | illegalInstruction encoding => encoding.setWidth 64
  | environmentCall => 0
  | instructionMisaligned va | instructionAccess va | breakpoint va | loadMisaligned va | loadAccess va
  | storeMisaligned va | storeAccess va | instructionPage va | loadPage va | storePage va => va

def message (fault : Fault) : String :=
  let place := Text.hex fault.trapValue.toNat
  match fault with
  | instructionMisaligned _ => s!"instruction address misaligned at {place}"
  | instructionAccess _ => s!"instruction access fault at {place}"
  | illegalInstruction encoding => "illegal instruction " ++ Text.hexFilled 8 encoding.toNat
  | breakpoint _ => s!"breakpoint at {place}"
  | loadMisaligned _ => s!"load address misaligned at {place}"
  | loadAccess _ => s!"load access fault at {place}"
  | storeMisaligned _ => s!"store address misaligned at {place}"
  | storeAccess _ => s!"store access fault at {place}"
  | environmentCall => "environment call"
  | instructionPage _ => s!"instruction page fault at {place}"
  | loadPage _ => s!"load page fault at {place}"
  | storePage _ => s!"store page fault at {place}"

def label (fault : Fault) : String :=
  match fault with
  | environmentCall => fault.name
  | _ => s!"{fault.name}({fault.trapValue.toNat})"

end Fault

structure PageFault where
  va : Word
  kind : Access
  deriving DecidableEq

namespace PageFault

def fault (failed : PageFault) : Fault :=
  match failed.kind with
  | .fetch => .instructionPage failed.va
  | .load => .loadPage failed.va
  | .store => .storePage failed.va

def message (failed : PageFault) : String :=
  s!"page fault on {failed.kind.name} at {Text.hex failed.va.toNat}"

end PageFault

inductive Trap where
  | exception (fault : Fault)
  | interrupt (code : Nat)
  deriving DecidableEq

def Trap.label : Trap → String
  | exception fault => s!"Exception({fault.label})"
  | interrupt code => s!"Interrupt({code})"

end TieredHart
