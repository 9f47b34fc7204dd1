import TieredHart.Extent
import TieredHart.Instruction.Op
import TieredHart.Page
import TieredHart.Stamp
import TieredHart.Text

namespace TieredHart

inductive Ending where
  | directBranch
  | indirectJump
  | serializing
  | trap
  -- The next instruction starts on another page, or its second half was not captured.
  | pageBoundary
  | insnLimit
  | undecodable
  deriving DecidableEq

namespace Ending

def name : Ending → String
  | directBranch => "DirectBranch" | indirectJump => "IndirectJump" | serializing => "Serializing" | trap => "Trap"
  | pageBoundary => "PageBoundary" | insnLimit => "InsnLimit" | undecodable => "Undecodable"

-- A sequential instruction can only be last by crossing the page.
def ofRole : Role → Ending
  | .sequential => pageBoundary
  | .directBranch => directBranch
  | .indirectJump => indirectJump
  | .serializing => serializing
  | .trap => trap

end Ending

-- A compiled block. The number tells blocks at one address apart, for whoever holds on to one.
structure Block where
  id : Nat
  entryPa : Nat
  -- Where it was first requested; the same code may be entered through any address.
  entryVa : Word
  guestLen : Nat
  insnCount : Nat
  host : Extent
  ending : Ending
  hasLoop : Bool
  stamp : Stamp
  valid : Bool
  lastUsed : Nat
  deriving DecidableEq

inductive Refusal where
  | staleSnapshot (frame : Nat)
  | alreadyInstalled (pa : Nat)
  | empty (pa : Nat)
  | arenaExhausted (needed : Nat)
  deriving DecidableEq

namespace Refusal

def name : Refusal → String
  | staleSnapshot _ => "StaleSnapshot" | alreadyInstalled _ => "AlreadyInstalled" | empty _ => "Empty"
  | arenaExhausted _ => "ArenaExhausted"

def message : Refusal → String
  | staleSnapshot frame => s!"page {Text.hex frame} written during compilation"
  | alreadyInstalled pa => s!"block at {Text.hex pa} already installed"
  | empty pa => s!"nothing to compile at {Text.hex pa}"
  | arenaExhausted needed => s!"no room for {needed} bytes of host code"

end Refusal
end TieredHart
