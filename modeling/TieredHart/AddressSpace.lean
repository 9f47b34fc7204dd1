import TieredHart.Fault

namespace TieredHart

structure Location where
  pa : Nat
  irq : Option Nat := none
  deriving DecidableEq

-- Virtual to physical addresses with a permission check; none is a page fault. It has no state of its own.
abbrev AddressSpace := Access → Word → Option Location

namespace AddressSpace

def bare : AddressSpace := fun _ va => some { pa := va.toNat }

end AddressSpace

structure PageEntry where
  va : Word
  pa : Nat
  allows : Access → Bool
  irq : Option Nat

structure PageMap where
  entries : List PageEntry
  -- Whether pages without an entry are mapped to themselves.
  bare : Bool

namespace PageEntry

def permissions (letters : String) : Access → Bool
  | .fetch => letters.contains 'x'
  | .load => letters.contains 'r'
  | .store => letters.contains 'w'

-- Fetching never raises a line. The address keeps the bits that its page already has.
def locate (entry : PageEntry) (kind : Access) (va : Word) : Option Location :=
  if entry.allows kind then
    some ⟨entry.pa ||| va.pageOffset, if kind = .fetch then none else entry.irq⟩
  else none

end PageEntry

def PageMap.space (map : PageMap) : AddressSpace := fun kind va =>
  match map.entries.find? (·.va = va.pageBase) with
  | some entry => entry.locate kind va
  | none => if map.bare then AddressSpace.bare kind va else none

end TieredHart
