namespace TieredHart

structure FrameVersion where
  frame : Nat
  version : Nat
  deriving DecidableEq

-- The versions a block was built against: its own frame, and a second one when its last instruction crosses into the
-- next page.
structure Stamp where
  first : FrameVersion
  second : Option FrameVersion
  deriving DecidableEq

namespace Stamp

def pages (stamp : Stamp) : List FrameVersion := stamp.first :: stamp.second.toList

def frames (stamp : Stamp) : List Nat := stamp.pages.map (·.frame)

def spansTwo (stamp : Stamp) : Bool := stamp.second.isSome

def moved? (stamp : Stamp) (live : Nat → Nat) : Option Nat :=
  (stamp.pages.find? fun page => live page.frame ≠ page.version).map (·.frame)

-- Frames whose version has to be looked at to find the first that moved: nothing after it.
def inspected (stamp : Stamp) (live : Nat → Nat) : List Nat :=
  (stamp.pages.takeWhile fun page => live page.frame = page.version).map (·.frame) ++ (stamp.moved? live).toList

end Stamp
end TieredHart
