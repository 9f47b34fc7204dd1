import TieredHart.Page

namespace TieredHart

inductive FrameState where
  | normal
  -- A store hit the frame code was being fetched from; it is interpreted until fetch moves on.
  | smcDetected
  deriving DecidableEq

def FrameState.name : FrameState → String
  | normal => "Normal" | smcDetected => "SmcDetected"

-- What is known about one frame of memory: how often it was written, its state, the entry addresses of installed
-- blocks built from it in order of registration, and how often its addresses were missed, by halfword.
structure Frame where
  version : Nat
  state : FrameState
  entries : List Nat
  heat : List (Nat × Nat)
  deriving DecidableEq

namespace Frame

def fresh : Frame := ⟨0, .normal, [], []⟩

def heatAt (frame : Frame) (slot : Nat) : Nat := ((frame.heat.find? (·.1 = slot)).map (·.2)).getD 0

def setHeat (frame : Frame) (slot count : Nat) : Frame :=
  { frame with heat := (slot, count) :: frame.heat.filter (·.1 ≠ slot) }

end Frame

-- One record per whole page of memory, counted from the frame of its base. Frames outside read as fresh ones and ignore
-- every change.
structure FrameTable where
  base : Nat
  frames : Array Frame
  deriving DecidableEq

namespace FrameTable

def fresh (base count : Nat) : FrameTable := ⟨base, Array.replicate count .fresh⟩

def frame? (table : FrameTable) (frame : Nat) : Option Frame :=
  if table.base ≤ frame then table.frames[frame - table.base]? else none

def covers (table : FrameTable) (frame : Nat) : Bool := (table.frame? frame).isSome

def get (table : FrameTable) (frame : Nat) : Frame := (table.frame? frame).getD .fresh

def modify (table : FrameTable) (frame : Nat) (change : Frame → Frame) : FrameTable :=
  if table.base ≤ frame then ⟨table.base, table.frames.modify (frame - table.base) change⟩ else table

def version (table : FrameTable) (frame : Nat) : Nat := (table.get frame).version

def state (table : FrameTable) (frame : Nat) : FrameState := (table.get frame).state

def entries (table : FrameTable) (frame : Nat) : List Nat := (table.get frame).entries

def bump (table : FrameTable) (frame : Nat) : FrameTable :=
  table.modify frame fun f => { f with version := f.version + 1 }

def setState (table : FrameTable) (frame : Nat) (state : FrameState) : FrameTable :=
  table.modify frame fun f => { f with state := state }

def register (table : FrameTable) (pa frame : Nat) : FrameTable :=
  table.modify frame fun f => { f with entries := f.entries ++ [pa] }

def unregister (table : FrameTable) (pa frame : Nat) : FrameTable :=
  table.modify frame fun f => { f with entries := f.entries.filter (· ≠ pa) }

def clearEntries (table : FrameTable) (frame : Nat) : FrameTable :=
  table.modify frame fun f => { f with entries := [] }

def heatLimit : Nat := 65535

def heatSlot (pa : Nat) : Nat := Page.offset pa / 2

def heat (table : FrameTable) (pa : Nat) : Nat := (table.get (Page.frame pa)).heatAt (heatSlot pa)

def warm (table : FrameTable) (pa : Nat) : FrameTable :=
  table.modify (Page.frame pa) fun f => f.setHeat (heatSlot pa) (min (f.heatAt (heatSlot pa) + 1) heatLimit)

def warmTimes (table : FrameTable) (pa : Nat) : Nat → FrameTable
  | 0 => table
  | n + 1 => (table.warm pa).warmTimes pa n

def cool (table : FrameTable) (frame : Nat) : FrameTable :=
  table.modify frame fun f => { f with heat := [] }

end FrameTable
end TieredHart
