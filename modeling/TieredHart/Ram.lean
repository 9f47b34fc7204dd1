import TieredHart.Bytes
import TieredHart.Failure
import TieredHart.Page
import TieredHart.Text

namespace TieredHart

structure OutOfRange where
  pa : Nat
  len : Nat
  deriving DecidableEq

def OutOfRange.message (error : OutOfRange) : String :=
  s!"physical access out of range at {Text.hex error.pa} (+{error.len})"

-- Flat memory of whole pages at a fixed physical base, which may lie inside a page.
structure Ram where
  base : Nat
  bytes : Array UInt8
  whole : bytes.size % 4096 = 0
  deriving DecidableEq

namespace Ram

def zeroed (base size : Nat) : Except Failure Ram := do
  let size ← checkedRoundUp Page.size size
  checkAllocation size
  return ⟨base, Array.replicate (size / 4096 * 4096) 0, by rw [Array.size_replicate, Nat.mul_mod_left]⟩

def size (ram : Ram) : Nat := ram.bytes.size

def baseFrame (ram : Ram) : Nat := Page.frame ram.base

def pages (ram : Ram) : Nat := ram.size / 4096

-- Whether a range lies inside. The end of memory itself is computed only for a range that starts at or above the base
-- and ends below the host limit, and then it has to fit.
def contains (ram : Ram) (pa len : Nat) : Except Failure Bool :=
  if ram.base ≤ pa ∧ pa + len < hostLimit then do
    let limit ← checkedAdd ram.base ram.size
    return pa + len ≤ limit
  else return false

def byte (ram : Ram) (pa : Nat) : UInt8 := ram.bytes.getD (pa - ram.base) 0

def readBytes (ram : Ram) (pa len : Nat) : List UInt8 := (List.range len).map fun i => ram.byte (pa + i)

def read (ram : Ram) (pa len : Nat) : Except Failure (Except OutOfRange (List UInt8)) := do
  if ← ram.contains pa len then return .ok (ram.readBytes pa len)
  else return .error ⟨pa, len⟩

-- Read into a new buffer, which is made before the range is looked at.
def readNew (ram : Ram) (pa len : Nat) : Except Failure (Except OutOfRange (List UInt8)) := do
  checkAllocation len
  ram.read pa len

def writeBytes (ram : Ram) (pa : Nat) (data : List UInt8) : Ram :=
  ⟨ram.base, Bytes.overwrite ram.bytes (pa - ram.base) data, by rw [Bytes.overwrite_size, ram.whole]⟩

def write (ram : Ram) (pa : Nat) (data : List UInt8) : Except Failure (Except OutOfRange Ram) := do
  if ← ram.contains pa data.length then return .ok (ram.writeBytes pa data)
  else return .error ⟨pa, data.length⟩

end Ram
end TieredHart
