import TieredHart.Bytes
import TieredHart.Failure
import TieredHart.Page

namespace TieredHart

-- Storage for host code. It never grows; bytes not written yet are zero, and only written ones are kept.
structure Arena where
  capacity : Nat
  written : Array UInt8
  deriving DecidableEq

namespace Arena

-- The size is rounded up to whole pages; nothing, or more than the host maps, cannot be mapped.
def map? (size : Nat) (host : Host := {}) : Except Failure (Option Arena) := do
  let capacity ← checkedRoundUp Page.size size
  return if capacity = 0 ∨ host.mapLimit < capacity then none else some ⟨capacity, #[]⟩

def byte (arena : Arena) (i : Nat) : UInt8 := arena.written.getD i 0

def writeBytes (arena : Arena) (offset : Nat) (data : List UInt8) : Arena :=
  let stop := offset + data.length
  let grown := arena.written ++ Array.replicate (stop - arena.written.size) 0
  ⟨arena.capacity, Bytes.overwrite grown offset data⟩

def write (arena : Arena) (offset : Nat) (data : List UInt8) : Except Failure Arena := do
  let stop ← checkedAdd offset data.length
  if stop ≤ arena.capacity then return arena.writeBytes offset data else throw .assertion

def readBytes (arena : Arena) (start stop : Nat) : Array UInt8 :=
  Array.ofFn fun i : Fin (stop - start) => arena.byte (start + i)

def code (arena : Arena) (start stop : Nat) : Except Failure (Array UInt8) :=
  if start ≤ stop ∧ stop ≤ arena.capacity then .ok (arena.readBytes start stop) else .error .assertion

end Arena
end TieredHart
