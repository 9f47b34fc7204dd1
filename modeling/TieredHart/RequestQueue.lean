import TieredHart.Failure
import TieredHart.Page

namespace TieredHart

-- A request to compile the block entered at an address. The next page's address is there when it may be executed, so
-- that a block can end with an instruction that crosses into it.
structure CompileRequest where
  entryPa : Nat
  entryVa : Word
  nextPage : Option Nat
  deriving DecidableEq

inductive Enqueued where
  | sent
  | busy
  -- No room, or nobody may send any more.
  | full
  deriving DecidableEq

def Enqueued.name : Enqueued → String
  | sent => "Sent" | busy => "InFlight" | full => "Full"

structure RequestQueue where
  capacity : Nat
  waiting : List CompileRequest
  active : List Nat
  connected : Bool
  deriving DecidableEq

namespace RequestQueue

def ofDepth (depth : Nat) (host : Host := {}) : Except Failure RequestQueue := do
  checkAllocation (host.slotBytes * max depth 1)
  return ⟨max depth 1, [], [], true⟩

def pending (queue : RequestQueue) : Nat := queue.waiting.length

def busy (queue : RequestQueue) (pa : Nat) : Bool := queue.active.contains pa

def offer (queue : RequestQueue) (request : CompileRequest) : Enqueued × RequestQueue :=
  if queue.busy request.entryPa then (.busy, queue)
  else if queue.connected ∧ queue.pending < queue.capacity then
    (.sent, { queue with waiting := queue.waiting ++ [request], active := request.entryPa :: queue.active })
  else (.full, queue)

-- The oldest waiting request. It stays active until it is completed.
def receive? (queue : RequestQueue) : Option (CompileRequest × RequestQueue) :=
  match queue.waiting with
  | [] => none
  | request :: rest => some (request, { queue with waiting := rest })

def complete (queue : RequestQueue) (pa : Nat) : RequestQueue :=
  { queue with active := queue.active.filter (· ≠ pa) }

def disconnect (queue : RequestQueue) : RequestQueue := { queue with connected := false }

end RequestQueue
end TieredHart
