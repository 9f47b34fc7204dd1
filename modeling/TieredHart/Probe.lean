import TieredHart.FlatMemory
import TieredHart.ThreadedCode

namespace TieredHart

-- Memory that watches compiled code run over it: it counts polls and stores, keeps the first few addresses polled at,
-- and can answer a poll or ask for an exit from a given count on. A count of zero means never.
structure Probe where
  memory : FlatMemory
  irqPoll : Nat
  exitStore : Nat
  polls : Nat := 0
  pollPcs : List Word := []
  stores : Nat := 0

namespace Probe

variable {α : Type}

def kept : Nat := 8

def onMemory (action : EStateM Failure (Attached FlatMemory) α) : EStateM Failure (Attached Probe) α := fun s =>
  match action ⟨s.lines, s.device.memory⟩ with
  | .ok a t => .ok a ⟨t.lines, { s.device with memory := t.device }⟩
  | .error e t => .error e ⟨t.lines, { s.device with memory := t.device }⟩

def store (va : Word) (width : Width) (value : Word) : EStateM Failure (Attached Probe) (Except Fault Unit) := do
  let result ← onMemory (FlatMemory.bus.store va width value)
  match result with
  | .ok () => modify fun s => { s with device := { s.device with stores := s.device.stores + 1 } }
  | .error _ => pure ()
  return result

def poll (hart : Hart) (probe : Probe) : Bool × Probe :=
  let polls := probe.polls + 1
  let pollPcs := if probe.pollPcs.length < kept then probe.pollPcs ++ [hart.pc] else probe.pollPcs
  (probe.irqPoll ≠ 0 ∧ probe.irqPoll ≤ polls, { probe with polls := polls, pollPcs := pollPcs })

def codeBus : CodeBus Probe where
  load va width := onMemory (FlatMemory.bus.load va width)
  store := store
  poll := poll
  mustLeave probe := probe.exitStore ≠ 0 ∧ probe.exitStore ≤ probe.stores

end Probe
end TieredHart
