import TieredHart.Block
import TieredHart.Failure
import TieredHart.ThreadedCode

namespace TieredHart

def Violation.message : Violation → String
  | staleInstall pa => s!"installing stale block at {Text.hex pa}"
  | doubleInstall pa => s!"double install at {Text.hex pa}"
  | staleBlock pa stamped frame live =>
    s!"block {Text.hex pa} stamped v{stamped} but frame {Text.hex frame} is at v{live}"
  | malformedCode index => s!"malformed threaded code at record {index}"
  | badOpcode opcode index => s!"bad opcode {opcode} at record {index}"

inductive Level where
  | error | info | debug | trace
  deriving DecidableEq

def Level.name : Level → String
  | error => "ERROR" | info => "INFO" | debug => "DEBUG" | trace => "TRACE"

inductive Event where
  | arenaMapped (kib : Nat)
  | installed (pa insns guestBytes hostBytes : Nat)
  | invalidated (removed frame : Nat)
  | evicted (pa lastUsed : Nat)
  | storeToExecuting (frame : Nat)
  | backToNormal (frame : Nat)
  | compiled (pa insns : Nat) (ending : Ending) (hasLoop : Bool)
  | aborted (pa : Nat) (refusal : Refusal)
  | trapped (trap : Trap) (pc : Word)
  | ran (pa : Nat) (exit : CodeExit)
  | interpreted (pa insns : Nat)
  | queued (pa : Nat)
  | dropped (pa : Nat)
  | refusedCsr (csr : Nat) (pc : Word)
  | violated (violation : Violation)
  deriving DecidableEq

namespace Event

def level : Event → Level
  | violated _ => .error
  | arenaMapped _ => .info
  | installed _ _ _ _ | invalidated _ _ | evicted _ _ | aborted _ _ | dropped _ => .debug
  | storeToExecuting _ | backToNormal _ | compiled _ _ _ _ | trapped _ _ | ran _ _ | interpreted _ _ | queued _
  | refusedCsr _ _ => .trace

def text : Event → String
  | arenaMapped kib => s!"[tcg-cache] code arena mapped: {kib} KiB"
  | installed pa insns guestBytes hostBytes =>
    s!"[tcg-cache] install {Text.hex pa}: {insns} insns, {guestBytes} guest bytes, {hostBytes} host bytes"
  | invalidated removed frame => s!"[tcg-cache] invalidated {removed} blocks in frame {Text.hex frame}"
  | evicted pa lastUsed => s!"[tcg-cache] evict {Text.hex pa} (lru {lastUsed})"
  | storeToExecuting frame => s!"[tcg-smc] store to executing frame {Text.hex frame}"
  | backToNormal frame => s!"[tcg-smc] frame {Text.hex frame} back to normal"
  | compiled pa insns ending hasLoop =>
    s!"[tcg-worker] compiled {Text.hex pa}: {insns} insns ending {ending.name}" ++ (if hasLoop then ", loop" else "")
  | aborted pa refusal => s!"[tcg-worker] abort {Text.hex pa}: {refusal.message}"
  | trapped trap pc => s!"[tcg-exec] trap {trap.label} at {Text.hex pc.toNat}"
  | ran pa exit =>
    s!"[tcg-exec] ran {Text.hex pa}: {exit.insns} insns, {exit.cause.label} -> {Text.hex exit.nextPc.toNat}"
  | interpreted pa insns => s!"[tcg-exec] interpreted {Text.hex pa}: {insns} insns"
  | queued pa => s!"[tcg-exec] queued {Text.hex pa} for compilation"
  | dropped pa => s!"[tcg-exec] compile queue full, dropped {Text.hex pa}"
  | refusedCsr csr pc => s!"[tcg-exec] write to read-only csr {Text.hex csr} at {Text.hex pc.toNat}"
  | violated violation => s!"[tcg] invariant violated: {violation.message}"

def line (event : Event) : String := event.level.name ++ " " ++ event.text

end Event
end TieredHart
