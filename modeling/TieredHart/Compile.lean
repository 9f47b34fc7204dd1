import TieredHart.Cache.Install
import TieredHart.Instruction.Decode

namespace TieredHart

-- A private copy of the code a block will be built from: the bytes from its entry to the end of the page, and the first
-- halfword of the next page when that may be executed.
structure Snapshot where
  entryPa : Nat
  entryVa : Word
  bytes : List UInt8
  stamp : Stamp
  deriving DecidableEq

structure Body where
  insns : List (Nat × Instruction)
  guestLen : Nat
  ending : Ending
  -- Whether the last instruction reaches into the next page.
  crosses : Bool
  deriving DecidableEq

namespace Body

-- Read instructions until one ends the block, the page or the allowance runs out, or the bytes mean nothing. An
-- instruction whose second half was not captured is left to whoever can fetch it.
def scanFrom (pageEnd : Nat) : Nat → Nat → List UInt8 → Body
  | 0, offset, _ => ⟨[], offset, .insnLimit, false⟩
  | more + 1, offset, bytes =>
    if pageEnd ≤ offset then ⟨[], offset, .pageBoundary, false⟩
    else match bytes with
      | low :: high :: _ =>
        let len := Instruction.lengthOf (Bytes.value [low, high])
        let raw := bytes.take len
        if raw.length < len then ⟨[], offset, .pageBoundary, false⟩
        else match Instruction.decode raw with
          | .error _ => ⟨[], offset, .undecodable, false⟩
          | .ok insn =>
            let crosses : Bool := pageEnd < offset + len
            if crosses || insn.isTerminal then
              ⟨[(offset, insn)], offset + len, .ofRole insn.role, crosses⟩
            else
              let rest := scanFrom pageEnd more (offset + len) (bytes.drop len)
              { rest with insns := (offset, insn) :: rest.insns }
      | _ => ⟨[], offset, .pageBoundary, false⟩

def scan (snapshot : Snapshot) (maxInsns : Nat) : Body :=
  scanFrom (Page.rest snapshot.entryPa) maxInsns 0 snapshot.bytes

def loopHeader? (body : Body) : Option Nat :=
  match body.insns.getLast? with
  | none => none
  | some (offset, last) =>
    if last.role = .directBranch ∧ ¬ body.crosses then
      body.insns.findIdx? fun (o, _) => (o : Int) = offset + last.imm
    else none

end Body

namespace Compile

open ThreadedCode (Builder)

-- Emit a body from its instruction at place i on. A safepoint stands before the loop header and wherever the interval
-- has passed since the last one; the last instruction of a loop branches back to the header's safepoint.
def emit (header : Option Nat) (interval : Nat) :
    List (Nat × Instruction) → Nat → Nat → Option Nat → Builder → Except Failure Builder
  | [], _, _, _, builder => .ok builder
  | (offset, insn) :: rest, i, since, label, builder => do
    let pc := builder.base + BitVec.ofNat 64 offset
    let (since, label, builder) ←
      if header = some i then do
        let (here, builder) ← builder.safepoint pc
        pure (0, some here, builder)
      else if interval ≤ since then do
        let (_, builder) ← builder.safepoint pc
        pure (0, label, builder)
      else pure (since, label, builder)
    let builder ← match label, rest with
      | some here, [] => builder.loopBranch insn pc here
      | _, _ => builder.insn insn pc
    emit header interval rest (i + 1) (since + 1) label builder

def stampOf (snapshot : Snapshot) (body : Body) : Stamp :=
  ⟨snapshot.stamp.first, if body.crosses then snapshot.stamp.second else none⟩

-- Code for a snapshot. The first interval is the one safepoints poll at, the second the one they are placed by.
def compile (pollInterval interval maxInsns : Nat) (snapshot : Snapshot) :
    Except Failure (Except Refusal HostCode) := do
  let body := Body.scan snapshot maxInsns
  if body.insns.isEmpty then return .error (.empty snapshot.entryPa)
  let header := body.loopHeader?
  let builder ← emit header interval body.insns 0 0 none (Builder.start pollInterval snapshot.entryVa)
  let builder ← builder.finish (snapshot.entryVa + BitVec.ofNat 64 body.guestLen)
  return .ok {
    entryPa := snapshot.entryPa
    entryVa := snapshot.entryVa
    code := builder.buffer.bytes
    guestLen := body.guestLen
    insnCount := body.insns.length
    ending := body.ending
    hasLoop := header.isSome
    stamp := stampOf snapshot body }

end Compile
end TieredHart
