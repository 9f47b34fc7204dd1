import TieredHart.Engine.Interpret
import TieredHart.Proofs.BlockRun
import TieredHart.Proofs.Snapshots

namespace TieredHart

-- Translation by pages: an address keeps its place in the page, and addresses of one page go to one frame. Lines are not
-- restricted.
structure AddressSpace.Granular (space : AddressSpace) : Prop where
  offset : ∀ kind va place, space kind va = some place → place.pa % 4096 = va.toNat % 4096
  page : ∀ kind va va', va.page = va'.page →
    (space kind va).map (fun place => Page.frame place.pa) = (space kind va').map fun place => Page.frame place.pa

-- A machine without blocks, caches or versions: one instruction after another, each fetched from memory as it is.
namespace Plain

def load (space : AddressSpace) (va : Word) (width : Width) : EStateM Failure (Attached Ram) (Except Fault Word) := do
  match ← AddressSpace.locate space .load va with
  | .error fault => return .error fault
  | .ok pa =>
    match ← MonadExcept.ofExcept ((← get).device.read pa width.bytes) with
    | .error _ => return .error (.loadAccess va)
    | .ok bytes => return .ok (BitVec.ofNat 64 (Bytes.value bytes))

def store (space : AddressSpace) (va : Word) (width : Width) (value : Word) :
    EStateM Failure (Attached Ram) (Except Fault Unit) := do
  match ← AddressSpace.locate space .store va with
  | .error fault => return .error fault
  | .ok pa =>
    match ← MonadExcept.ofExcept ((← get).device.write pa (Bytes.ofNat width.bytes value.toNat)) with
    | .error _ => return .error (.storeAccess va)
    | .ok ram =>
      modify fun s => { s with device := ram }
      return .ok ()

def bus (space : AddressSpace) : Bus Ram := ⟨load space, store space⟩

def fetchHigh (ram : Ram) (pc : Word) (low : List UInt8) (pa : Nat) : Except Failure (Except Fault Instruction) := do
  match ← ram.read pa 2 with
  | .error _ => return .error (.instructionAccess pc)
  | .ok high => return Instruction.decode (low ++ high)

def fetch (space : AddressSpace) (ram : Ram) (pc : Word) : Except Failure (Except Fault Instruction) := do
  if pc.toNat % 2 = 1 then return .error (.instructionMisaligned pc)
  match space .fetch pc with
  | none => return .error (PageFault.fault ⟨pc, .fetch⟩)
  | some place =>
    match ← ram.read place.pa 2 with
    | .error _ => return .error (.instructionAccess pc)
    | .ok low =>
      if Instruction.lengthOf (Bytes.value low) = 2 then return Instruction.decode low
      else if pc.pageOffset = 4094 then
        match space .fetch (pc + 2) with
        | none => return .error (PageFault.fault ⟨pc + 2, .fetch⟩)
        | some next => fetchHigh ram pc low next.pa
      else fetchHigh ram pc low (place.pa + 2)

def step (space : AddressSpace) : EStateM Failure (Core Ram) (Except Fault Unit) := do
  let core ← get
  match ← MonadExcept.ofExcept (fetch space core.device core.hart.pc) with
  | .error fault => return .error fault
  | .ok insn =>
    match ← execute (bus space) insn core.hart.pc with
    | .error fault => return .error fault
    | .ok flow =>
      Core.modifyHart ({ · with pc := flow.target core.hart.pc insn.len })
      return .ok ()

end Plain

def TrapReply.ending (reply : TrapReply) (trap : Trap) : Option Trap :=
  match reply with
  | resume => none
  | halt => some trap

-- Finite runs of the plain machine: the traps its handler saw, each with pc at entry, the trap it halted at if it did, and
-- the state after them. An interrupt may be taken between any two instructions where it is pending.
inductive Plain.Run {τ : Type} (space : AddressSpace) (handler : TrapHandler τ) (start : Core Ram) (memory : τ) :
    List (Trap × Word) → Option Trap → Core Ram → τ → Prop where
  | start : Run space handler start memory [] none start memory
  | step {traps : List (Trap × Word)} {core core' : Core Ram} {kept : τ}
      (before : Run space handler start memory traps none core kept) (ran : Plain.step space core = .ok (.ok ()) core') :
      Run space handler start memory traps none core' kept
  | exception {traps : List (Trap × Word)} {core core' : Core Ram} {kept kept' : τ} {fault : Fault} {reply : TrapReply}
      {hart : Hart} (before : Run space handler start memory traps none core kept)
      (ran : Plain.step space core = .ok (.error fault) core')
      (answered : handler.handle (.exception fault) core'.hart kept = .ok (reply, hart, kept')) :
      Run space handler start memory (traps ++ [(.exception fault, core'.hart.pc)]) (reply.ending (.exception fault))
        ⟨hart, core'.device⟩ kept'
  | interrupt {traps : List (Trap × Word)} {core : Core Ram} {kept kept' : τ} {code : Nat} {reply : TrapReply}
      {hart : Hart} (before : Run space handler start memory traps none core kept)
      (pending : core.hart.interruptToTake = some code)
      (answered : handler.handle (.interrupt code) core.hart kept = .ok (reply, hart, kept')) :
      Run space handler start memory (traps ++ [(.interrupt code, core.hart.pc)]) (reply.ending (.interrupt code))
        ⟨hart, core.device⟩ kept'

namespace AddressSpace.Granular

variable {space : AddressSpace} {kind : Access} {va va' : Word} {place : Location}

theorem bare : Granular AddressSpace.bare := by
  refine ⟨fun kind va place found => ?_, fun kind va va' same => congrArg some same⟩
  cases found
  rfl

theorem same_page (granular : space.Granular) (known : space kind va = some place) (same : va'.page = va.page) :
    ∃ other, space kind va' = some other ∧ other.pa = Page.base place.pa + va'.pageOffset := by
  have frames := granular.page kind va' va same
  rw [known] at frames
  cases found : space kind va' with
  | none => rw [found] at frames; cases frames
  | some other =>
    refine ⟨other, rfl, ?_⟩
    have kept := granular.offset kind va' other found
    rw [found] at frames
    have frame : Page.frame other.pa = Page.frame place.pa := Option.some.inj frames
    unfold Page.frame at frame
    unfold Page.base Word.pageOffset
    omega

end AddressSpace.Granular

namespace Plain

variable {space : AddressSpace} {ram : Ram} {core core' : Core Ram} {insn : Instruction} {pc : Word} {place : Location}
  {fault : Fault} {flow : Flow}

theorem step_executed (fetched : fetch space core.device core.hart.pc = .ok (.ok insn))
    (ran : execute (bus space) insn core.hart.pc core = .ok (.ok flow) core') :
    step space core = .ok (.ok ()) (core'.atPc (flow.target core.hart.pc insn.len)) := by
  have start : (get : EStateM Failure (Core Ram) (Core Ram)) core = .ok core core := rfl
  unfold step
  rw [EStateM.bind_ok start, fetched]
  exact EStateM.bind_ok ran

theorem step_faulted (fetched : fetch space core.device core.hart.pc = .ok (.ok insn))
    (ran : execute (bus space) insn core.hart.pc core = .ok (.error fault) core') :
    step space core = .ok (.error fault) core' := by
  have start : (get : EStateM Failure (Core Ram) (Core Ram)) core = .ok core core := rfl
  unfold step
  rw [EStateM.bind_ok start, fetched]
  exact EStateM.bind_ok ran

theorem step_unfetched (fetched : fetch space core.device core.hart.pc = .ok (.error fault)) :
    step space core = .ok (.error fault) core := by
  have start : (get : EStateM Failure (Core Ram) (Core Ram)) core = .ok core core := rfl
  unfold step
  rw [EStateM.bind_ok start, fetched]
  rfl

theorem fetchHigh_read {low high : List UInt8} {pa : Nat} (got : ram.read pa 2 = .ok (.ok high))
    (decoded : Instruction.decode (low ++ high) = .ok insn) : fetchHigh ram pc low pa = .ok (.ok insn) := by
  unfold fetchHigh
  rw [got]
  exact congrArg Except.ok decoded

theorem fetch_odd (odd : pc.toNat % 2 = 1) : fetch space ram pc = .ok (.error (.instructionMisaligned pc)) := if_pos odd

theorem fetch_unmapped (even : pc.toNat % 2 = 0) (unmapped : space .fetch pc = none) :
    fetch space ram pc = .ok (.error (PageFault.fault ⟨pc, .fetch⟩)) := by
  unfold fetch
  rw [if_neg (by omega), unmapped]
  rfl

theorem fetch_refused (even : pc.toNat % 2 = 0) (found : space .fetch pc = some place) {range : OutOfRange}
    (refused : ram.read place.pa 2 = .ok (.error range)) : fetch space ram pc = .ok (.error (.instructionAccess pc)) := by
  unfold fetch
  rw [if_neg (by omega), found]
  simp only [refused, bind, Except.bind]
  rfl

theorem fetch_low (even : pc.toNat % 2 = 0) (found : space .fetch pc = some place) {low : List UInt8}
    (got : ram.read place.pa 2 = .ok (.ok low)) :
    fetch space ram pc = if Instruction.lengthOf (Bytes.value low) = 2 then .ok (Instruction.decode low)
      else if pc.pageOffset = 4094 then match space .fetch (pc + 2) with
        | none => .ok (.error (PageFault.fault ⟨pc + 2, .fetch⟩))
        | some next => fetchHigh ram pc low next.pa
      else fetchHigh ram pc low (place.pa + 2) := by
  unfold fetch
  rw [if_neg (by omega)]
  simp only [found, got, bind, Except.bind]
  split
  · rfl
  · split
    · cases space .fetch (pc + 2) <;> rfl
    · rfl

theorem fetch_encoded (granular : space.Granular) (even : pc.toNat % 2 = 0) (found : space .fetch pc = some place)
    {second : Option FrameVersion} (encodes : ram.Encodes second place.pa insn)
    (leads : ∀ page, second = some page → pc.pageOffset = 4094 →
      ∃ next, space .fetch (pc + 2) = some next ∧ next.pa = page.frame * 4096) :
    fetch space ram pc = .ok (.ok insn) := by
  have offset := granular.offset _ _ _ found
  cases encodes with
  | within onPage got decoded =>
    obtain ⟨fits, holds, rfl⟩ := Ram.read_ok got
    have length := (Instruction.needs_of_decode decoded).1
    have len := (Instruction.decode_legal decoded).len
    rw [Instruction.needs, Ram.readBytes_take (by omega)] at length
    unfold Ram.Holds at holds
    rw [fetch_low even found (Ram.read_holds fits ⟨holds.1, by omega⟩), length]
    rcases len with short | long
    · rw [if_pos short, ← short]
      exact congrArg Except.ok decoded
    · rw [long] at decoded onPage holds
      have inner : pc.pageOffset ≠ 4094 := by
        unfold Page.offset at onPage
        unfold Word.pageOffset
        omega
      rw [if_neg (by omega), if_neg inner]
      exact fetchHigh_read (Ram.read_holds fits ⟨by omega, by omega⟩) (Ram.readBytes_add place.pa 2 2 ▸ decoded)
  | across last long stamped gotLow gotHigh decoded =>
    have length := (Instruction.needs_of_decode decoded).1
    obtain ⟨-, -, rfl⟩ := Ram.read_ok gotLow
    rw [Instruction.needs, List.take_left' Ram.readBytes_length] at length
    have atEnd : pc.pageOffset = 4094 := by
      unfold Page.offset at last
      unfold Word.pageOffset
      omega
    obtain ⟨next, known, base⟩ := leads _ stamped atEnd
    rw [fetch_low even found gotLow, if_neg (by omega), if_pos atEnd, known]
    exact fetchHigh_read (base ▸ gotHigh) decoded

end Plain
end TieredHart
