import TieredHart.Proofs.Scanning

namespace TieredHart

namespace ThreadedCode.Builder

variable {builder : Builder} {count : Nat}

def Filled (builder : Builder) (count : Nat) : Prop := builder.buffer.size = 16 * count

def record? (builder : Builder) (index : Nat) : Option MicroOp := MicroOp.decode? builder.buffer.bytes index

theorem start_filled (interval : Nat) (base : Word) : (start interval base).Filled 0 := rfl

theorem Filled.records_eq (filled : builder.Filled count) : builder.records = count := by
  unfold records
  rw [filled]
  omega

theorem Filled.push (filled : builder.Filled count) (micro : MicroOp) : (builder.push micro).Filled (count + 1) := by
  unfold Filled ByteBuffer.size at filled ⊢
  have grown : (builder.buffer.bytes ++ micro.toRecord).size = builder.buffer.bytes.size + 16 := by
    rw [← Array.length_toList, Array.toList_appendList, List.length_append, MicroOp.toRecord_length,
      Array.length_toList]
  show (builder.buffer.bytes ++ micro.toRecord).size = _
  omega

theorem Filled.record_before (filled : builder.Filled count) (micro : MicroOp) {index : Nat} (older : index < count) :
    (builder.push micro).record? index = builder.record? index := by
  unfold Filled ByteBuffer.size at filled
  exact MicroOp.decode_before _ (by omega)

theorem Filled.record_last (filled : builder.Filled count) (micro : MicroOp) :
    (builder.push micro).record? count = some micro := MicroOp.decode_last micro filled

theorem push_base (builder : Builder) (micro : MicroOp) : (builder.push micro).base = builder.base := by
  simp only [Builder.push]

variable {base : Word} {offset : Nat}

theorem offsetOf_near (near : offset < 65536) (based : builder.base = base) :
    builder.offsetOf (base + BitVec.ofNat 64 offset) = .ok (UInt16.ofNat offset) := by
  have distance : (base + BitVec.ofNat 64 offset - builder.base).toNat = offset := by
    rw [based, BitVec.add_comm, BitVec.add_sub_cancel]
    simp only [BitVec.toNat_ofNat]
    omega
  simp only [offsetOf, distance, near, if_true]

def safepointRecord (interval offset : Nat) : MicroOp :=
  .control .safepoint (UInt16.ofNat offset) (Int32.ofInt (min interval 2147483647 : Nat))

theorem safepoint_near (near : offset < 65536) (based : builder.base = base) :
    builder.safepoint (base + BitVec.ofNat 64 offset) =
      .ok (builder.records, builder.push (safepointRecord builder.interval offset)) := by
  unfold safepoint
  rw [offsetOf_near near based]
  rfl

theorem insn_near (near : offset < 65536) (based : builder.base = base) (insn : Instruction) :
    builder.insn insn (base + BitVec.ofNat 64 offset) =
      .ok (builder.push (.ofInstruction .insn insn (UInt16.ofNat offset) 0)) := by
  unfold Builder.insn
  rw [offsetOf_near near based]
  rfl

theorem loopBranch_near (near : offset < 65536) (based : builder.base = base) (insn : Instruction) (label : Nat) :
    builder.loopBranch insn (base + BitVec.ofNat 64 offset) label =
      .ok (builder.push (.ofInstruction .loopBranch insn (UInt16.ofNat offset) (UInt16.ofNat label))) := by
  unfold loopBranch
  rw [offsetOf_near near based]
  rfl

theorem finish_near (near : offset < 65536) (based : builder.base = base) :
    builder.finish (base + BitVec.ofNat 64 offset) = .ok (builder.push (.control .exit (UInt16.ofNat offset) 0)) := by
  unfold finish
  rw [offsetOf_near near based]
  rfl

end ThreadedCode.Builder

namespace Compile

open ThreadedCode (Builder)

variable {header : Option Nat} {interval i o : Nat} {insn : Instruction} {builder : Builder}

-- Instructions emitted since the last safepoint, before the one at a place is looked at.
def since (header : Option Nat) (interval : Nat) : Nat → Nat
  | 0 => 0
  | k + 1 => (if header = some k ∨ interval ≤ since header interval k then 0 else since header interval k) + 1

def guarded (header : Option Nat) (interval k : Nat) : Bool := header = some k ∨ interval ≤ since header interval k

-- The record where the instruction at a place begins, its safepoint included, and the record that executes it.
def startAt (header : Option Nat) (interval : Nat) : Nat → Nat
  | 0 => 0
  | k + 1 => startAt header interval k + (if guarded header interval k then 2 else 1)

def insnAt (header : Option Nat) (interval k : Nat) : Nat :=
  startAt header interval k + (if guarded header interval k then 1 else 0)

theorem startAt_succ (k : Nat) : startAt header interval (k + 1) = insnAt header interval k + 1 := by
  unfold insnAt
  rw [startAt]
  split <;> rfl

theorem insnAt_guarded {k : Nat} (due : guarded header interval k = true) :
    insnAt header interval k = startAt header interval k + 1 := by
  rw [insnAt, if_pos due]

theorem insnAt_open {k : Nat} (unguarded : ¬ guarded header interval k = true) :
    insnAt header interval k = startAt header interval k := by
  rw [insnAt, if_neg unguarded]
  rfl

theorem startAt_le_insnAt (header : Option Nat) (interval k : Nat) :
    startAt header interval k ≤ insnAt header interval k := Nat.le_add_right ..

theorem startAt_bound (header : Option Nat) (interval k : Nat) : startAt header interval k ≤ 2 * k := by
  induction k with
  | zero => exact Nat.le_refl 0
  | succ k ih =>
    rw [startAt]
    split <;> omega

theorem startAt_cover {n j : Nat} (before : j < startAt header interval n) :
    ∃ k < n, j = insnAt header interval k ∨ guarded header interval k = true ∧ j = startAt header interval k := by
  induction n with
  | zero => exact absurd before (Nat.not_lt_zero j)
  | succ n ih =>
    rcases Nat.lt_or_ge j (startAt header interval n) with older | newer
    · obtain ⟨k, inside, record⟩ := ih older
      exact ⟨k, by omega, record⟩
    · rw [startAt_succ] at before
      refine ⟨n, Nat.lt_succ_self n, ?_⟩
      by_cases due : guarded header interval n = true
      · have first := insnAt_guarded due
        rcases Nat.lt_or_ge j (insnAt header interval n) with less | more
        · exact .inr ⟨due, by omega⟩
        · exact .inl (by omega)
      · have first := insnAt_open due
        exact .inl (by omega)

def labelAt (header : Option Nat) (interval i : Nat) : Option Nat :=
  header.bind fun h => if h < i then some (startAt header interval h) else none

def insnRecord (label : Option Nat) (last : Bool) (offset : Nat) (insn : Instruction) : MicroOp :=
  match label, last with
  | some here, true => .ofInstruction .loopBranch insn (UInt16.ofNat offset) (UInt16.ofNat here)
  | _, _ => .ofInstruction .insn insn (UInt16.ofNat offset) 0

theorem emit_cons {rest : List (Nat × Instruction)} {behind : Nat} {label : Option Nat} (near : o < 65536) :
    emit header interval ((o, insn) :: rest) i behind label builder =
      emit header interval rest (i + 1) ((if header = some i ∨ interval ≤ behind then 0 else behind) + 1)
        (if header = some i then some builder.records else label)
        ((if header = some i ∨ interval ≤ behind then
            builder.push (Builder.safepointRecord builder.interval o) else builder).push
          (insnRecord (if header = some i then some builder.records else label) rest.isEmpty o insn)) := by
  have bind_ok : ∀ {α : Type} (built : α) (next : α → Except Failure Builder), (Except.ok built >>= next) = next built :=
    fun _ _ => rfl
  rw [emit]
  by_cases loops : header = some i
  · simp only [loops, if_true, true_or, Builder.safepoint_near near rfl, bind_ok, pure_bind]
    cases rest <;> simp only [Builder.loopBranch_near near (builder.push_base _), bind_ok,
      Builder.insn_near near (builder.push_base _), insnRecord, List.isEmpty_nil, List.isEmpty_cons]
  · by_cases due : interval ≤ behind
    · simp only [loops, due, if_false, if_true, or_true, Builder.safepoint_near near rfl, bind_ok, pure_bind]
      cases label <;> cases rest <;> simp only [Builder.loopBranch_near near (builder.push_base _), bind_ok,
        Builder.insn_near near (builder.push_base _), insnRecord, List.isEmpty_nil, List.isEmpty_cons]
    · simp only [loops, due, if_false, or_self, pure_bind]
      cases label <;> cases rest <;> simp only [Builder.loopBranch_near near rfl, bind_ok,
        Builder.insn_near near rfl, insnRecord, List.isEmpty_nil, List.isEmpty_cons]

theorem labelAt_succ : labelAt header interval (i + 1) =
    if header = some i then some (startAt header interval i) else labelAt header interval i := by
  unfold labelAt
  cases header with
  | none => rfl
  | some h =>
    simp only [Option.bind_some, Option.some.injEq]
    by_cases here : h = i
    · subst here
      simp
    · have same : h < i + 1 ↔ h < i := by omega
      simp only [same, here, if_false]

structure Placed (record? : Nat → Option MicroOp) (header : Option Nat) (poll interval k : Nat) (last : Bool) (o : Nat)
    (insn : Instruction) : Prop where
  safepoint : guarded header interval k = true →
    record? (startAt header interval k) = some (Builder.safepointRecord poll o)
  insn : record? (insnAt header interval k) = some (insnRecord (labelAt header interval (k + 1)) last o insn)

theorem Placed.of_same {poll k : Nat} {last : Bool} {record? other? : Nat → Option MicroOp}
    (placed : Placed record? header poll interval k last o insn)
    (same : ∀ j < startAt header interval (k + 1), other? j = record? j) :
    Placed other? header poll interval k last o insn := by
  have within : insnAt header interval k < startAt header interval (k + 1) := by rw [startAt_succ]; omega
  have before := startAt_le_insnAt header interval k
  exact ⟨fun due => by rw [same _ (by omega)]; exact placed.safepoint due, by rw [same _ within]; exact placed.insn⟩

theorem emit_one (filled : builder.Filled (startAt header interval i)) (o : Nat) (insn : Instruction) (last : Bool) :
    let guardedBuilder := if guarded header interval i then
      builder.push (Builder.safepointRecord builder.interval o) else builder
    let after := guardedBuilder.push (insnRecord (labelAt header interval (i + 1)) last o insn)
    after.Filled (startAt header interval (i + 1)) ∧ after.base = builder.base ∧ after.interval = builder.interval ∧
      (∀ j < startAt header interval i, after.record? j = builder.record? j) ∧
      Placed after.record? header builder.interval interval i last o insn := by
  intro guardedBuilder after
  have rest : startAt header interval (i + 1) = insnAt header interval i + 1 := startAt_succ i
  by_cases due : guarded header interval i = true
  · have first := insnAt_guarded due
    have twice : after = (builder.push (Builder.safepointRecord builder.interval o)).push
        (insnRecord (labelAt header interval (i + 1)) last o insn) := by simp only [after, guardedBuilder, due, if_true]
    have once := filled.push (Builder.safepointRecord builder.interval o)
    rw [twice, rest, first]
    refine ⟨once.push _, by simp only [Builder.push], by simp only [Builder.push], ?_, ?_, ?_⟩
    · intro j older
      rw [once.record_before _ (by omega), filled.record_before _ older]
    · intro _
      rw [once.record_before _ (by omega), filled.record_last]
    · rw [first, once.record_last]
  · have first := insnAt_open due
    have single : after = builder.push (insnRecord (labelAt header interval (i + 1)) last o insn) := by
      simp only [after, guardedBuilder, due, if_false, Bool.false_eq_true]
    rw [single, rest, first]
    refine ⟨filled.push _, by simp only [Builder.push], by simp only [Builder.push], ?_, fun absent => absurd absent due, ?_⟩
    · intro j older
      rw [filled.record_before _ older]
    · rw [first, filled.record_last]

theorem emit_placed {insns : List (Nat × Instruction)} (near : ∀ entry ∈ insns, entry.1 < 65536)
    (filled : builder.Filled (startAt header interval i)) :
    ∃ after, emit header interval insns i (since header interval i) (labelAt header interval i) builder = .ok after ∧
      after.Filled (startAt header interval (i + insns.length)) ∧ after.base = builder.base ∧
      (∀ j < startAt header interval i, after.record? j = builder.record? j) ∧
      ∀ k o insn, insns[k]? = some (o, insn) →
        Placed after.record? header builder.interval interval (i + k) (k + 1 = insns.length) o insn := by
  induction insns generalizing i builder with
  | nil => exact ⟨builder, rfl, filled, rfl, fun _ _ => rfl, by simp⟩
  | cons entry rest ih =>
    obtain ⟨o, insn⟩ := entry
    obtain ⟨grown, base, poll, older, placed⟩ := emit_one filled o insn rest.isEmpty
    generalize built : Builder.push _ _ = next at grown base poll older placed
    obtain ⟨after, emitted, whole, same, kept, others⟩ := ih (fun e member => near e (by simp [member])) grown
    refine ⟨after, ?_, ?_, same.trans base, ?_, ?_⟩
    · rw [emit_cons (near (o, insn) (by simp)), ← emitted, filled.records_eq, ← labelAt_succ, ← built]
      simp only [guarded, decide_eq_true_eq, since]
    · rw [List.length_cons, ← Nat.add_assoc, Nat.add_right_comm]
      exact whole
    · intro j low
      have before := startAt_le_insnAt header interval i
      rw [kept j (by rw [startAt_succ]; omega), older j low]
    · intro k o' insn' there
      cases k with
      | zero =>
        simp only [List.getElem?_cons_zero, Option.some.injEq, Prod.mk.injEq] at there
        obtain ⟨rfl, rfl⟩ := there
        have last : rest.isEmpty = decide (0 + 1 = ((o, insn) :: rest).length) := by cases rest <;> simp
        rw [last] at placed
        exact placed.of_same kept
      | succ k =>
        have next := others k o' insn' (by simpa using there)
        rw [poll] at next
        simpa [Nat.add_assoc, Nat.add_comm 1 k] using next

structure Laid (code : Array UInt8) (poll interval : Nat) (body : Body) : Prop where
  size : code.size = 16 * (startAt body.loopHeader? interval body.insns.length + 1)
  placed : ∀ k o insn, body.insns[k]? = some (o, insn) → Placed (MicroOp.decode? code) body.loopHeader? (max poll 1)
    interval k (k + 1 = body.insns.length) o insn
  exit : MicroOp.decode? code (startAt body.loopHeader? interval body.insns.length) =
    some (.control .exit (UInt16.ofNat body.guestLen) 0)

theorem Laid.executes {code : Array UInt8} {poll j : Nat} {body : Body} {micro : MicroOp} (laid : Laid code poll interval body)
    (there : MicroOp.decode? code j = some micro) (executes : micro.Executes) :
    ∃ k o insn, body.insns[k]? = some (o, insn) ∧ j = insnAt body.loopHeader? interval k ∧
      micro = insnRecord (labelAt body.loopHeader? interval (k + 1)) (k + 1 = body.insns.length) o insn := by
  have inside : 16 * j < code.size := by
    apply Nat.lt_of_not_le
    intro behind
    rw [MicroOp.decode_beyond behind] at there
    cases there
  rw [laid.size] at inside
  rcases Nat.lt_or_ge j (startAt body.loopHeader? interval body.insns.length) with before | after
  · obtain ⟨k, known, record⟩ := startAt_cover before
    obtain ⟨⟨o, insn⟩, line⟩ : ∃ line, body.insns[k]? = some line := ⟨_, List.getElem?_eq_getElem known⟩
    have placed := laid.placed k o insn line
    rcases record with rfl | ⟨due, rfl⟩
    · cases there.symm.trans placed.insn
      exact ⟨k, o, insn, line, rfl, rfl⟩
    · cases there.symm.trans (placed.safepoint due)
      rcases executes with other | other <;> cases other
  · obtain rfl : j = startAt body.loopHeader? interval body.insns.length := by omega
    cases there.symm.trans laid.exit
    rcases executes with other | other <;> cases other

theorem startAt_mono (header : Option Nat) (interval : Nat) {k n : Nat} (before : k ≤ n) :
    startAt header interval k ≤ startAt header interval n := by
  induction before with
  | refl => exact Nat.le_refl _
  | @step n _ ih =>
    have next := startAt_le_insnAt header interval n
    rw [startAt_succ]
    omega

-- Compilation of a snapshot never fails the host; it refuses one without a first instruction.
theorem compile_laid (poll interval maxInsns : Nat) (snapshot : Snapshot) :
    ((Body.scan snapshot maxInsns).insns ≠ [] ∧ ∃ code, compile poll interval maxInsns snapshot = .ok (.ok code) ∧
      code.entryPa = snapshot.entryPa ∧ code.stamp = stampOf snapshot (Body.scan snapshot maxInsns) ∧
      code.guestLen = (Body.scan snapshot maxInsns).guestLen ∧
      Laid code.code poll interval (Body.scan snapshot maxInsns)) ∨
    compile poll interval maxInsns snapshot = .ok (.error (.empty snapshot.entryPa)) := by
  have scanned := Body.scan_scanned snapshot maxInsns
  unfold compile
  generalize Body.scan snapshot maxInsns = body at scanned
  have page : Page.rest snapshot.entryPa ≤ 4096 := Nat.sub_le ..
  cases empty : body.insns.isEmpty with
  | true => exact .inr (by simp [empty]; rfl)
  | false =>
    have near : ∀ entry ∈ body.insns, entry.1 < 65536 := by
      intro entry member
      obtain ⟨k, there⟩ := List.mem_iff_getElem?.mp member
      have starts := (scanned.line k entry.1 entry.2 there).starts
      omega
    have ends : body.guestLen < 65536 := by
      rw [Body.Scanned.guestLen_eq]
      have bounds := scanned.offsets (Nat.le_refl _)
      omega
    have begun : (Builder.start poll snapshot.entryVa).Filled (startAt body.loopHeader? interval 0) :=
      Builder.start_filled poll snapshot.entryVa
    obtain ⟨after, emitted, filled, base, -, placed⟩ := emit_placed near begun
    have label : labelAt body.loopHeader? interval 0 = none := by
      unfold labelAt
      cases body.loopHeader? <;> rfl
    rw [label, since] at emitted
    rw [Nat.zero_add] at filled
    simp only [Builder.start] at base
    have finished := Builder.finish_near ends base
    have whole := filled.push (.control .exit (UInt16.ofNat body.guestLen) 0)
    have exit := filled.record_last (.control .exit (UInt16.ofNat body.guestLen) 0)
    have kept := fun j (older : j < startAt body.loopHeader? interval body.insns.length) =>
      filled.record_before (.control .exit (UInt16.ofNat body.guestLen) 0) older
    generalize after.push (.control .exit (UInt16.ofNat body.guestLen) 0) = final at *
    refine .inl ⟨by simpa using empty, ⟨snapshot.entryPa, snapshot.entryVa, final.buffer.bytes, body.guestLen,
      body.insns.length, body.ending, body.loopHeader?.isSome, stampOf snapshot body⟩, ?_, rfl, rfl, rfl, whole, ?_, exit⟩
    · simp only [empty, Bool.false_eq_true, if_false, emitted]
      simp only [bind, Except.bind, finished]
      rfl
    · intro k o insn there
      have inside : k + 1 ≤ body.insns.length := (List.getElem?_eq_some_iff.mp there).1
      have bound := startAt_mono body.loopHeader? interval inside
      have before := placed k o insn there
      rw [Nat.zero_add] at before
      simp only [Builder.start] at before
      exact before.of_same fun j low => kept j (by omega)

theorem compiled_laid {poll interval maxInsns : Nat} {snapshot : Snapshot} {code : HostCode}
    (compiled : compile poll interval maxInsns snapshot = .ok (.ok code)) :
    Laid code.code poll interval (Body.scan snapshot maxInsns) := by
  rcases compile_laid poll interval maxInsns snapshot with ⟨-, other, same, -, -, -, laid⟩ | empty
  · rw [compiled] at same
    cases same
    exact laid
  · rw [compiled] at empty
    cases empty

theorem compiled_fields {poll interval maxInsns : Nat} {snapshot : Snapshot} {code : HostCode}
    (compiled : compile poll interval maxInsns snapshot = .ok (.ok code)) :
    code = ⟨snapshot.entryPa, snapshot.entryVa, code.code, (Body.scan snapshot maxInsns).guestLen,
      (Body.scan snapshot maxInsns).insns.length, (Body.scan snapshot maxInsns).ending,
      (Body.scan snapshot maxInsns).loopHeader?.isSome, stampOf snapshot (Body.scan snapshot maxInsns)⟩ := by
  unfold compile at compiled
  simp only [bind, Except.bind] at compiled
  split at compiled
  · cases compiled
  · split at compiled
    · cases compiled
    · split at compiled
      · cases compiled
      · cases compiled
        rfl

theorem compiled_body {poll interval maxInsns : Nat} {snapshot : Snapshot} {code : HostCode}
    (compiled : compile poll interval maxInsns snapshot = .ok (.ok code)) :
    code.insnCount = (Body.scan snapshot maxInsns).insns.length ∧ code.guestLen = (Body.scan snapshot maxInsns).guestLen ∧
      code.ending = (Body.scan snapshot maxInsns).ending := by
  have fields := compiled_fields compiled
  exact ⟨congrArg HostCode.insnCount fields, congrArg HostCode.guestLen fields, congrArg HostCode.ending fields⟩

theorem compile_refused {poll interval maxInsns : Nat} {snapshot : Snapshot} {refusal : Refusal}
    (refused : compile poll interval maxInsns snapshot = .ok (.error refusal)) :
    (Body.scan snapshot maxInsns).insns = [] := by
  unfold compile at refused
  simp only [bind, Except.bind] at refused
  split at refused
  · rename_i empty
    simpa using empty
  · split at refused
    · cases refused
    · split at refused
      · cases refused
      · cases refused

end Compile
end TieredHart
