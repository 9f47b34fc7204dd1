import TieredHart.Proofs.Layout
import TieredHart.Proofs.StepCases

namespace TieredHart

variable {σ : Type}

namespace ThreadedCode

open Compile (startAt insnAt guarded labelAt insnRecord Laid)

-- A fact about the state of the hart between two instructions of a block: how many retired, where the next one is, and
-- what hart and device are. Polls and retirements that do not ask to leave have to keep it. Nothing is said about the
-- hart's own pc, which compiled code moves only when it is seen.
structure Keeps (bus : CodeBus σ) (body : Body) (entry : Entry) (fact : Nat → Word → Core σ → Prop) : Prop where
  polled : ∀ n pc core device, fact n pc core → bus.poll (core.atPc pc).hart core.device = (false, device) →
    fact n pc ⟨(core.atPc pc).hart, device⟩
  retired : ∀ (n k o : Nat) (insn : Instruction) core flow core', body.insns[k]? = some (o, insn) →
    fact n (entry.pc + BitVec.ofNat 64 o) core →
    execute bus.toBus insn (entry.pc + BitVec.ofNat 64 o) core = .ok (.ok flow) core' →
    bus.mustLeave core'.device = false → fact (n + 1) (flow.target (entry.pc + BitVec.ofNat 64 o) insn.len) core'

-- How a block was left, from a state with the fact: by a fault, on request, by an interrupt, at its end, or by a jump of
-- its last instruction.
inductive Left (bus : CodeBus σ) (body : Body) (entry : Entry) (fact : Nat → Word → Core σ → Prop) :
    CodeExit → Core σ → Prop where
  | fault {n k o : Nat} {pc : Word} {insn : Instruction} {core core' : Core σ} {reason : Fault}
      (here : fact n pc core) (there : body.insns[k]? = some (o, insn)) (place : pc = entry.pc + BitVec.ofNat 64 o)
      (ran : execute bus.toBus insn pc core = .ok (.error reason) core') :
      Left bus body entry fact ⟨pc, .exception reason, none, n, insn.readOnlyCsr?⟩ (core'.atPc pc)
  | request {n k o : Nat} {pc : Word} {insn : Instruction} {core core' : Core σ} {flow : Flow}
      (here : fact n pc core) (there : body.insns[k]? = some (o, insn)) (place : pc = entry.pc + BitVec.ofNat 64 o)
      (ran : execute bus.toBus insn pc core = .ok (.ok flow) core') (asked : bus.mustLeave core'.device = true) :
      Left bus body entry fact ⟨flow.target pc insn.len, .toInterpreter, none, n + 1, none⟩
        (core'.atPc (flow.target pc insn.len))
  | interrupt {n : Nat} {pc : Word} {core : Core σ} {device : σ} (here : fact n pc core) (begun : 0 < n)
      (pending : bus.poll (core.atPc pc).hart core.device = (true, device)) :
      Left bus body entry fact ⟨pc, .interrupt, none, n, none⟩ ⟨(core.atPc pc).hart, device⟩
  | bottom {n : Nat} {pc : Word} {core : Core σ} (here : fact n pc core) (begun : 0 < n)
      (place : pc = entry.pc + BitVec.ofNat 64 body.guestLen) :
      Left bus body entry fact ⟨pc, .fallthrough, chain? entry pc, n, none⟩ (core.atPc pc)
  | jump {n k o : Nat} {pc target : Word} {insn : Instruction} {core core' : Core σ}
      (here : fact n pc core) (there : body.insns[k]? = some (o, insn)) (place : pc = entry.pc + BitVec.ofNat 64 o)
      (ran : execute bus.toBus insn pc core = .ok (.ok (.jump target)) core')
      (stays : bus.mustLeave core'.device = false) :
      Left bus body entry fact
        ⟨target, .fallthrough, if insn.role = .directBranch then chain? entry target else none, n + 1, none⟩
        (core'.atPc target)

inductive Broke (bus : CodeBus σ) (body : Body) (entry : Entry) (fact : Nat → Word → Core σ → Prop) : Failure → Prop where
  | fuel : Broke bus body entry fact .outOfFuel
  | insn {n k o : Nat} {pc : Word} {insn : Instruction} {core core' : Core σ} {failure : Failure}
      (here : fact n pc core) (there : body.insns[k]? = some (o, insn)) (place : pc = entry.pc + BitVec.ofNat 64 o)
      (ran : execute bus.toBus insn pc core = .error failure core') : Broke bus body entry fact failure

variable {code : Array UInt8} {poll interval pageEnd k o : Nat} {body : Body} {bytes : List UInt8} {bus : CodeBus σ}
  {entry : Entry} {fact fact' : Nat → Word → Core σ → Prop} {core : Core σ} {insn : Instruction} {cursor : Cursor}
  {exit : CodeExit}

theorem Keeps.and (one : Keeps bus body entry fact) (other : Keeps bus body entry fact') :
    Keeps bus body entry fun n pc core => fact n pc core ∧ fact' n pc core := by
  constructor
  · intro n pc core device both polled
    exact ⟨one.polled _ _ _ _ both.1 polled, other.polled _ _ _ _ both.2 polled⟩
  · intro n k o insn core flow core' there both ran stays
    exact ⟨one.retired _ _ _ _ _ _ _ there both.1 ran stays, other.retired _ _ _ _ _ _ _ there both.2 ran stays⟩

theorem Left.mono (left : Left bus body entry fact exit core) (weaker : ∀ n pc core, fact n pc core → fact' n pc core) :
    Left bus body entry fact' exit core := by
  cases left with
  | fault here there place ran => exact .fault (weaker _ _ _ here) there place ran
  | request here there place ran asked => exact .request (weaker _ _ _ here) there place ran asked
  | interrupt here begun pending => exact .interrupt (weaker _ _ _ here) begun pending
  | bottom here begun place => exact .bottom (weaker _ _ _ here) begun place
  | jump here there place ran stays => exact .jump (weaker _ _ _ here) there place ran stays

theorem Left.pc (left : Left bus body entry fact exit core) : core.hart.pc = exit.nextPc := by
  cases left <;> rfl

theorem pollAfter_safepoint (interval offset : Nat) :
    (Builder.safepointRecord interval offset).pollAfter = min interval 2147483647 := by
  have small : (Int32.ofInt (min interval 2147483647 : Nat)).toInt = (min interval 2147483647 : Nat) :=
    Int32.toInt_ofInt_of_le (by omega) (by omega)
  unfold MicroOp.pollAfter Builder.safepointRecord MicroOp.control
  rw [small]
  omega

theorem control_offset (kind : MicroKind) (imm : Int32) (near : o < 65536) :
    (MicroOp.control kind (UInt16.ofNat o) imm).pcOffset.toNat = o := by
  simp [MicroOp.control, Nat.mod_eq_of_lt near]

theorem insnRecord_instruction (label : Option Nat) (last : Bool) (legal : insn.Legal) :
    (insnRecord label last o insn).instruction? = some insn := by
  unfold insnRecord
  split <;> exact MicroOp.instruction_ofInstruction legal _ _ _

theorem insnRecord_kind (label : Option Nat) (last : Bool) (o : Nat) (insn : Instruction) :
    (insnRecord label last o insn).kind = .insn ∨ (insnRecord label last o insn).kind = .loopBranch := by
  unfold insnRecord
  split
  · exact .inr rfl
  · exact .inl rfl

theorem insnRecord_offset (insn : Instruction) (label : Option Nat) (last : Bool) (near : o < 65536) :
    (insnRecord label last o insn).pcOffset.toNat = o := by
  unfold insnRecord
  split <;> simp [MicroOp.ofInstruction, Nat.mod_eq_of_lt near]

-- The cursor stands before an instruction of the body, or behind the last one. Polls are counted from retirements, and
-- nothing but the first instruction comes before any retired.
structure Ready (interval : Nat) (body : Body) (k : Nat) (cursor : Cursor) : Prop where
  within : k ≤ body.insns.length
  place : cursor.index = startAt body.loopHeader? interval k ∨
    k < body.insns.length ∧ cursor.index = insnAt body.loopHeader? interval k
  polls : cursor.sincePoll ≤ cursor.insns
  begun : cursor.insns = 0 → k = 0

theorem Ready.first : Ready interval body 0 ⟨0, 0, 0⟩ := ⟨Nat.zero_le _, .inl rfl, Nat.le_refl _, fun _ => rfl⟩

theorem Ready.index (ready : Ready interval body k cursor) :
    guarded body.loopHeader? interval k = true ∧ cursor.index = startAt body.loopHeader? interval k ∨
      cursor.index = insnAt body.loopHeader? interval k := by
  rcases ready.place with start | ⟨-, index⟩
  · cases due : guarded body.loopHeader? interval k with
    | true => exact .inl ⟨rfl, start⟩
    | false => exact .inr (start.trans (Compile.insnAt_open (by simp [due])).symm)
  · exact .inr index

theorem Ready.last (ready : Ready interval body k cursor) (outside : ¬ k < body.insns.length) :
    k = body.insns.length ∧ cursor.index = startAt body.loopHeader? interval body.insns.length := by
  have ended : k = body.insns.length := by
    have within := ready.within
    omega
  refine ⟨ended, ?_⟩
  rcases ready.place with start | ⟨more, -⟩
  · rw [start, ended]
  · omega

def Steps (bus : CodeBus σ) (body : Body) (entry : Entry) (fact : Nat → Word → Core σ → Prop) (interval : Nat) :
    Progress → Core σ → Prop
  | .further cursor, core => ∃ k, Ready interval body k cursor ∧
      fact cursor.insns (entry.pc + BitVec.ofNat 64 (body.offsetAt k)) core
  | .left exit, core => Left bus body entry fact exit core

theorem Polls.steps (keeps : Keeps bus body entry fact) (ready : Ready interval body k cursor)
    (inside : k < body.insns.length) (first : cursor.index + 1 = insnAt body.loopHeader? interval k)
    (here : fact cursor.insns (entry.pc + BitVec.ofNat 64 (body.offsetAt k)) core) {micro : MicroOp}
    (patient : 0 < micro.pollAfter) {progress : Progress} {after : Core σ}
    (polls : Polls bus micro (entry.pc + BitVec.ofNat 64 (body.offsetAt k)) cursor core progress after) :
    Steps bus body entry fact interval progress after := by
  have counted := ready.polls
  cases polls with
  | passed => exact ⟨k, ⟨ready.within, .inr ⟨inside, first⟩, counted, ready.begun⟩, here⟩
  | polled _ answer =>
    exact ⟨k, ⟨ready.within, .inr ⟨inside, first⟩, Nat.zero_le _, ready.begun⟩, keeps.polled _ _ _ _ here answer⟩
  | interrupted due answer => exact .interrupt here (by omega) answer

theorem back_target {base : Word} {target : Nat} {imm : Int} (aimed : (target : Int) = o + imm) :
    base + BitVec.ofNat 64 o + Word.ofImmediate imm = base + BitVec.ofNat 64 target := by
  rw [BitVec.add_assoc]
  congr 1
  rw [← BitVec.ofInt_natCast, ← BitVec.ofInt_natCast, aimed, BitVec.ofInt_add]
  rfl

theorem next_target {base : Word} {len : Nat} :
    base + BitVec.ofNat 64 o + BitVec.ofNat 64 len = base + BitVec.ofNat 64 (o + len) := by
  rw [BitVec.add_assoc, BitVec.ofNat_add]

theorem insnRecord_loop {label : Option Nat} {last : Bool} (loops : (insnRecord label last o insn).kind = .loopBranch) :
    ∃ here, label = some here ∧ last = true ∧ (insnRecord label last o insn).aux = UInt16.ofNat here := by
  unfold insnRecord at loops ⊢
  split at loops
  · exact ⟨_, rfl, rfl, rfl⟩
  · cases loops

theorem loop_header (scanned : body.Scanned bytes pageEnd) (page : pageEnd ≤ 4096) (there : body.insns[k]? = some (o, insn))
    (loops : (insnRecord (labelAt body.loopHeader? interval (k + 1)) (k + 1 = body.insns.length) o insn).kind =
      .loopBranch) :
    ∃ header, body.loopHeader? = some header ∧ header < body.insns.length ∧ insn.role = .directBranch ∧
      (body.offsetAt header : Int) = o + insn.imm ∧
      (insnRecord (labelAt body.loopHeader? interval (k + 1)) (k + 1 = body.insns.length) o insn).aux.toNat =
        startAt body.loopHeader? interval header := by
  obtain ⟨here, labelled, last, aux⟩ := insnRecord_loop loops
  obtain ⟨header, looped, placed⟩ := Option.bind_eq_some_iff.mp labelled
  obtain rfl := Option.some.inj (Option.ite_none_right_eq_some.mp placed).2
  obtain ⟨final, closes, branch, -, inside, aimed⟩ := Body.loopHeader_some looped
  have same : final = (o, insn) := by
    have length : k = body.insns.length - 1 := by
      have ended : k + 1 = body.insns.length := by simpa using last
      omega
    rw [List.getLast?_eq_getElem?, ← length, there] at closes
    exact (Option.some.inj closes).symm
  subst same
  have count := (scanned.offsets (Nat.le_refl _)).1
  have ends := (scanned.offsets (Nat.le_refl _)).2.1
  have bound := Compile.startAt_bound body.loopHeader? interval header
  refine ⟨header, looped, inside, branch, aimed, ?_⟩
  rw [aux]
  simp only [UInt16.toNat_ofNat']
  omega

theorem loop_steps (scanned : body.Scanned bytes pageEnd) (page : pageEnd ≤ 4096) (ready : Ready interval body k cursor)
    (there : body.insns[k]? = some (o, insn))
    (loops : (insnRecord (labelAt body.loopHeader? interval (k + 1)) (k + 1 = body.insns.length) o insn).kind =
      .loopBranch) {target : Word} {core core' : Core σ}
    (attempted : Attempted bus.toBus insn (entry.pc + BitVec.ofNat 64 o) core (.ok (.jump target)) core')
    (kept : fact (cursor.insns + 1) target core') :
    Steps bus body entry fact interval (.further
      ⟨(insnRecord (labelAt body.loopHeader? interval (k + 1)) (k + 1 = body.insns.length) o insn).aux.toNat,
        cursor.insns + 1, cursor.sincePoll + 1⟩) core' := by
  have polls := ready.polls
  obtain ⟨header, -, inside, branch, aimed, index⟩ := loop_header scanned page there loops
  refine ⟨header, ⟨by omega, .inl index, by simp only; omega, by simp⟩, ?_⟩
  have jumped := attempted.branch _ rfl branch
  simp only [reduceCtorEq, false_or, Flow.jump.injEq] at jumped
  rw [← back_target aimed, ← jumped]
  exact kept

theorem Departs.steps (keeps : Keeps bus body entry fact) (scanned : body.Scanned bytes pageEnd) (page : pageEnd ≤ 4096)
    (ready : Ready interval body k cursor) (there : body.insns[k]? = some (o, insn))
    (first : cursor.index = insnAt body.loopHeader? interval k)
    (here : fact cursor.insns (entry.pc + BitVec.ofNat 64 o) core) {flow : Flow} {middle after : Core σ} {progress : Progress}
    (ran : execute bus.toBus insn (entry.pc + BitVec.ofNat 64 o) core = .ok (.ok flow) middle)
    (departs : Departs bus entry
      (insnRecord (labelAt body.loopHeader? interval (k + 1)) (k + 1 = body.insns.length) o insn) insn
      (entry.pc + BitVec.ofNat 64 o) cursor middle flow progress after) : Steps bus body entry fact interval progress after := by
  have inside : k < body.insns.length := (List.getElem?_eq_some_iff.mp there).1
  have polls := ready.polls
  cases departs with
  | asked leaves => exact .request here there rfl ran leaves
  | onward stays =>
    refine ⟨k + 1, ⟨inside, .inl ?_, by simp only; omega, by simp⟩, ?_⟩
    · rw [Compile.startAt_succ, ← first]
    · rw [(scanned.line k o insn there).next, ← next_target]
      exact keeps.retired _ _ _ _ _ _ _ there here ran stays
  | looped stays loops =>
    have attempted := (execute_attempted bus.toBus insn (entry.pc + BitVec.ofNat 64 o) core).answer ran
    exact loop_steps scanned page ready there loops attempted (keeps.retired _ _ _ _ _ _ _ there here ran stays)
  | jumped stays => exact .jump here there rfl ran stays

inductive Recorded (poll interval : Nat) (body : Body) (k : Nat) (cursor : Cursor) : MicroOp → Prop where
  | safepoint (inside : k < body.insns.length) (due : guarded body.loopHeader? interval k = true)
      (first : cursor.index + 1 = insnAt body.loopHeader? interval k) :
      Recorded poll interval body k cursor (Builder.safepointRecord (max poll 1) (body.offsetAt k))
  | insn {insn : Instruction} (there : body.insns[k]? = some (body.offsetAt k, insn))
      (first : cursor.index = insnAt body.loopHeader? interval k) : Recorded poll interval body k cursor
        (insnRecord (labelAt body.loopHeader? interval (k + 1)) (k + 1 = body.insns.length) (body.offsetAt k) insn)
  | exit (ended : k = body.insns.length) :
      Recorded poll interval body k cursor (.control .exit (UInt16.ofNat body.guestLen) 0)

theorem Ready.record (ready : Ready interval body k cursor) (laid : Laid code poll interval body)
    (scanned : body.Scanned bytes pageEnd) (page : pageEnd ≤ 4096) :
    ∃ micro, MicroOp.decode? code cursor.index = some micro ∧ micro.pcOffset.toNat = body.offsetAt k ∧
      Recorded poll interval body k cursor micro := by
  have near : body.offsetAt k < 65536 := by
    have bounds := scanned.offsets ready.within
    omega
  by_cases inside : k < body.insns.length
  · obtain ⟨insn, there, -⟩ := scanned.lines inside
    have placed := laid.placed k _ insn there
    rcases ready.index with ⟨due, start⟩ | first
    · exact ⟨_, start ▸ placed.safepoint due, control_offset _ _ near,
        .safepoint inside due (by rw [Compile.insnAt_guarded due, start])⟩
    · exact ⟨_, first ▸ placed.insn, insnRecord_offset insn _ _ near, .insn there first⟩
  · obtain ⟨ended, last⟩ := ready.last inside
    refine ⟨_, last ▸ laid.exit, ?_, .exit ended⟩
    rw [ended, ← Body.Scanned.guestLen_eq] at near ⊢
    exact control_offset _ _ near

-- One record: the invariant is the fact at the instruction before which the cursor stands.
theorem step_steps (keeps : Keeps bus body entry fact) (laid : Laid code poll interval body)
    (scanned : body.Scanned bytes pageEnd) (page : pageEnd ≤ 4096) (filled : body.insns ≠ [])
    (ready : Ready interval body k cursor)
    (here : fact cursor.insns (entry.pc + BitVec.ofNat 64 (body.offsetAt k)) core) :
    Ends (step code bus entry cursor) core (Steps bus body entry fact interval)
      fun failure _ => Broke bus body entry fact failure := by
  obtain ⟨micro, record, offset, recorded⟩ := ready.record laid scanned page
  cases recorded with
  | safepoint inside _ first =>
    have patient := pollAfter_safepoint (max poll 1) (body.offsetAt k)
    rw [step_safepoint record rfl, offset]
    refine stepSafepoint_polls.mono (fun _ _ polls => ?_) fun _ _ impossible => impossible.elim
    exact polls.steps keeps ready inside first here (by omega)
  | insn there first =>
    rw [step_executes record (insnRecord_kind _ _ _ _), offset]
    have legal := Instruction.decode_legal (scanned.line k _ _ there).decoded
    refine (stepInsn_tries (insnRecord_instruction _ _ legal)).mono (fun _ _ tries => ?_) fun _ _ ran => .insn here there rfl ran
    cases tries with
    | faulted ran => exact .fault here there rfl ran
    | retired ran departs => exact departs.steps keeps scanned page ready there first here ran
  | exit ended =>
    have begun : 0 < cursor.insns := by
      have count := List.length_pos_iff.mpr filled
      have begun := ready.begun
      omega
    rw [step_exit record rfl, offset]
    refine .bottom here begun ?_
    rw [ended, ← Body.Scanned.guestLen_eq]

theorem runFrom_left (keeps : Keeps bus body entry fact) (laid : Laid code poll interval body)
    (scanned : body.Scanned bytes pageEnd) (page : pageEnd ≤ 4096) (filled : body.insns ≠ []) (fuel : Nat)
    (ready : Ready interval body k cursor)
    (here : fact cursor.insns (entry.pc + BitVec.ofNat 64 (body.offsetAt k)) core) :
    Ends (runFrom code bus entry fuel cursor) core (Left bus body entry fact)
      fun failure _ => Broke bus body entry fact failure := by
  induction fuel generalizing cursor core k with
  | zero => exact .fuel
  | succ fuel ih =>
    unfold runFrom
    rw [ends_bind]
    refine (step_steps keeps laid scanned page filled ready here).weaken ?_
    intro progress core' steps
    cases progress with
    | further cursor' =>
      obtain ⟨k', ready', here'⟩ := steps
      exact ih ready' here'
    | left exit => exact steps

-- A run of compiled code from its entry. What holds at the entry and is kept between instructions holds where it ends.
theorem run_left (keeps : Keeps bus body entry fact) (laid : Laid code poll interval body)
    (scanned : body.Scanned bytes pageEnd) (page : pageEnd ≤ 4096) (filled : body.insns ≠ []) (fuel : Nat)
    (here : fact 0 entry.pc core) :
    Ends (run fuel code bus entry) core (Left bus body entry fact) fun failure _ => Broke bus body entry fact failure := by
  refine runFrom_left keeps laid scanned page filled fuel .first ?_
  rw [scanned.start]
  simpa using here

theorem chain_some {target : Word} {pa : Nat} (known : chain? entry target = some pa) :
    target.page = entry.pc.page ∧ pa = Page.base entry.pa + target.pageOffset := by
  unfold chain? at known
  split at known
  · rename_i same
    exact ⟨same, (Option.some.inj known).symm⟩
  · cases known

end ThreadedCode
end TieredHart
