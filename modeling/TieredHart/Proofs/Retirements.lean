import TieredHart.Proofs.Attempts
import TieredHart.Proofs.BlockBounds
import TieredHart.Proofs.HartLaws

namespace TieredHart

variable {σ : Type}

def Instruction.setsCount (insn : Instruction) : Bool :=
  match insn.op with
  | .csr update _ => Csr.ofNumber? insn.csrNumber = some .minstret ∧ (update = .write ∨ insn.rs1 ≠ 0)
  | _ => false

theorem Instruction.setsCount_of_write {insn : Instruction} {update : CsrUpdate} {operand : CsrSource} {old source new : Word}
    (named : insn.op = .csr update operand) (writes : csrNew? update insn.rs1 old source = some new)
    (counter : Csr.ofNumber? (insn.csrNumber % 65536) = some .minstret) : insn.setsCount = true := by
  rw [csrNumber_mod] at counter
  simp [setsCount, named, counter, csrNew_asked writes]

def Instruction.retirements (insn : Instruction) (pc : Word) : Except Fault Flow → List Retirement
  | .ok flow => [⟨pc, insn, flow⟩]
  | .error _ => []

namespace Hart

variable {hart middle after : Hart} {retired later : List Retirement}

theorem instret_retired (hart : Hart) (rd : Nat) (value : Option Word) :
    (Execute.retired hart rd value).instret = hart.instret + 1 := by
  cases value with
  | none => rfl
  | some value =>
    show (hart.put rd value).instret + 1 = _
    unfold put
    split
    · rfl
    · split <;> rfl

-- Only a write to the counter itself changes it; the other name of the counter refuses.
theorem instret_writeCsr {number : Nat} {value : Word} (other : Csr.ofNumber? (number % 65536) ≠ some .minstret)
    (written : hart.writeCsrAt? number value = some after) : after.instret = hart.instret := by
  obtain ⟨csr, named, written⟩ := Option.bind_eq_some_iff.mp written
  cases csr with
  | minstret => exact absurd named other
  | instret | mhartid => cases written
  | mstatus | misa | mie | mtvec | mscratch | mepc | mcause | mtval | mip =>
    cases written
    rfl

theorem instret_enterTrap (hart : Hart) (trap : Trap) : (hart.enterTrap trap).2.instret = hart.instret := by
  unfold enterTrap
  split <;> rfl

def Counts (retired : List Retirement) (hart after : Hart) : Prop :=
  (∀ retirement ∈ retired, retirement.insn.setsCount = false) →
    after.instret = hart.instret + BitVec.ofNat 64 retired.length

namespace Counts

theorem none (same : after.instret = hart.instret) : hart.Counts [] after := by
  intro _
  rw [same]
  exact (BitVec.add_zero _).symm

theorem trans (first : hart.Counts retired middle) (second : middle.Counts later after) :
    hart.Counts (retired ++ later) after := by
  intro plain
  obtain ⟨before, behind⟩ := List.forall_mem_append.mp plain
  rw [second behind, first before, BitVec.add_assoc, List.length_append, BitVec.ofNat_add]

theorem moved (counts : hart.Counts retired middle) (same : after.instret = middle.instret) : hart.Counts retired after := by
  intro plain
  rw [same, counts plain]

end Counts

end Hart

theorem Execute.exchanged_counts {hart after : Hart} {insn : Instruction} {update : CsrUpdate} {operand : CsrSource}
    {source old : Word} (named : insn.op = .csr update operand) (plain : insn.setsCount = false)
    (done : exchanged? hart insn update source = some (old, after)) : after.instret = hart.instret := by
  rcases exchanged_cases done with rfl | ⟨new, writes, written⟩
  · rfl
  · refine Hart.instret_writeCsr (fun counter => ?_) written
    rw [Instruction.setsCount_of_write named writes counter] at plain
    cases plain

theorem execute_counts (bus : Bus σ) (insn : Instruction) (pc : Word) (core : Core σ) : Ends (execute bus insn pc) core
    (fun answer after => core.hart.Counts (insn.retirements pc answer) after.hart) fun _ _ => True := by
  have counts : ∀ {hart rd value flow}, (insn.setsCount = false → hart.instret = core.hart.instret) →
      core.hart.Counts (insn.retirements pc (.ok flow)) (Execute.retired hart rd value) := by
    intro hart rd value flow kept plain
    rw [Hart.instret_retired, kept (plain _ (List.mem_singleton_self _))]
    rfl
  refine (execute_executed bus insn pc core).mono (fun answer after executed => ?_) fun _ _ _ => trivial
  cases executed with
  | computed | loaded | stored | returned => exact counts fun _ => rfl
  | exchanged named done => exact counts fun plain => Execute.exchanged_counts named plain done
  | unloaded | unstored | misaligned | called | halted | denied => exact .none rfl

namespace ThreadedCode

def Progress.insns : Progress → Nat
  | further cursor => cursor.insns
  | left exit => exit.insns

def retiredBy (bus : CodeBus σ) (micro : MicroOp) (pc : Word) (core : Core σ) : List Retirement :=
  match micro.kind with
  | .insn | .loopBranch => micro.instruction?.elim [] fun insn =>
    thereafter (execute bus.toBus insn pc) core fun answer _ => insn.retirements pc answer
  | .safepoint | .exit => []

def retiredAt (code : Array UInt8) (bus : CodeBus σ) (entry : Entry) (cursor : Cursor) (core : Core σ) : List Retirement :=
  (MicroOp.decode? code cursor.index).elim [] fun micro =>
    retiredBy bus micro (entry.pc + BitVec.ofNat 64 micro.pcOffset.toNat) core

def retiredFrom (code : Array UInt8) (bus : CodeBus σ) (entry : Entry) : Nat → Cursor → Core σ → List Retirement
  | 0, _, _ => []
  | fuel + 1, cursor, core => retiredAt code bus entry cursor core ++
    thereafter (step code bus entry cursor) core fun progress after =>
      match progress with
      | .further next => retiredFrom code bus entry fuel next after
      | .left _ => []

variable {code : Array UInt8} {bus : CodeBus σ} {entry : Entry} {core : Core σ} {micro : MicroOp} {pc : Word} {cursor : Cursor}

structure Counts (retired : List Retirement) (cursor : Cursor) (core : Core σ) (insns : Nat) (after : Core σ) : Prop where
  hart : core.hart.Counts retired after.hart
  insns : insns = cursor.insns + retired.length

theorem retiredAt_executes {insn : Instruction} (there : MicroOp.decode? code cursor.index = some micro)
    (kind : micro.Executes) (named : micro.instruction? = some insn) {answer : Except Fault Flow} {after : Core σ}
    (ran : execute bus.toBus insn (entry.pc + BitVec.ofNat 64 micro.pcOffset.toNat) core = .ok answer after) :
    retiredAt code bus entry cursor core =
      insn.retirements (entry.pc + BitVec.ofNat 64 micro.pcOffset.toNat) answer := by
  unfold retiredAt retiredBy
  rw [there, Option.elim_some]
  rcases kind with kind | kind <;> rw [kind, named] <;> exact thereafter_ok ran

theorem step_counts : Ends (step code bus entry cursor) core
    (fun progress after => Counts (retiredAt code bus entry cursor core) cursor core progress.insns after)
    fun _ _ => True := by
  refine step_stepped.mono (fun progress after stepped => ?_) fun _ _ _ => trivial
  cases stepped with
  | safepoint there kind polls =>
    simp only [retiredAt, retiredBy, there, kind, Option.elim_some]
    cases polls <;> exact ⟨.none rfl, rfl⟩
  | insn there kind named tries =>
    cases tries with
    | faulted ran =>
      rw [retiredAt_executes there kind named ran]
      exact ⟨((execute_counts ..).answer ran).moved rfl, rfl⟩
    | retired ran departs =>
      have counts := (execute_counts ..).answer ran
      rw [retiredAt_executes there kind named ran]
      cases departs <;> exact ⟨counts.moved rfl, rfl⟩
  | exit there kind =>
    simp only [retiredAt, retiredBy, there, kind, Option.elim_some]
    exact ⟨.none rfl, rfl⟩

theorem runFrom_counts (fuel : Nat) : Ends (runFrom code bus entry fuel cursor) core
    (fun exit after => Counts (retiredFrom code bus entry fuel cursor core) cursor core exit.insns after)
    fun _ _ => True := by
  induction fuel generalizing cursor core with
  | zero => trivial
  | succ fuel ih =>
    unfold runFrom retiredFrom
    rw [ends_bind]
    refine .intro (fun progress middle ran => ?_) fun _ _ _ => trivial
    have first := step_counts.answer ran
    rw [thereafter_ok ran]
    cases progress with
    | left exit =>
      rw [List.append_nil]
      exact first
    | further next =>
      refine ih.weaken fun exit after later => ⟨first.hart.trans later.hart, ?_⟩
      have before : next.insns = cursor.insns + _ := first.insns
      rw [later.insns, before, List.length_append, Nat.add_assoc]

end ThreadedCode

namespace Trial

theorem retirements_ofFault (fault : Fault) : retirements [ofFault fault] = [] := by
  cases fault <;> rfl

theorem retirements_cons (trial : Trial) (later : List Trial) :
    retirements (trial :: later) = retirements [trial] ++ retirements later :=
  List.filterMap_append (l := [trial])

end Trial

open Trial (retirements retirements_ofFault retirements_cons)

def Interpreted.insns (n : Nat) : Interpreted → Nat
  | .over insns _ => insns
  | .further .. => n + 1

namespace LoopM

variable {space : AddressSpace} {frame : Nat} {pc : Word} {pa n : Nat} {core : Core Engine}

theorem executeOne_counts (insn : Instruction) : Ends (executeOne space frame insn pc) core
    (fun answer after => core.hart.Counts (insn.retirements pc answer) after.hart) fun _ _ => True := by
  refine (executeOne_executes space frame insn pc core).mono (fun answer after executes => ?_) fun _ _ _ => trivial
  cases executes with
  | quiet ran | reported _ ran =>
    have counts := (execute_counts _ insn pc _).answer ran
    exact counts

theorem interpretOne_counts : Ends (interpretOne space frame pc pa n) core
    (fun answer after => core.hart.Counts (retirements [trialOne space frame pc pa n core]) after.hart ∧
      answer.insns n = n + (retirements [trialOne space frame pc pa n core]).length) fun _ _ => True := by
  refine (interpretOne_interprets space frame pc pa n core).mono (fun answer after one => ?_) fun _ _ _ => trivial
  unfold trialOne
  cases one with
  | unfetched fetched =>
    rw [fetched]
    dsimp only
    rw [retirements_ofFault]
    exact ⟨.none rfl, rfl⟩
  | stopped fetched =>
    rw [fetched]
    exact ⟨.none rfl, rfl⟩
  | faulted fetched ran =>
    have counts := (executeOne_counts _).answer ran
    rw [fetched]
    dsimp only
    rw [ran]
    exact ⟨counts, rfl⟩
  | last fetched ran | inner fetched ran =>
    have counts := (executeOne_counts _).answer ran
    rw [fetched]
    dsimp only
    rw [ran]
    exact ⟨counts.moved rfl, rfl⟩

theorem interpretFrom_counts (more : Nat) : Ends (interpretFrom space frame more pc pa n) core
    (fun answer after => core.hart.Counts (retirements (trialsFrom space frame more pc pa n core)) after.hart ∧
      answer.1 = n + (retirements (trialsFrom space frame more pc pa n core)).length) fun _ _ => True := by
  refine (interpretFrom_interprets space frame more pc pa n core).mono (fun answer after interprets => ?_)
    fun _ _ _ => trivial
  induction interprets with
  | ended one =>
    rw [trialsFrom_ended one]
    exact interpretOne_counts.answer one
  | full one => exact interpretOne_counts.answer one
  | beyond one added other =>
    rw [trialsFrom_beyond one added other]
    exact interpretOne_counts.answer one
  | onward one added same _ ih =>
    obtain ⟨counts, insns⟩ := interpretOne_counts.answer one
    obtain ⟨later, behind⟩ := ih
    rw [trialsFrom_onward one added same, retirements_cons]
    refine ⟨counts.trans later, ?_⟩
    rw [behind, List.length_append, ← Nat.add_assoc]
    exact congrArg (· + _) insns

end LoopM
end TieredHart
