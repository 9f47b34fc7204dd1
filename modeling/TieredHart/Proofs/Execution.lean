import TieredHart.Execute
import TieredHart.Proofs.Decoding
import TieredHart.Proofs.Outcome

namespace TieredHart

variable {σ β α γ : Type}

theorem EStateM.bind_ok {ε : Type} {action : EStateM ε σ α} {next : α → EStateM ε σ γ} {s t : σ} {a : α}
    (ran : action s = .ok a t) : (action >>= next) s = next a t := by
  show EStateM.bind action next s = _
  simp only [EStateM.bind, ran]

theorem EStateM.bind_eq_ok {ε : Type} {action : EStateM ε σ α} {next : α → EStateM ε σ γ} {s u : σ} {c : γ}
    (ran : (action >>= next) s = .ok c u) : ∃ a t, action s = .ok a t ∧ next a t = .ok c u := by
  change EStateM.bind action next s = _ at ran
  unfold EStateM.bind at ran
  split at ran
  · rename_i a t first
    exact ⟨a, t, first, ran⟩
  · cases ran

-- A bus whose aligned accesses are answered as another one answers them, with devices that stay related. The failures
-- it may have besides are named; nothing is asked of accesses that no instruction makes.
structure Bus.Follows (bus : Bus σ) (plain : Bus β) (related : σ → β → Prop) (bad : Failure → Prop) : Prop where
  load : ∀ va width lines d e, related d e → va.toNat % width.bytes = 0 →
    Ends (bus.load va width) ⟨lines, d⟩ (fun answer s => ∃ e', plain.load va width ⟨lines, e⟩ =
      .ok answer ⟨s.lines, e'⟩ ∧ related s.device e') fun failure _ => bad failure
  store : ∀ va width value lines d e, related d e → va.toNat % width.bytes = 0 →
    Ends (bus.store va width value) ⟨lines, d⟩ (fun answer s => ∃ e', plain.store va width value ⟨lines, e⟩ =
      .ok answer ⟨s.lines, e'⟩ ∧ related s.device e') fun failure _ => bad failure

structure Core.Shadows (related : σ → β → Prop) (pc : Word) (core : Core σ) (shadow : Core β) : Prop where
  hart : shadow.hart = { core.hart with pc := pc }
  device : related core.device shadow.device

-- An action that leaves pc alone, and that a second action repeats on the shadow.
def Matches (related : σ → β → Prop) (bad : Failure → Prop) (left : EStateM Failure (Core σ) α)
    (right : EStateM Failure (Core β) α) : Prop :=
  ∀ pc core shadow, Core.Shadows related pc core shadow →
    Ends left core (fun answer core' => core'.hart.pc = core.hart.pc ∧
      ∃ shadow', right shadow = .ok answer shadow' ∧ Core.Shadows related pc core' shadow') fun failure _ => bad failure

namespace Matches

variable {related : σ → β → Prop} {bad : Failure → Prop}

theorem pure (a : α) : Matches related bad (Pure.pure a) (Pure.pure a) :=
  fun _ _ shadow shadows => ⟨rfl, shadow, rfl, shadows⟩

theorem bind {left : EStateM Failure (Core σ) α} {right : EStateM Failure (Core β) α}
    {next : α → EStateM Failure (Core σ) γ} {next' : α → EStateM Failure (Core β) γ}
    (first : Matches related bad left right) (later : ∀ a, Matches related bad (next a) (next' a)) :
    Matches related bad (left >>= next) (right >>= next') := by
  intro pc core shadow shadows
  rw [ends_bind]
  refine (first pc core shadow shadows).weaken ?_
  rintro a core' ⟨pcSame, shadow', ran, shadows'⟩
  refine (later a pc core' shadow' shadows').weaken ?_
  rintro b core'' ⟨pcSame', shadow'', ran', shadows''⟩
  exact ⟨pcSame'.trans pcSame, shadow'', (EStateM.bind_ok ran).trans ran', shadows''⟩

theorem read (view : Hart → α) {next : α → EStateM Failure (Core σ) γ} {next' : α → EStateM Failure (Core β) γ}
    (blind : ∀ (hart : Hart) pc, view { hart with pc := pc } = view hart)
    (later : ∀ a, Matches related bad (next a) (next' a)) :
    Matches related bad (get >>= fun core => next (view core.hart)) (get >>= fun core => next' (view core.hart)) := by
  intro pc core shadow shadows
  have same : view shadow.hart = view core.hart := by rw [shadows.hart, blind]
  rw [ends_bind, ends_get]
  refine (later (view core.hart) pc core shadow shadows).weaken ?_
  rintro answer core' ⟨pcSame, shadow', ran, shadows'⟩
  refine ⟨pcSame, shadow', ?_, shadows'⟩
  show next' (view shadow.hart) shadow = _
  rw [same, ran]

theorem reg {r : Nat} (known : r < 32) {next : Word → EStateM Failure (Core σ) γ}
    {next' : Word → EStateM Failure (Core β) γ} (later : ∀ a, Matches related bad (next a) (next' a)) :
    Matches related bad (get >>= fun core => MonadExcept.ofExcept (core.hart.reg r) >>= next)
      (get >>= fun core => MonadExcept.ofExcept (core.hart.reg r) >>= next') := by
  have there : ∀ hart : Hart, hart.reg r = .ok hart.regs[r] := fun hart => by simp [Hart.reg, known]
  simp only [there]
  exact read (fun hart => hart.regs[r]) (fun _ _ => rfl) later

theorem modifyHart {change : Hart → Hart} (blind : ∀ hart pc, change { hart with pc := pc } = { change hart with pc := pc })
    (keeps : ∀ hart, (change hart).pc = hart.pc) :
    Matches related bad (Core.modifyHart change) (Core.modifyHart change) := by
  intro pc core shadow shadows
  refine ⟨keeps _, _, rfl, ?_, shadows.device⟩
  show change shadow.hart = _
  rw [shadows.hart, blind]

theorem writeReg {r : Nat} (known : r < 32) (value : Word) :
    Matches related bad (Core.updateHart (·.writeReg r value)) (Core.updateHart (·.writeReg r value)) := by
  intro pc core shadow shadows
  unfold Core.updateHart Ends Hart.writeReg
  rw [shadows.hart]
  by_cases zero : r = 0
  · simp only [zero, if_true]
    exact ⟨trivial, _, rfl, rfl, shadows.device⟩
  · simp only [zero, if_false, known, dif_pos]
    exact ⟨trivial, _, rfl, rfl, shadows.device⟩

theorem onBus {left : EStateM Failure (Attached σ) α} {right : EStateM Failure (Attached β) α}
    (same : ∀ lines d e, related d e → Ends left ⟨lines, d⟩ (fun answer s => ∃ e',
      right ⟨lines, e⟩ = .ok answer ⟨s.lines, e'⟩ ∧ related s.device e') fun failure _ => bad failure) :
    Matches related bad (Core.onBus left) (Core.onBus right) := by
  intro pc core shadow shadows
  have step := same core.hart.mip core.device shadow.device shadows.device
  unfold Ends Core.onBus
  cases ran : left ⟨core.hart.mip, core.device⟩ with
  | ok a s =>
    obtain ⟨e', answered, kept⟩ := step.answer ran
    refine ⟨rfl, ⟨{ shadow.hart with mip := s.lines }, e'⟩, ?_, ?_, kept⟩
    · rw [shadows.hart]
      simp only [answered]
    · rw [shadows.hart]
  | error failure s => exact step.failure ran

end Matches

namespace Execute

variable {related : σ → β → Prop} {bad : Failure → Prop} {bus : Bus σ} {plain : Bus β}

theorem finish_matches {rd : Nat} (known : rd < 32) (value : Option Word) (flow : Flow) :
    Matches related bad (finish rd value flow) (finish rd value flow) := by
  unfold finish
  cases value with
  | none => exact .bind (.modifyHart (fun _ _ => rfl) fun _ => rfl) fun _ => .pure _
  | some value =>
    exact .bind (.writeReg known value) fun _ => .bind (.modifyHart (fun _ _ => rfl) fun _ => rfl) fun _ => .pure _

theorem load_matches (follows : bus.Follows plain related bad) {rd : Nat} (known : rd < 32) (op : LoadOp) (addr : Word) :
    Matches related bad (load bus op rd addr) (load plain op rd addr) := by
  unfold load
  by_cases aligned : addr.toNat % op.width.bytes = 0
  · simp only [aligned, ne_eq, not_true_eq_false, if_false]
    refine .bind (.onBus fun lines d e paired => follows.load addr op.width lines d e paired aligned) fun answer => ?_
    cases answer with
    | ok raw => exact finish_matches known _ _
    | error fault => exact .pure _
  · simp only [aligned, ne_eq, not_false_eq_true, if_true]
    exact .pure _

theorem store_matches (follows : bus.Follows plain related bad) {rd : Nat} (known : rd < 32) (op : StoreOp)
    (addr value : Word) : Matches related bad (store bus op rd addr value) (store plain op rd addr value) := by
  unfold store
  by_cases aligned : addr.toNat % op.width.bytes = 0
  · simp only [aligned, ne_eq, not_true_eq_false, if_false]
    refine .bind (.onBus fun lines d e paired => follows.store addr op.width value lines d e paired aligned)
      fun answer => ?_
    cases answer with
    | ok raw => exact finish_matches known _ _
    | error fault => exact .pure _
  · simp only [aligned, ne_eq, not_false_eq_true, if_true]
    exact .pure _

theorem trapReturn_matches {rd : Nat} (known : rd < 32) :
    Matches related bad (trapReturn (σ := σ) rd) (trapReturn (σ := β) rd) := by
  have jump : ∀ target, Matches related bad
      (Core.modifyHart (fun hart => { hart with mstatus := Hart.unstackInterruptEnable hart.mstatus }) >>=
        fun _ => finish rd none (.jump target))
      (Core.modifyHart (fun hart => { hart with mstatus := Hart.unstackInterruptEnable hart.mstatus }) >>=
        fun _ => finish rd none (.jump target)) :=
    fun target => .bind (.modifyHart (fun _ _ => rfl) fun _ => rfl) fun _ => finish_matches known _ _
  exact .read Hart.mepc (fun _ _ => rfl) jump

theorem readCsrAt_blind (hart : Hart) (pc : Word) (number : Nat) :
    Hart.readCsrAt? { hart with pc := pc } number = hart.readCsrAt? number := by
  unfold Hart.readCsrAt?
  congr 1

theorem writeCsrAt_blind (hart : Hart) (pc value : Word) (number : Nat) :
    Hart.writeCsrAt? { hart with pc := pc } number value =
      (hart.writeCsrAt? number value).map fun after => { after with pc := pc } := by
  unfold Hart.writeCsrAt?
  cases Csr.ofNumber? (number % 65536) with
  | none => rfl
  | some csr => cases csr <;> rfl

theorem writeCsrAt_pc {hart after : Hart} {number : Nat} {value : Word}
    (written : hart.writeCsrAt? number value = some after) : after.pc = hart.pc := by
  unfold Hart.writeCsrAt? at written
  cases named : Csr.ofNumber? (number % 65536) with
  | none => simp [named] at written
  | some csr =>
    simp only [named, Option.bind_some] at written
    cases csr <;> simp only [Hart.writeCsr?, Option.some.injEq, reduceCtorEq] at written <;> rw [← written]

theorem exchanged_blind (hart : Hart) (pc : Word) (insn : Instruction) (update : CsrUpdate) (source : Word) :
    exchanged? { hart with pc := pc } insn update source =
      (exchanged? hart insn update source).map fun exchanged => (exchanged.1, { exchanged.2 with pc := pc }) := by
  unfold exchanged?
  rw [readCsrAt_blind]
  cases hart.readCsrAt? insn.csrNumber with
  | none => rfl
  | some old =>
    simp only [Option.bind_some]
    cases Instruction.csrNew? update insn.rs1 old source with
    | none => rfl
    | some new =>
      simp only [Option.elim_some, writeCsrAt_blind]
      cases hart.writeCsrAt? insn.csrNumber new <;> rfl

theorem exchanged_cases {hart after : Hart} {insn : Instruction} {update : CsrUpdate} {source old : Word}
    (done : exchanged? hart insn update source = some (old, after)) : after = hart ∨ ∃ new,
      Instruction.csrNew? update insn.rs1 old source = some new ∧ hart.writeCsrAt? insn.csrNumber new = some after := by
  simp only [exchanged?, Option.bind_eq_some_iff, Option.map_eq_some_iff, Prod.mk.injEq] at done
  obtain ⟨read, -, _, wrote, rfl, rfl⟩ := done
  cases asked : Instruction.csrNew? update insn.rs1 read source with
  | none =>
    rw [asked, Option.elim_none] at wrote
    exact .inl (Option.some.inj wrote).symm
  | some new =>
    rw [asked, Option.elim_some] at wrote
    exact .inr ⟨new, rfl, wrote⟩

theorem exchanged_pc {hart after : Hart} {insn : Instruction} {update : CsrUpdate} {source old : Word}
    (done : exchanged? hart insn update source = some (old, after)) : after.pc = hart.pc := by
  rcases exchanged_cases done with rfl | ⟨_, -, written⟩
  · rfl
  · exact writeCsrAt_pc written

theorem csr_matches {insn : Instruction} (known : insn.rd < 32) (update : CsrUpdate) (source : Word) :
    Matches related bad (csr (σ := σ) insn update source) (csr (σ := β) insn update source) := by
  intro pc core shadow shadows
  have blind := exchanged_blind core.hart pc insn update source
  rw [← shadows.hart] at blind
  show Ends (exchange insn.rd (exchanged? core.hart insn update source)) core (fun answer core' =>
    core'.hart.pc = core.hart.pc ∧ ∃ shadow', exchange insn.rd (exchanged? shadow.hart insn update source) shadow =
      .ok answer shadow' ∧ Core.Shadows related pc core' shadow') _
  rw [blind]
  cases done : exchanged? core.hart insn update source with
  | none => exact ⟨rfl, shadow, rfl, shadows⟩
  | some exchanged =>
    obtain ⟨old, after⟩ := exchanged
    have counted : Matches related bad (finish insn.rd (some old) .next) (finish insn.rd (some old) .next) :=
      finish_matches known _ _
    refine (counted pc ⟨after, core.device⟩ ⟨{ after with pc := pc }, shadow.device⟩ ⟨rfl, shadows.device⟩).weaken ?_
    rintro answer core' ⟨pcSame, others⟩
    exact ⟨pcSame.trans (exchanged_pc done), others⟩

theorem shift_small {op : ImmOpW} {imm : Int} (small : op ≠ .addiw → 0 ≤ imm ∧ imm < 32) (a : Word) :
    ∃ value, op.apply a (Word.ofImmediate imm) = .ok value := by
  have amount : 0 ≤ imm → imm < 32 → (Word.ofImmediate imm).toNat % 64 < 32 := by
    intro low high
    simp only [Word.ofImmediate, BitVec.toNat_ofInt]
    omega
  cases op with
  | addiw => exact ⟨_, rfl⟩
  | slliw => exact ⟨_, if_pos (amount (small nofun).1 (small nofun).2)⟩
  | srliw => exact ⟨_, if_pos (amount (small nofun).1 (small nofun).2)⟩
  | sraiw => exact ⟨_, if_pos (amount (small nofun).1 (small nofun).2)⟩

end Execute

def Op.Computes : Op → Prop
  | load _ | store _ | csr _ _ | ecall | ebreak | mret => False
  | _ => True

namespace Instruction

inductive Goes (insn : Instruction) (pc : Word) : Flow → Prop where
  | next : Goes insn pc .next
  | aimed (direct : insn.role = .directBranch) : Goes insn pc (.jump (pc + Word.ofImmediate insn.imm))
  | through (named : insn.op = .jalr) (base : Word) : Goes insn pc (.jump (base &&& ~~~1))

-- Which action an operation calls for. Only what no decoder gives can fail by itself.
inductive Acts (insn : Instruction) (pc a b : Word) : Action → Prop where
  | compute {value : Option Word} {flow : Flow} (computes : insn.op.Computes) (goes : insn.Goes pc flow) :
      Acts insn pc a b (.compute value flow)
  | load {op : LoadOp} (named : insn.op = .load op) : Acts insn pc a b (.load op (a + Word.ofImmediate insn.imm))
  | store {op : StoreOp} (named : insn.op = .store op) : Acts insn pc a b (.store op (a + Word.ofImmediate insn.imm) b)
  | exchange {update : CsrUpdate} {operand : CsrSource} {source : Word} (named : insn.op = .csr update operand) :
      Acts insn pc a b (.exchange update source)
  | trapReturn (named : insn.op = .mret) : Acts insn pc a b .trapReturn
  | call (named : insn.op = .ecall) : Acts insn pc a b (.refuse .environmentCall)
  | halt (named : insn.op = .ebreak) : Acts insn pc a b (.refuse (.breakpoint pc))
  | fail {failure : Failure} (illegal : ¬ insn.Legal) : Acts insn pc a b (.fail failure)

theorem action_acts (insn : Instruction) (pc a b : Word) : insn.Acts pc a b (insn.action pc a b) := by
  unfold action
  cases named : insn.op with
  | load op => exact .load named
  | store op => exact .store named
  | csr update operand => exact .exchange named
  | mret => exact .trapReturn named
  | ecall => exact .call named
  | ebreak => exact .halt named
  | jal => exact .compute (by simp [named, Op.Computes]) (.aimed (by simp [role, named, Op.role]))
  | jalr => exact .compute (by simp [named, Op.Computes]) (.through named _)
  | branch condition =>
    refine .compute (by simp [named, Op.Computes]) ?_
    split
    · exact .aimed (by simp [role, named, Op.role])
    · exact .next
  | immediateW op =>
    dsimp only
    split
    · exact .compute (by simp [named, Op.Computes]) .next
    · rename_i refused
      refine .fail fun legal => ?_
      obtain ⟨value, shifted⟩ := Execute.shift_small (legal.shift op named) a
      rw [shifted] at refused
      cases refused
  | lui | auipc | immediate | register | registerW | fence | fenceI | wfi =>
    exact .compute (by simp [named, Op.Computes]) .next

theorem action_return {insn : Instruction} (named : insn.op = .mret) (pc a b : Word) :
    insn.action pc a b = .trapReturn := by
  unfold action
  rw [named]

end Instruction

-- A legal instruction does the same over a bus as over one that it follows, and fails only where the bus does.
theorem execute_matches {related : σ → β → Prop} {bad : Failure → Prop} {bus : Bus σ} {plain : Bus β}
    (follows : bus.Follows plain related bad) {insn : Instruction} (legal : insn.Legal) (pc : Word) :
    Matches related bad (execute bus insn pc) (execute plain insn pc) := by
  have rd := legal.rd
  refine .reg legal.rs1 fun a => .reg legal.rs2 fun b => ?_
  have acts := insn.action_acts pc a b
  generalize insn.action pc a b = action at acts ⊢
  cases acts with
  | compute => exact Execute.finish_matches rd _ _
  | load => exact Execute.load_matches follows rd _ _
  | store => exact Execute.store_matches follows rd _ _ _
  | exchange => exact Execute.csr_matches rd _ _
  | trapReturn => exact Execute.trapReturn_matches rd
  | call => exact .pure _
  | halt => exact .pure _
  | fail illegal => exact absurd legal illegal

end TieredHart
