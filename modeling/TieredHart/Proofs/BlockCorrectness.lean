import TieredHart.Engine.Compiling
import TieredHart.Proofs.BlockRun

namespace TieredHart

variable {σ β : Type}

-- Instructions of a byte string that retire one after another. Each is decoded at the distance of its address from the
-- base, executed at that address, and followed where its flow leads.
inductive Retires (bus : Bus β) (bytes : List UInt8) (base : Word) : Nat → Word → Core β → Word → Core β → Prop where
  | none {pc : Word} {core : Core β} : Retires bus bytes base 0 pc core pc core
  | more {n : Nat} {pc pc' : Word} {core core' core'' : Core β} {insn : Instruction} {flow : Flow}
      (before : Retires bus bytes base n pc core pc' core')
      (decoded : Instruction.decode (bytes.drop (pc' - base).toNat) = .ok insn)
      (ran : execute bus insn pc' core' = .ok (.ok flow) core'') :
      Retires bus bytes base (n + 1) pc core (flow.target pc' insn.len) core''

-- A device in which a view shows the state of a plain bus: accesses act on what it shows as the plain bus does, polls
-- leave that alone whatever else they count, and whether a block has to be left can be told from it.
structure CodeBus.PollsQuietly (bus : CodeBus σ) (plain : Bus β) (view : σ → β) (leave : β → Bool) : Prop where
  access : bus.toBus.Follows plain (fun device shown => view device = shown) fun _ => True
  poll : ∀ hart device, view (bus.poll hart device).2 = view device
  leave : ∀ device, bus.mustLeave device = leave (view device)

theorem CodeBus.pollsQuietly_self {bus : CodeBus σ} (silent : ∀ hart device, (bus.poll hart device).2 = device) :
    bus.PollsQuietly bus.toBus id bus.mustLeave := by
  refine ⟨⟨?_, ?_⟩, silent, fun _ => rfl⟩
  · rintro va width lines device _ rfl -
    exact .intro (fun answer s ran => ⟨s.device, ran, rfl⟩) fun _ _ _ => trivial
  · rintro va width value lines device _ rfl -
    exact .intro (fun answer s ran => ⟨s.device, ran, rfl⟩) fun _ _ _ => trivial

def Core.viewed (core : Core σ) (view : σ → β) : Core β := ⟨core.hart, view core.device⟩

structure CodeExit.Explained (bus : CodeBus σ) (plain : Bus β) (view : σ → β) (leave : β → Bool) (bytes : List UInt8)
    (guestLen : Nat) (entry : Entry) (core : Core σ) (exit : CodeExit) (core' : Core σ) (after : Core β) : Prop where
  retired : Retires plain bytes entry.pc exit.insns entry.pc (core.viewed view) exit.nextPc after
  progress : exit.insns = 0 → ∃ fault, exit.cause = .exception fault
  requested : exit.cause = .toInterpreter ↔ 0 < exit.insns ∧ leave after.device = true
  state : (∀ fault, exit.cause ≠ .exception fault) → core'.viewed view = after.atPc exit.nextPc
  fault : ∀ fault, exit.cause = .exception fault → ∃ insn stopped,
    Instruction.decode (bytes.drop (exit.nextPc - entry.pc).toNat) = .ok insn ∧
    execute plain insn exit.nextPc after = .ok (.error fault) stopped ∧
    core'.viewed view = stopped.atPc exit.nextPc ∧
    (stopped = after ∨ stopped.hart = { after.hart with mip := stopped.hart.mip } ∧
      plain.Refused ⟨after.hart.mip, after.device⟩ ⟨stopped.hart.mip, stopped.device⟩)
  interrupt : exit.cause = .interrupt → ∃ device, view device = after.device ∧
    bus.poll (after.atPc exit.nextPc).hart device = (true, core'.device)
  fallthrough : exit.cause = .fallthrough → exit.nextPc = entry.pc + BitVec.ofNat 64 guestLen ∨
    ∃ m pc before insn, exit.insns = m + 1 ∧ Retires plain bytes entry.pc m entry.pc (core.viewed view) pc before ∧
      Instruction.decode (bytes.drop (pc - entry.pc).toNat) = .ok insn ∧
      execute plain insn pc before = .ok (.ok (.jump exit.nextPc)) after
  chain : ∀ pa, exit.chain = some pa → exit.cause = .fallthrough ∧ exit.nextPc.page = entry.pc.page ∧
    pa = Page.base entry.pa + exit.nextPc.pageOffset

namespace ThreadedCode

variable {bus : CodeBus σ} {plain : Bus β} {view : σ → β} {leave : β → Bool} {bytes : List UInt8} {pageEnd : Nat}
  {body : Body} {entry : Entry} {core : Core σ}

-- Between instructions the shown state is the plain one, the hart's own pc apart, and no request to leave stands.
def Shown (plain : Bus β) (view : σ → β) (leave : β → Bool) (bytes : List UInt8) (entry : Entry) (start : Core σ)
    (n : Nat) (pc : Word) (core : Core σ) : Prop :=
  ∃ after own, Retires plain bytes entry.pc n entry.pc (start.viewed view) pc after ∧
    Core.Shadows (fun device shown => view device = shown) own core after ∧ (0 < n → leave after.device = false)

theorem viewed_atPc {own : Word} {after : Core β}
    (shadows : Core.Shadows (fun device shown => view device = shown) own core after) (pc : Word) :
    (core.atPc pc).viewed view = after.atPc pc := by
  cases after with
  | mk hart device =>
    obtain ⟨rfl, shown⟩ := shadows
    exact congrArg _ shown

theorem offset_toNat {o : Nat} (near : o < 65536) : (entry.pc + BitVec.ofNat 64 o - entry.pc).toNat = o := by
  rw [BitVec.add_comm, BitVec.add_sub_cancel, BitVec.toNat_ofNat]
  exact Nat.mod_eq_of_lt (by omega)

theorem Shown.attempt (quiet : bus.PollsQuietly plain view leave) (scanned : body.Scanned bytes pageEnd)
    (page : pageEnd ≤ 4096) {n k o : Nat} {pc : Word} {insn : Instruction} {start core' : Core σ}
    {answer : Except Fault Flow} (here : Shown plain view leave bytes entry start n pc core)
    (there : body.insns[k]? = some (o, insn)) (place : pc = entry.pc + BitVec.ofNat 64 o)
    (ran : execute bus.toBus insn pc core = .ok answer core') :
    ∃ after stopped own, Retires plain bytes entry.pc n entry.pc (start.viewed view) pc after ∧
      (0 < n → leave after.device = false) ∧
      Instruction.decode (bytes.drop (pc - entry.pc).toNat) = .ok insn ∧
      execute plain insn pc after = .ok answer stopped ∧
      Core.Shadows (fun device shown => view device = shown) own core' stopped := by
  obtain ⟨after, own, retired, shadows, stays⟩ := here
  have line := scanned.line k o insn there
  have near : o < 65536 := by
    have inside := (List.getElem?_eq_some_iff.mp there).1
    have bound := (scanned.offsets (k := k) (by omega)).2.1
    rw [Body.offsetAt_of there] at bound
    omega
  have decoded := line.decoded
  have legal := Instruction.decode_legal decoded
  obtain ⟨-, stopped, plainRan, shadows'⟩ :=
    (execute_matches quiet.access legal pc own core after shadows).answer ran
  refine ⟨after, stopped, own, retired, stays, ?_, plainRan, shadows'⟩
  rw [place, offset_toNat near]
  exact decoded

theorem shown_keeps (quiet : bus.PollsQuietly plain view leave) (scanned : body.Scanned bytes pageEnd)
    (page : pageEnd ≤ 4096) (start : Core σ) :
    Keeps bus body entry (Shown plain view leave bytes entry start) := by
  constructor
  · rintro n pc core device ⟨after, own, retired, shadows, stays⟩ polled
    refine ⟨after, own, retired, ⟨shadows.hart, ?_⟩, stays⟩
    have same := quiet.poll (core.atPc pc).hart core.device
    rw [polled] at same
    exact same.trans shadows.device
  · intro n k o insn core flow core' there here ran stay
    obtain ⟨after, stopped, own, retired, -, decoded, plainRan, shadows⟩ :=
      here.attempt quiet scanned page there rfl ran
    refine ⟨stopped, own, .more retired decoded plainRan, shadows, fun _ => ?_⟩
    rw [← shadows.device, ← quiet.leave, stay]

theorem not_requested {n : Nat} {after : Core β} {cause : ExitCause} (stays : 0 < n → leave after.device = false)
    (other : cause ≠ .toInterpreter) : cause = .toInterpreter ↔ 0 < n ∧ leave after.device = true := by
  refine ⟨fun same => absurd same other, fun ⟨begun, asked⟩ => ?_⟩
  rw [stays begun] at asked
  cases asked

theorem explained_of_left (quiet : bus.PollsQuietly plain view leave) (scanned : body.Scanned bytes pageEnd)
    (page : pageEnd ≤ 4096) {start core' : Core σ} {exit : CodeExit}
    (left : Left bus body entry (Shown plain view leave bytes entry start) exit core') :
    ∃ after, exit.Explained bus plain view leave bytes body.guestLen entry start core' after := by
  cases left with
  | fault here there place ran =>
    obtain ⟨after, stopped, own, retired, stays, decoded, plainRan, shadows⟩ :=
      here.attempt quiet scanned page there place ran
    refine ⟨after, retired, fun _ => ⟨_, rfl⟩, not_requested stays nofun, fun other => absurd rfl (other _), ?_, nofun,
      nofun, nofun⟩
    intro fault same
    cases same
    exact ⟨_, stopped, decoded, plainRan, viewed_atPc shadows _,
      ((execute_attempted plain _ _ after).answer plainRan).fault _ rfl⟩
  | request here there place ran asked =>
    obtain ⟨after, stopped, own, retired, -, decoded, plainRan, shadows⟩ :=
      here.attempt quiet scanned page there place ran
    have leaves : leave stopped.device = true := by rw [← shadows.device, ← quiet.leave, asked]
    exact ⟨stopped, .more retired decoded plainRan, nofun, ⟨fun _ => ⟨Nat.succ_pos _, leaves⟩, fun _ => rfl⟩,
      fun _ => viewed_atPc shadows _, nofun, nofun, nofun, nofun⟩
  | @interrupt n pc core device here begun pending =>
    obtain ⟨after, own, retired, shadows, stays⟩ := here
    have seen := viewed_atPc shadows pc
    have kept := quiet.poll (core.atPc pc).hart core.device
    rw [pending] at kept
    refine ⟨after, retired, fun zero => absurd zero (Nat.ne_of_gt begun), not_requested stays nofun, fun _ => ?_,
      nofun, fun _ => ?_, nofun, nofun⟩
    · exact (congrArg (Core.mk _) kept).trans seen
    · refine ⟨core.device, shadows.device, ?_⟩
      rw [← congrArg Core.hart seen]
      exact pending
  | bottom here begun place =>
    obtain ⟨after, own, retired, shadows, stays⟩ := here
    exact ⟨after, retired, fun zero => absurd zero (Nat.ne_of_gt begun), not_requested stays nofun,
      fun _ => viewed_atPc shadows _, nofun, nofun, fun _ => .inl place, fun pa known => ⟨rfl, chain_some known⟩⟩
  | jump here there place ran stay =>
    obtain ⟨after, stopped, own, retired, -, decoded, plainRan, shadows⟩ :=
      here.attempt quiet scanned page there place ran
    have stays : leave stopped.device = false := by rw [← shadows.device, ← quiet.leave, stay]
    refine ⟨stopped, .more retired decoded plainRan, nofun, not_requested (fun _ => stays) nofun,
      fun _ => viewed_atPc shadows _, nofun, nofun, fun _ => .inr ⟨_, _, after, _, rfl, retired, decoded, plainRan⟩, ?_⟩
    intro pa known
    dsimp only at known
    split at known
    · exact ⟨rfl, chain_some known⟩
    · cases known

end ThreadedCode

-- Compiled code is its guest code, whatever it was captured from, the intervals of its polls and the bound on its
-- length. An exit counts n instructions: reading the captured bytes one instruction after another from the entry leads in n
-- steps to the exit's address, with the state that the exit leaves. Only a faulting instruction adds to that state, by
-- what its refused access did. An exit before any instruction retired is a fault. A request to leave is honoured right
-- after the instruction that made it, and only then; an interrupt was found by the last poll; code that just ends does so
-- at the end of its body, or by a jump.
theorem compiled_exit_explained {poll interval maxInsns : Nat} {snapshot : Snapshot} {code : HostCode}
    (compiled : Compile.compile poll interval maxInsns snapshot = .ok (.ok code)) {bus : CodeBus σ} {plain : Bus β}
    {view : σ → β} {leave : β → Bool} (quiet : bus.PollsQuietly plain view leave) {fuel : Nat} {entry : Entry}
    {core core' : Core σ} {exit : CodeExit}
    (ran : ThreadedCode.run fuel code.code bus entry core = .ok exit core') :
    ∃ after, exit.Explained bus plain view leave snapshot.bytes code.guestLen entry core core' after := by
  have scanned := Body.scan_scanned snapshot maxInsns
  have page : Page.rest snapshot.entryPa ≤ 4096 := by
    unfold Page.rest
    omega
  rcases Compile.compile_laid poll interval maxInsns snapshot with ⟨filled, code', same, -, -, guestLen, laid⟩ | empty
  · rw [compiled] at same
    cases same
    have here : ThreadedCode.Shown plain view leave snapshot.bytes entry core 0 entry.pc core :=
      ⟨core.viewed view, core.hart.pc, .none, ⟨rfl, rfl⟩, fun zero => absurd zero (Nat.lt_irrefl 0)⟩
    have left := (ThreadedCode.run_left (ThreadedCode.shown_keeps quiet scanned page core) laid scanned page filled fuel
      here).answer ran
    rw [guestLen]
    exact ThreadedCode.explained_of_left quiet scanned page left
  · rw [compiled] at empty
    cases empty

def CodeBus.alarming : CodeBus Unit where
  load va _ := fun s => .ok (.error (.loadAccess va)) { s with lines := s.lines ||| 1 }
  store va _ _ := fun s => .ok (.error (.storeAccess va)) s
  poll _ device := (false, device)
  mustLeave _ := false

theorem countdown_exit_explained :
    ∃ code, Compile.compile 1 1 512 ⟨4092, 0, [0x7d, 0x14, 0x7d, 0xfc], ⟨⟨0, 0⟩, none⟩⟩ = .ok (.ok code) ∧
      ∃ exit core', exit = ⟨2, .fallthrough, none, 6, none⟩ ∧
        ThreadedCode.run 20 code.code .alarming ⟨0xfffffffffffffffe, 4094⟩
          ⟨{ Hart.reset with regs := (Vector.replicate 32 0).set 8 3 }, ()⟩ = .ok exit core' ∧
        ∃ after, exit.Explained .alarming CodeBus.alarming.toBus id CodeBus.alarming.mustLeave
          [0x7d, 0x14, 0x7d, 0xfc] code.guestLen ⟨0xfffffffffffffffe, 4094⟩
          ⟨{ Hart.reset with regs := (Vector.replicate 32 0).set 8 3 }, ()⟩ core' after := by
  have computed : ∃ code, Compile.compile 1 1 512 ⟨4092, 0, [0x7d, 0x14, 0x7d, 0xfc], ⟨⟨0, 0⟩, none⟩⟩ = .ok (.ok code) ∧
      ∃ exit core', ThreadedCode.run 20 code.code .alarming ⟨0xfffffffffffffffe, 4094⟩
        ⟨{ Hart.reset with regs := (Vector.replicate 32 0).set 8 3 }, ()⟩ = .ok exit core' ∧
      exit = ⟨2, .fallthrough, none, 6, none⟩ := by
    decide +kernel
  obtain ⟨code, compiled, exit, core', ran, same⟩ := computed
  exact ⟨code, compiled, exit, core', same, ran,
    compiled_exit_explained compiled (CodeBus.pollsQuietly_self fun _ _ => rfl) ran⟩

def loadAtEnd : Ram := ⟨0, ((List.replicate 4092 0 : List UInt8) ++ [0x83, 0x20, 0, 0]).toArray, by decide +kernel⟩

theorem loadAtEnd_captured : ∃ engine, Engine.setup {} loadAtEnd = .ok (.ok engine) ∧
    ∃ taken engine', Engine.capture ⟨4092, 0, none⟩ engine = .ok (.ok taken) engine' ∧
    taken = ⟨4092, 0, [0x83, 0x20, 0, 0], ⟨⟨0, 0⟩, none⟩⟩ := by
  decide +kernel

-- A fault that comes from the bus shows: here it leaves a line raised that no retired instruction raised. So the state of
-- an exit cannot be told from the retired instructions alone, even for code that was just captured from memory.
theorem fault_exit_beyond_retired : ¬ ∀ (config : Config) (ram : Ram) (engine engine' : Engine)
    (request : CompileRequest) (taken : Snapshot) (code : HostCode) (fuel : Nat) (entry : Entry) (core core' : Core Unit)
    (exit : CodeExit),
    Engine.setup config ram = .ok (.ok engine) → Engine.capture request engine = .ok (.ok taken) engine' →
    Compile.compile config.safepointInterval config.safepointInterval config.maxBlockInsns taken = .ok (.ok code) →
    ThreadedCode.run fuel code.code .alarming entry core = .ok exit core' →
    ∃ after, Retires CodeBus.alarming.toBus taken.bytes entry.pc exit.insns entry.pc core exit.nextPc after ∧
      core' = after.atPc exit.nextPc := by
  intro all
  obtain ⟨engine, built, _, engine', captured, rfl⟩ := loadAtEnd_captured
  obtain ⟨after, retired, same⟩ := all {} loadAtEnd _ _ ⟨4092, 0, none⟩ _ _ 1 ⟨0, 4092⟩ ⟨.reset, ()⟩
    ⟨{ Hart.reset with mip := 1 }, ()⟩ ⟨0, .exception (.loadAccess 0), none, 0, none⟩ built captured rfl rfl
  cases retired
  exact absurd (congrArg (fun core => core.hart.mip) same) (by decide)

end TieredHart
