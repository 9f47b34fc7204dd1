import TieredHart.Proofs.HartLaws
import TieredHart.Proofs.Refinement

namespace TieredHart

variable {σ α β τ : Type} {space : AddressSpace} {pa : Nat}

namespace ThreadedCode

open Compile (startAt insnAt guarded labelAt Laid)

def shownAt (code : Array UInt8) (entry : Entry) (cursor : Cursor) (core : Core σ) : List (Core σ) :=
  core :: ((MicroOp.decode? code cursor.index).map fun micro =>
    core.atPc (entry.pc + BitVec.ofNat 64 micro.pcOffset.toNat)).toList

def statesFrom (code : Array UInt8) (bus : CodeBus σ) (entry : Entry) : Nat → Cursor → Core σ → List (Core σ)
  | 0, cursor, core => shownAt code entry cursor core
  | fuel + 1, cursor, core => shownAt code entry cursor core ++
    thereafter (step code bus entry cursor) core fun progress after =>
      match progress with
      | .further next => statesFrom code bus entry fuel next after
      | .left _ => [after]

variable {code : Array UInt8} {poll interval pageEnd k : Nat} {body : Body} {bytes : List UInt8} {bus : CodeBus σ}
  {entry : Entry} {fact : Nat → Word → Core σ → Prop} {core : Core σ} {cursor : Cursor}

-- What is kept between instructions, and follows from how a block is left, is true of every state it goes through.
theorem statesFrom_kept (keeps : Keeps bus body entry fact) (laid : Laid code poll interval body)
    (scanned : body.Scanned bytes pageEnd) (page : pageEnd ≤ 4096) (filled : body.insns ≠ []) (shown : Core σ → Prop)
    (between : ∀ n pc core, fact n pc core → shown core ∧ shown (core.atPc pc))
    (leaving : ∀ exit core, Left bus body entry fact exit core → shown core) (fuel : Nat)
    (ready : Ready interval body k cursor)
    (here : fact cursor.insns (entry.pc + BitVec.ofNat 64 (body.offsetAt k)) core) :
    ∀ state ∈ statesFrom code bus entry fuel cursor core, shown state := by
  have now : ∀ {k cursor core}, Ready interval body k cursor →
      fact cursor.insns (entry.pc + BitVec.ofNat 64 (body.offsetAt k)) core →
      ∀ state ∈ shownAt code entry cursor core, shown state := by
    intro k cursor core ready here
    obtain ⟨raw, placed⟩ := between _ _ _ here
    refine List.forall_mem_cons.mpr ⟨raw, fun state member => ?_⟩
    obtain ⟨micro, there, rfl⟩ := Option.map_eq_some_iff.mp (Option.mem_toList.mp member)
    obtain ⟨_, record, offset, -⟩ := ready.record laid scanned page
    cases record.symm.trans there
    rw [offset]
    exact placed
  induction fuel generalizing cursor core k with
  | zero => exact now ready here
  | succ fuel ih =>
    intro state member
    rcases List.mem_append.mp member with first | rest
    · exact now ready here state first
    · refine (step_steps keeps laid scanned page filled ready here).thereafter ?_ state rest
      intro progress after reached
      cases progress with
      | further next =>
        obtain ⟨k', ready', here'⟩ := reached
        exact ih ready' here'
      | left exit => exact List.forall_mem_singleton.mpr (leaving exit _ reached)

end ThreadedCode

def Step.Ordinary : Step → Prop
  | .next _ => True
  | .fault raised => raised.Ordinary

namespace LegalCode

open ThreadedCode (Keeps Left)

variable {bus : CodeBus σ} {taken : Snapshot} {maxInsns : Nat} {entry : Entry}

def Before (_ : Nat) (pc : Word) (core : Core σ) : Prop := core.hart.Legal ∧ pc.toNat % 2 = 0

theorem attempted (ordinary : bus.toBus.Ordinary) {n k o : Nat} {pc : Word} {insn : Instruction} {core core' : Core σ}
    {answer : Except Fault Flow} (there : (Body.scan taken maxInsns).insns[k]? = some (o, insn)) (here : Before n pc core)
    (ran : execute bus.toBus insn pc core = .ok answer core') : Orderly pc insn.len answer core' := by
  have decoded := Instruction.decode_legal ((Body.scan_scanned taken maxInsns).line k o insn there).decoded
  exact (execute_orderly ordinary decoded here.1 here.2).answer ran

theorem keeps (ordinary : bus.toBus.Ordinary) : Keeps bus (Body.scan taken maxInsns) entry Before := by
  constructor
  · intro n pc core device here polled
    exact ⟨here.1.moved rfl here.2 rfl rfl rfl, here.2⟩
  · intro n k o insn core flow core' there here ran stays
    have orderly := attempted ordinary there here ran
    exact ⟨orderly.hart, orderly.leads flow rfl⟩

theorem left (ordinary : bus.toBus.Ordinary) {exit : CodeExit} {after : Core σ}
    (left : Left bus (Body.scan taken maxInsns) entry Before exit after) : after.hart.Legal ∧ exit.outcome.Ordinary := by
  cases left with
  | fault here there place ran =>
    have orderly := attempted ordinary there here ran
    exact ⟨orderly.hart.moved rfl here.2 rfl rfl rfl, orderly.ordinary⟩
  | request here there place ran asked =>
    have orderly := attempted ordinary there here ran
    exact ⟨orderly.hart.moved rfl (orderly.leads _ rfl) rfl rfl rfl, trivial⟩
  | interrupt here begun pending => exact ⟨here.1.moved rfl here.2 rfl rfl rfl, trivial⟩
  | bottom here begun place => exact ⟨here.1.moved rfl here.2 rfl rfl rfl, trivial⟩
  | jump here there place ran stays =>
    have orderly := attempted ordinary there here ran
    exact ⟨orderly.hart.moved rfl (orderly.leads _ rfl) rfl rfl rfl, trivial⟩

end LegalCode

structure Core.Within (start core : Core Engine) : Prop where
  hart : core.hart.Legal
  traps : core.device.cache.traps = start.device.cache.traps

namespace Core.Within

variable {start middle core : Core Engine}

theorem refl (legal : core.hart.Legal) : core.Within core := ⟨legal, rfl⟩

theorem trans (first : start.Within middle) (second : middle.Within core) : start.Within core :=
  ⟨second.hart, second.traps.trans first.traps⟩

end Core.Within

namespace LoopM

variable {start core : Core Engine} {block : Block} {code : Array UInt8} {taken : Snapshot} {maxInsns : Nat}

structure Runs (core : Core Engine) (action : LoopM Step) (states : List (Core Engine)) : Prop where
  passes : ∀ state ∈ states, core.Within state
  ends : Ends action core (fun step after => after.hart.Legal ∧ step.Ordinary) fun _ _ => True

theorem Runs.get {next : Core Engine → LoopM Step} {states : List (Core Engine)} (runs : Runs core (next core) states) :
    Runs core (MonadState.get >>= next) states := by
  refine ⟨runs.passes, ?_⟩
  rw [ends_bind, ends_get]
  exact runs.ends

theorem Runs.onEngine {action : EngineM α} {next : α → LoopM Step} {states : α → Core Engine → List (Core Engine)}
    (first : Ends action core.device (fun a engine => core.device.Quiet engine ∧
      Runs ⟨core.hart, engine⟩ (next a) (states a ⟨core.hart, engine⟩)) fun _ _ => True) :
    Runs core (LoopM.onEngine action >>= next) (thereafter (LoopM.onEngine action) core states) := by
  have both : Ends (LoopM.onEngine action) core (fun a after => core.device.Quiet after.device ∧
      Runs after (next a) (states a after)) fun _ _ => True := by
    rw [ends_onEngine]
    exact first
  constructor
  · refine both.thereafter ?_
    rintro a after ⟨quiet, runs⟩ state member
    have within := runs.passes state member
    exact ⟨within.hart, within.traps.trans quiet.traps⟩
  · rw [ends_bind]
    exact both.weaken fun _ _ later => later.2.ends

def compiledStates (fuel : Nat) (space : AddressSpace) (block : Block) (pa : Nat) (core : Core Engine) :
    List (Core Engine) :=
  let engine := { core.device with cache := core.device.cache.markUsed block.id }
  match engine.cache.code block with
  | .ok code =>
    (ThreadedCode.statesFrom code (DataSide.codeBus space (Page.frame pa) block.stamp.frames) ⟨core.hart.pc, pa⟩ fuel
      ⟨0, 0, 0⟩ ⟨core.hart, ⟨engine, false⟩⟩).map fun side => ⟨side.hart, side.device.engine⟩
  | .error _ => []

theorem compiledStates_within (granular : space.Granular) (fuel : Nat)
    (ready : block.Ready space start pa code taken maxInsns) (legal : start.hart.Legal) :
    ∀ state ∈ compiledStates fuel space block pa start, start.Within state := by
  obtain ⟨hart, engine⟩ := start
  have marked := ready.used block.id
  have used := ready.sound.used block.id
  have scanned := Body.scan_scanned taken maxInsns
  have ordinary := DataSide.codeBus_ordinary space (Page.frame pa) block.stamp.frames
  obtain ⟨poll, interval, laid⟩ := marked.built.laid
  have held : (engine.cache.markUsed block.id).code block = .ok code := marked.built.held
  unfold compiledStates
  dsimp only
  rw [held]
  intro state member
  obtain ⟨side, passed, rfl⟩ := List.mem_map.mp member
  refine ThreadedCode.statesFrom_kept ((marked.keeps granular).and (LegalCode.keeps ordinary)) laid scanned (Nat.sub_le ..)
    marked.built.filled (fun side => Core.Within ⟨hart, engine⟩ ⟨side.hart, side.device.engine⟩) ?_ ?_ fuel .first ?_
    side passed
  · rintro n pc core ⟨midway, here⟩
    have untrapped := midway.serves.onward.traps.trans used.traps
    exact ⟨⟨here.1, untrapped⟩, here.1.moved rfl here.2 rfl rfl rfl, untrapped⟩
  · intro exit core left
    obtain ⟨-, ran⟩ := marked.left granular (left.mono fun _ _ _ both => both.1)
    have kept := LegalCode.left ordinary (left.mono fun _ _ _ both => both.2)
    exact ⟨kept.1, ran.onward.traps.trans used.traps⟩
  · rw [scanned.start, BitVec.add_zero]
    exact ⟨⟨rfl, ⟨.refl used.sound, rfl, fun _ _ _ => rfl⟩, fun _ => .refl⟩, legal, legal.pc⟩

theorem runCompiled_legal (fuel : Nat) (ready : block.Ready space start pa code taken maxInsns)
    (legal : start.hart.Legal) : Ends (runCompiled fuel space block pa) start
      (fun step after => after.hart.Legal ∧ step.Ordinary) fun _ _ => True := by
  obtain ⟨hart, engine⟩ := start
  have marked := ready.used block.id
  have scanned := Body.scan_scanned taken maxInsns
  have ordinary := DataSide.codeBus_ordinary space (Page.frame pa) block.stamp.frames
  obtain ⟨poll, interval, laid⟩ := marked.built.laid
  unfold runCompiled
  rw [ends_bind, ends_onEngine, ends_modify, ends_bind, ends_get, ends_bind, marked.built.held, ends_ofExcept_ok, ends_bind,
    ends_onDataSide]
  refine (ThreadedCode.run_left (LegalCode.keeps ordinary) laid scanned (Nat.sub_le ..) marked.built.filled fuel ?_).mono
    ?_ fun _ _ _ => trivial
  · exact ⟨legal, legal.pc⟩
  · intro exit after left
    obtain ⟨kept, raised⟩ := LegalCode.left ordinary left
    have placed : Core.atPc ⟨after.hart, after.device.engine⟩ exit.nextPc = ⟨after.hart, after.device.engine⟩ := by
      rw [← left.pc]
      rfl
    rw [ends_bind, ends_setPc, placed, ends_bind, ends_onEngine]
    refine .intro ?_ fun _ _ _ => trivial
    intro _ tallied _
    unfold CodeExit.outcome at raised
    cases named : exit.cause <;> rw [named] at raised <;> exact ⟨kept, raised⟩

theorem executeOne_orderly {insn : Instruction} (decoded : insn.Legal) (legal : core.hart.Legal) (frame : Nat) :
    Ends (executeOne space frame insn core.hart.pc) core (fun answer after => Orderly core.hart.pc insn.len answer after)
      fun _ _ => True := by
  have ordinary := DataSide.codeBus_ordinary space frame []
  refine (executeOne_executes space frame insn core.hart.pc core).mono (fun answer after executes => ?_) fun _ _ _ => trivial
  cases executes with
  | quiet ran | reported _ ran =>
    have orderly := (execute_orderly ordinary decoded legal legal.pc).answer ran
    exact ⟨orderly.hart, orderly.leads, orderly.ordinary⟩

def Passed (after : Core Engine) : Interpreted → Prop
  | .over _ step => step.Ordinary
  | .further next _ => after.hart.pc = next

theorem interpretOne_legal (legal : core.hart.Legal) (frame pa n : Nat) :
    Ends (interpretOne space frame core.hart.pc pa n) core (fun answer after => after.hart.Legal ∧ Passed after answer)
      fun _ _ => True := by
  have lawful := Engine.fetchInsn_lawful space core.hart.pc pa (n = 0) core.device
  have executed : ∀ {insn : Instruction} {engine}, insn.Legal →
      Ends (executeOne space frame insn core.hart.pc) ⟨core.hart, engine⟩
        (fun answer after => Orderly core.hart.pc insn.len answer after) fun _ _ => True := by
    intro insn engine decoded
    have here : (⟨core.hart, engine⟩ : Core Engine).hart.Legal := legal
    exact executeOne_orderly decoded here frame
  refine (interpretOne_interprets space frame core.hart.pc pa n core).mono (fun answer after one => ?_) fun _ _ _ => trivial
  cases one with
  | unfetched fetched => exact ⟨legal, lawful.answer fetched⟩
  | stopped => exact ⟨legal, trivial⟩
  | faulted fetched ran =>
    have orderly := (executed (lawful.answer fetched)).answer ran
    exact ⟨orderly.hart, orderly.ordinary⟩
  | last fetched ran =>
    have orderly := (executed (lawful.answer fetched)).answer ran
    exact ⟨orderly.hart.moved rfl (orderly.leads _ rfl) rfl rfl rfl, trivial⟩
  | inner fetched ran =>
    have orderly := (executed (lawful.answer fetched)).answer ran
    exact ⟨orderly.hart.moved rfl (orderly.leads _ rfl) rfl rfl rfl, rfl⟩

theorem Interprets.legal {frame more n : Nat} {pc : Word} {answer : Nat × Step} {after : Core Engine}
    (interprets : Interprets space frame more pc pa n core answer after) :
    core.hart.Legal → core.hart.pc = pc → after.hart.Legal ∧ answer.2.Ordinary := by
  induction interprets with
  | ended one =>
    rintro legal rfl
    exact (interpretOne_legal legal frame _ _).answer one
  | full one | beyond one =>
    rintro legal rfl
    exact ⟨((interpretOne_legal legal frame _ _).answer one).1, trivial⟩
  | onward one _ _ _ ih =>
    rintro legal rfl
    obtain ⟨kept, moved⟩ := (interpretOne_legal legal frame _ _).answer one
    exact ih kept moved

theorem interpretFrom_legal (legal : core.hart.Legal) (frame more pa n : Nat) :
    Ends (interpretFrom space frame more core.hart.pc pa n) core
      (fun answer after => after.hart.Legal ∧ answer.2.Ordinary) fun _ _ => True :=
  (interpretFrom_interprets space frame more core.hart.pc pa n core).mono
    (fun _ _ interprets => interprets.legal legal rfl) fun _ _ _ => trivial

def statesFrom (space : AddressSpace) (frame : Nat) : Nat → Word → Nat → Nat → Core Engine → List (Core Engine)
  | 0, pc, pa, n, core => core :: thereafter (interpretOne space frame pc pa n) core fun _ after => [after]
  | more + 1, pc, pa, n, core => core :: thereafter (interpretOne space frame pc pa n) core fun answer after =>
    match answer with
    | .over .. => [after]
    | .further next len =>
      match checkedAdd pa len with
      | .ok pa => if Page.frame pa ≠ frame then [after] else statesFrom space frame more next pa (n + 1) after
      | .error _ => [after]

def interpretedStates (space : AddressSpace) (pa : Nat) (core : Core Engine) : List (Core Engine) :=
  statesFrom space (Page.frame pa) (core.device.config.maxBlockInsns - 1) core.hart.pc pa 0 core

theorem interpretOne_within (granular : space.Granular) (sound : core.device.Sound) (leads : space.Leads core.hart.pc pa)
    (legal : core.hart.Legal) (frame n : Nat) :
    Ends (interpretOne space frame core.hart.pc pa n) core
      (fun answer after => core.Within after ∧ answer.Explained space core pa after) fun _ _ => True := by
  refine .intro (fun answer after ran => ?_) fun _ _ _ => trivial
  have explained := (interpretOne_explained granular sound leads frame n).answer ran
  obtain ⟨kept, -⟩ := (interpretOne_legal legal frame pa n).answer ran
  rcases answer with ⟨insns, step⟩ | ⟨next, len⟩
  · exact ⟨⟨kept, explained.onward.traps⟩, explained⟩
  · exact ⟨⟨kept, explained.onward.traps⟩, explained⟩

theorem statesFrom_within (granular : space.Granular) {frame more : Nat} (n : Nat) (sound : core.device.Sound)
    (leads : space.Leads core.hart.pc pa) (onFrame : Page.frame pa = frame) (legal : core.hart.Legal) :
    ∀ state ∈ statesFrom space frame more core.hart.pc pa n core, core.Within state := by
  induction more generalizing core pa n with
  | zero =>
    refine List.forall_mem_cons.mpr ⟨.refl legal, ?_⟩
    refine (interpretOne_within granular sound leads legal frame n).thereafter ?_
    exact fun _ _ passed => List.forall_mem_singleton.mpr passed.1
  | succ more ih =>
    refine List.forall_mem_cons.mpr ⟨.refl legal, ?_⟩
    refine (interpretOne_within granular sound leads legal frame n).thereafter ?_
    rintro (⟨insns, step⟩ | ⟨next, len⟩) after ⟨within, explained⟩
    · exact List.forall_mem_singleton.mpr within
    · obtain ⟨onward, -, rfl, straight, even, -⟩ := explained
      dsimp only
      split
      · rename_i pa' added
        cases checkedAdd_ok added
        by_cases same : Page.frame (pa + len) = frame
        · have leads' := leads.next granular even (same.trans onFrame.symm)
          rw [← straight] at leads'
          rw [if_neg (fun other => other same)]
          exact fun state member => within.trans (ih (n + 1) onward.sound leads' same within.hart state member)
        · rw [if_pos same]
          exact List.forall_mem_singleton.mpr within
      · exact List.forall_mem_singleton.mpr within

theorem runCompiled_runs (granular : space.Granular) (fuel : Nat)
    (ready : block.Ready space start pa code taken maxInsns) (legal : start.hart.Legal) :
    Runs start (runCompiled fuel space block pa) (compiledStates fuel space block pa start) :=
  ⟨compiledStates_within granular fuel ready legal, runCompiled_legal fuel ready legal⟩

theorem runInterpreted_runs (core : Core Engine) (granular : space.Granular) (sound : core.device.Sound)
    (leads : space.Leads core.hart.pc pa) (legal : core.hart.Legal) :
    Runs core (runInterpreted space pa) (interpretedStates space pa core) := by
  refine ⟨statesFrom_within granular 0 sound leads rfl legal, ?_⟩
  unfold runInterpreted
  rw [ends_bind, ends_get, ends_bind]
  refine (interpretFrom_legal legal _ _ pa 0).weaken ?_
  exact fun _ _ kept => kept

def dispatchStates (fuel : Nat) (space : AddressSpace) (pc : Word) (pa : Nat) (core : Core Engine) : List (Core Engine) :=
  thereafter (onEngine (Engine.enterFrame (Page.frame pa))) core fun _ core =>
    if core.device.cache.frames.state (Page.frame pa) = .smcDetected then
      thereafter (onEngine (Engine.count fun counts => { counts with forcedInterp := counts.forcedInterp + 1 })) core
        fun _ core => interpretedStates space pa core
    else
      thereafter (onEngine (Engine.usableBlock space pc pa)) core fun found core =>
        match found with
        | some block => compiledStates fuel space block pa core
        | none => thereafter (onEngine (Engine.miss space pc pa)) core fun _ core => interpretedStates space pa core

theorem enterBlock_runs (core : Core Engine) (granular : space.Granular) (fuel : Nat) (sound : core.device.Sound)
    (leads : space.Leads core.hart.pc pa) (legal : core.hart.Legal) :
    Runs core (enterBlock fuel space core.hart.pc pa) (dispatchStates fuel space core.hart.pc pa core) := by
  have interpreted : ∀ {engine : Engine}, engine.Sound →
      Runs ⟨core.hart, engine⟩ (runInterpreted space pa) (interpretedStates space pa ⟨core.hart, engine⟩) :=
    fun sound => runInterpreted_runs ⟨core.hart, _⟩ granular sound leads legal
  refine .onEngine ((Engine.enterFrame_quiet sound (Page.frame pa)).mono ?_ fun _ _ _ => trivial)
  intro _ entered quiet
  refine ⟨quiet, .get ?_⟩
  dsimp only
  split
  · have counted := quiet.sound.counted fun counts => { counts with forcedInterp := counts.forcedInterp + 1 }
    exact .onEngine ⟨counted, interpreted counted.sound⟩
  · refine .onEngine ((Engine.usableBlock_ready quiet.sound leads).mono ?_ fun _ _ _ => trivial)
    rintro found looked ⟨settled, usable⟩
    refine ⟨settled, ?_⟩
    cases found with
    | some block =>
      obtain ⟨code, taken, maxInsns, ready⟩ := usable block rfl
      exact runCompiled_runs granular fuel ready legal
    | none =>
      refine .onEngine ((Engine.miss_quiet granular settled.sound core.hart.pc pa).mono ?_ fun _ _ _ => trivial)
      exact fun _ _ missed => ⟨missed, interpreted missed.sound⟩

def nextStates (fuel : Nat) (space : AddressSpace) (chain : Option Nat) (core : Core Engine) : List (Core Engine) :=
  match chain with
  | some pa =>
    thereafter (onEngine (Engine.count fun counts => { counts with chained := counts.chained + 1 })) core
      fun _ counted => dispatchStates fuel space core.hart.pc pa counted
  | none =>
    if core.hart.pc.toNat % 2 = 1 then []
    else
      match space .fetch core.hart.pc with
      | some location => dispatchStates fuel space core.hart.pc location.pa core
      | none => []

theorem runNext_runs (granular : space.Granular) (fuel : Nat) (sound : core.device.Sound) {chain : Option Nat}
    (known : ∀ pa, chain = some pa → space.Leads core.hart.pc pa) (legal : core.hart.Legal) :
    Runs core (runNext fuel space chain) (nextStates fuel space chain core) := by
  refine .get ?_
  unfold nextStates
  cases chain with
  | some pa =>
    have counted := sound.counted fun counts => { counts with chained := counts.chained + 1 }
    exact .onEngine ⟨counted, enterBlock_runs ⟨core.hart, _⟩ granular fuel counted.sound (known pa rfl) legal⟩
  | none =>
    have even := legal.pc
    dsimp only
    rw [if_neg (by omega), if_neg (by omega)]
    cases found : space .fetch core.hart.pc with
    | some place => exact enterBlock_runs core granular fuel sound ⟨even, place, found, rfl⟩ legal
    | none => exact ⟨fun _ absent => absurd absent List.not_mem_nil, legal, PageFault.fault_ordinary ⟨core.hart.pc, .fetch⟩⟩

theorem runNext_within (core : Core Engine) (granular : space.Granular) (fuel : Nat) (sound : core.device.Sound)
    {chain : Option Nat} (known : ∀ pa, chain = some pa → space.Leads core.hart.pc pa) (legal : core.hart.Legal) :
    Ends (runNext fuel space chain) core (fun step after => core.Within after ∧ step.Ordinary) fun _ _ => True := by
  refine .intro (fun step after ran => ?_) fun _ _ _ => trivial
  obtain ⟨kept, ordinary⟩ := (runNext_runs granular fuel sound known legal).ends.answer ran
  have onward := ((runNext_ran granular fuel sound known).answer ran).onward
  exact ⟨⟨kept, onward.traps⟩, ordinary⟩

end LoopM

def Trap.Ordinary (trap : Trap) : Prop := ∀ va, trap ≠ .exception (.instructionMisaligned va)

def RunEnd.Ordinary (reason : RunEnd) : Prop := ∀ va, reason ≠ .halted (.exception (.instructionMisaligned va))

theorem Fault.Ordinary.trap {fault : Fault} (ordinary : fault.Ordinary) : (Trap.exception fault).Ordinary := by
  intro va same
  cases same
  exact ordinary

theorem Trap.Ordinary.halted {trap : Trap} (ordinary : trap.Ordinary) : (RunEnd.halted trap).Ordinary := by
  intro va same
  cases same
  exact ordinary va rfl

theorem Trap.interrupt_ordinary (code : Nat) : (Trap.interrupt code).Ordinary := by
  intro va same
  cases same

theorem RunEnd.blockLimit_ordinary : RunEnd.blockLimit.Ordinary := by
  intro va same
  cases same

def TrapHandler.Lawful (handler : TrapHandler τ) : Prop :=
  ∀ trap hart memory reply after kept, hart.Legal → handler.handle trap hart memory = .ok (reply, after, kept) → after.Legal

theorem TrapHandler.machine_lawful : machine.Lawful := by
  intro trap hart memory reply after kept legal handled
  cases handled
  exact legal.enterTrap trap

-- A place of a run: the registers are legal, and of the traps taken since the run began none was for an odd pc.
structure Core.Lawful (start core : Core Engine) : Prop where
  hart : core.hart.Legal
  raised : ∃ traps, core.device.cache.traps = start.device.cache.traps ++ traps ∧ ∀ taken ∈ traps, Trap.Ordinary taken.1

namespace Core.Lawful

variable {start core state : Core Engine}

theorem begin (legal : core.hart.Legal) : core.Lawful core := ⟨legal, [], by simp⟩

theorem within (lawful : start.Lawful core) (within : core.Within state) : start.Lawful state := by
  obtain ⟨traps, taken, ordinary⟩ := lawful.raised
  exact ⟨within.hart, traps, within.traps.trans taken, ordinary⟩

theorem trapped {engine : Engine} {hart hart' : Hart} (lawful : start.Lawful ⟨hart, engine⟩) (legal : hart'.Legal)
    {trap : Trap} (ordinary : trap.Ordinary) (pc : Word) :
    start.Lawful ⟨hart', { engine with cache := engine.cache.report (.trapped trap pc) }⟩ := by
  obtain ⟨traps, taken, before⟩ := lawful.raised
  refine ⟨legal, traps ++ [(trap, pc)], ?_, ?_⟩
  · rw [Cache.traps_report, taken, List.append_assoc]
    rfl
  · intro other member
    rcases List.mem_append.mp member with old | new
    · exact before other old
    · obtain rfl := List.mem_singleton.mp new
      exact ordinary

end Core.Lawful

namespace LoopM

variable {start core : Core Engine} {handler : TrapHandler τ} {memory : τ} {chain : Option Nat}
  {fuel : Nat}

def Turned (start : Core Engine) (turn : Turn τ) (core : Core Engine) : Prop :=
  start.Lawful core ∧ ∀ reason memory, turn = .ended reason memory → reason.Ordinary

theorem raise_lawful (keeps : handler.Lawful) (lawful : start.Lawful core) {trap : Trap} (ordinary : trap.Ordinary) :
    Ends (raise handler trap memory) core (fun _ after => start.Lawful after) fun _ _ => True := by
  refine ends_raise ?_ fun _ _ _ => trivial
  intro reply hart kept handled
  exact lawful.trapped (keeps _ _ _ _ _ _ lawful.hart handled) ordinary _

theorem answered_turned {trap : Trap} (ordinary : trap.Ordinary) {answer : TrapReply × τ} (lawful : start.Lawful core) :
    Ends (match answer with
      | (.resume, kept) => pure (.again none kept)
      | (.halt, kept) => pure (.ended (.halted trap) kept) : LoopM (Turn τ)) core (Turned start) fun _ _ => True := by
  obtain ⟨reply, kept⟩ := answer
  cases reply with
  | resume => exact ⟨lawful, nofun⟩
  | halt =>
    refine ⟨lawful, ?_⟩
    intro reason memory same
    cases same
    exact ordinary.halted

theorem settle_turned (keeps : handler.Lawful) (lawful : start.Lawful core) {step : Step} (ordinary : step.Ordinary) :
    Ends (settle handler step memory) core (Turned start) fun _ _ => True := by
  unfold settle
  cases step with
  | next chain => exact ⟨lawful, nofun⟩
  | fault raised =>
    have plain : (Trap.exception raised).Ordinary := Fault.Ordinary.trap ordinary
    have counted : start.Lawful ⟨core.hart, { core.device with
        counts := { core.device.counts with exceptions := core.device.counts.exceptions + 1 } }⟩ :=
      lawful.within ⟨lawful.hart, rfl⟩
    dsimp only
    rw [ends_bind, ends_onEngine]
    show Ends (raise _ _ _ >>= _) ⟨core.hart, _⟩ _ _
    rw [ends_bind]
    exact (raise_lawful keeps counted plain).weaken fun _ _ lawful => answered_turned plain lawful

theorem takeInterrupt_turned (keeps : handler.Lawful) (lawful : start.Lawful core) :
    Ends (takeInterrupt handler chain memory) core (Turned start) fun _ _ => True := by
  unfold takeInterrupt
  rw [ends_bind, ends_get]
  cases core.hart.interruptToTake with
  | none => exact ⟨lawful, nofun⟩
  | some code =>
    have counted : start.Lawful ⟨core.hart, { core.device with
        counts := { core.device.counts with interrupts := core.device.counts.interrupts + 1 } }⟩ :=
      lawful.within ⟨lawful.hart, rfl⟩
    dsimp only
    rw [ends_bind, ends_onEngine]
    show Ends (raise _ _ _ >>= _) ⟨core.hart, _⟩ _ _
    rw [ends_bind]
    refine (raise_lawful keeps counted (Trap.interrupt_ordinary code)).weaken ?_
    exact fun _ _ lawful => answered_turned (Trap.interrupt_ordinary code) lawful

def turnStates (fuel : Nat) (space : AddressSpace) (handler : TrapHandler τ) (chain : Option Nat) (memory : τ)
    (core : Core Engine) : List (Core Engine) :=
  thereafter (onEngine Engine.refreshShortcuts) core fun _ core =>
    nextStates fuel space chain core ++ thereafter (runNext fuel space chain) core fun step core =>
      core :: thereafter (settle handler step memory) core fun turn core =>
        core :: match turn with
          | .again chain memory => thereafter (takeInterrupt handler chain memory) core fun _ core => [core]
          | .ended .. => []

def runStates (space : AddressSpace) (handler : TrapHandler τ) (limit : Option Nat) :
    Nat → Nat → Option Nat → τ → Core Engine → List (Core Engine)
  | 0, _, _, _, core => [core]
  | fuel + 1, blocks, chain, memory, core =>
    if limit.any (· ≤ blocks) then [core]
    else core :: turnStates fuel space handler chain memory core ++
      thereafter (turn fuel space handler chain memory) core fun turn core =>
        match turn with
        | .again chain memory => runStates space handler limit fuel (blocks + 1) chain memory core
        | .ended .. => []

theorem turnStates_lawful (keeps : handler.Lawful) (granular : space.Granular) (fuel : Nat) (sound : core.device.Sound)
    (known : ∀ pa, chain = some pa → space.Leads core.hart.pc pa) (lawful : start.Lawful core) :
    ∀ state ∈ turnStates fuel space handler chain memory core, start.Lawful state := by
  have refreshed : Ends (onEngine Engine.refreshShortcuts) core
      (fun _ after => after.hart = core.hart ∧ core.device.Quiet after.device) fun _ _ => False := by
    rw [ends_onEngine]
    exact (Engine.refreshShortcuts_quiet sound).weaken fun _ _ quiet => ⟨rfl, quiet⟩
  refine refreshed.thereafter ?_
  rintro _ ⟨hart, engine⟩ ⟨rfl, quiet⟩
  have fresh : start.Lawful ⟨core.hart, engine⟩ := lawful.within ⟨lawful.hart, quiet.traps⟩
  refine List.forall_mem_append.mpr ⟨?_, ?_⟩
  · exact fun state member => fresh.within ((runNext_runs granular fuel quiet.sound known fresh.hart).passes state member)
  · refine (runNext_within ⟨core.hart, engine⟩ granular fuel quiet.sound known fresh.hart).thereafter ?_
    rintro step after ⟨within, ordinary⟩
    have left := fresh.within within
    refine List.forall_mem_cons.mpr ⟨left, ?_⟩
    refine (settle_turned keeps left ordinary).thereafter ?_
    rintro turn final ⟨settled, -⟩
    refine List.forall_mem_cons.mpr ⟨settled, ?_⟩
    cases turn with
    | ended reason kept => exact fun _ absent => absurd absent List.not_mem_nil
    | again chain kept =>
      refine (takeInterrupt_turned keeps settled).thereafter ?_
      exact fun _ _ turned => List.forall_mem_singleton.mpr turned.1

theorem turn_last {answer : Turn τ} {after : Core Engine}
    (ran : turn fuel space handler chain memory core = .ok answer after) :
    after ∈ turnStates fuel space handler chain memory core := by
  obtain ⟨_, fresh, refreshing, ran⟩ := EStateM.bind_eq_ok ran
  obtain ⟨step, left, running, ran⟩ := EStateM.bind_eq_ok ran
  obtain ⟨settled, final, settling, ran⟩ := EStateM.bind_eq_ok ran
  unfold turnStates
  rw [thereafter_ok refreshing, thereafter_ok running, thereafter_ok settling]
  refine List.mem_append_right _ (List.mem_cons_of_mem _ ?_)
  cases settled with
  | ended reason kept =>
    cases ran
    exact List.mem_cons_self ..
  | again chain kept =>
    dsimp only at ran ⊢
    rw [thereafter_ok ran]
    exact List.mem_cons_of_mem _ (List.mem_singleton_self _)

theorem runFrom_last {limit : Option Nat} {answer : RunEnd × τ} {after : Core Engine} {blocks : Nat}
    (ran : runFrom space handler limit fuel blocks chain memory core = .ok answer after) :
    after ∈ runStates space handler limit fuel blocks chain memory core := by
  induction fuel generalizing core chain memory blocks with
  | zero =>
    unfold runFrom at ran
    split at ran <;> cases ran
    exact List.mem_singleton_self _
  | succ fuel ih =>
    unfold runFrom at ran
    unfold runStates
    split at ran
    · rename_i reached
      cases ran
      rw [if_pos reached]
      exact List.mem_singleton_self _
    · rename_i below
      obtain ⟨turned, next, turning, ran⟩ := EStateM.bind_eq_ok ran
      rw [if_neg below, thereafter_ok turning]
      cases turned with
      | ended reason kept =>
        cases ran
        exact List.mem_append_left _ (List.mem_cons_of_mem _ (turn_last turning))
      | again chain kept => exact List.mem_append_right _ (ih ran)

theorem turn_turned (keeps : handler.Lawful) (granular : space.Granular) (fuel : Nat) (sound : core.device.Sound)
    (known : ∀ pa, chain = some pa → space.Leads core.hart.pc pa) (lawful : start.Lawful core) :
    Ends (turn fuel space handler chain memory) core (Turned start) fun _ _ => True := by
  unfold turn
  rw [ends_bind, ends_onEngine]
  refine (Engine.refreshShortcuts_quiet sound).mono ?_ fun _ _ => False.elim
  intro _ engine quiet
  have fresh : start.Lawful ⟨core.hart, engine⟩ := lawful.within ⟨lawful.hart, quiet.traps⟩
  rw [ends_bind]
  refine (runNext_within ⟨core.hart, engine⟩ granular fuel quiet.sound known fresh.hart).weaken ?_
  rintro step after ⟨within, ordinary⟩
  rw [ends_bind]
  refine (settle_turned keeps (fresh.within within) ordinary).weaken ?_
  intro turn final turned
  cases turn with
  | ended reason kept => exact turned
  | again chain kept => exact takeInterrupt_turned keeps turned.1

theorem turn_onward (keeps : handler.Lawful) (granular : space.Granular) (fuel : Nat) (sound : core.device.Sound)
    (known : ∀ pa, chain = some pa → space.Leads core.hart.pc pa) (lawful : start.Lawful core) :
    Ends (turn fuel space handler chain memory) core (fun turn after => Turned start turn after ∧
      ∀ chain' kept, turn = .again chain' kept → after.device.Sound ∧
        ∀ pa, chain' = some pa → space.Leads after.hart.pc pa) fun _ _ => True := by
  refine .intro (fun turn after ran => ?_) fun _ _ _ => trivial
  have explained := (turn_explained granular fuel (.begin sound) known).answer ran
  refine ⟨(turn_turned keeps granular fuel sound known lawful).answer ran, ?_⟩
  intro chain' kept same
  subst same
  exact ⟨explained.1.sound, explained.2⟩

theorem runStates_lawful (keeps : handler.Lawful) (granular : space.Granular) {limit : Option Nat} (fuel blocks : Nat)
    (sound : core.device.Sound) (known : ∀ pa, chain = some pa → space.Leads core.hart.pc pa) (lawful : start.Lawful core) :
    ∀ state ∈ runStates space handler limit fuel blocks chain memory core, start.Lawful state := by
  induction fuel generalizing core chain memory blocks with
  | zero => exact List.forall_mem_singleton.mpr lawful
  | succ fuel ih =>
    unfold runStates
    split
    · exact List.forall_mem_singleton.mpr lawful
    · refine List.forall_mem_append.mpr ⟨List.forall_mem_cons.mpr ⟨lawful, ?_⟩, ?_⟩
      · exact turnStates_lawful keeps granular fuel sound known lawful
      · refine (turn_onward keeps granular fuel sound known lawful).thereafter ?_
        rintro turn after ⟨⟨later, -⟩, onward⟩
        cases turn with
        | ended reason kept => exact fun _ absent => absurd absent List.not_mem_nil
        | again chain kept =>
          obtain ⟨sound', known'⟩ := onward chain kept rfl
          exact ih (blocks + 1) sound' known' later

theorem runFrom_lawful (keeps : handler.Lawful) (granular : space.Granular) {limit : Option Nat} (fuel blocks : Nat)
    (sound : core.device.Sound) (known : ∀ pa, chain = some pa → space.Leads core.hart.pc pa) (lawful : start.Lawful core) :
    Ends (runFrom space handler limit fuel blocks chain memory) core
      (fun answer after => start.Lawful after ∧ answer.1.Ordinary) fun _ _ => True := by
  induction fuel generalizing core chain memory blocks with
  | zero =>
    unfold runFrom
    split
    · exact ⟨lawful, RunEnd.blockLimit_ordinary⟩
    · trivial
  | succ fuel ih =>
    unfold runFrom
    split
    · exact ⟨lawful, RunEnd.blockLimit_ordinary⟩
    · dsimp only
      rw [ends_bind]
      refine (turn_onward keeps granular fuel sound known lawful).weaken ?_
      rintro turn after ⟨⟨later, ended⟩, onward⟩
      cases turn with
      | ended reason kept => exact ⟨later, ended reason kept rfl⟩
      | again chain kept =>
        obtain ⟨sound', known'⟩ := onward chain kept rfl
        exact ih (blocks + 1) sound' known' later

end LoopM

namespace Core

open LoopM (runStates)

variable {ram : Ram} {core : Core Engine}

-- A hart from its reset on, at any even address, with an engine around a memory: runs that answer traps as the hardware
-- does, stores from outside, compilation of what is waiting, and interrupt lines that devices move, in any order.
inductive Powered (ram : Ram) : Core Engine → Prop where
  | reset {config : Config} {engine : Engine} {pc : Word} {host : Host}
      (built : Engine.setup config ram host = .ok (.ok engine))
      (even : pc.toNat % 2 = 0) : Powered ram ⟨{ Hart.reset with pc := pc }, engine⟩
  | run {core after : Core Engine} {space : AddressSpace} {limit : Option Nat} {fuel : Nat} {answer : RunEnd × Unit}
      (before : Powered ram core) (granular : space.Granular)
      (ran : LoopM.run fuel space .machine limit () core = .ok answer after) : Powered ram after
  | store {hart : Hart} {engine after : Engine} {pa : Nat} {data : List UInt8} {fetch : Option Nat}
      {answer : Except OutOfRange StoreEffect} (before : Powered ram ⟨hart, engine⟩)
      (ran : Engine.store pa data fetch engine = .ok answer after) : Powered ram ⟨hart, after⟩
  | drain {hart : Hart} {engine after : Engine} {count : Nat} (before : Powered ram ⟨hart, engine⟩)
      (ran : Engine.fulfilAll engine = .ok count after) : Powered ram ⟨hart, after⟩
  | lines {hart : Hart} {engine : Engine} (before : Powered ram ⟨hart, engine⟩) (mip : Word) :
      Powered ram ⟨{ hart with mip := mip }, engine⟩

theorem Powered.legal (powered : Powered ram core) : core.hart.Legal ∧ core.device.Sound := by
  induction powered with
  | reset built even => exact ⟨Hart.reset_legal even, (Engine.setup_sound built).1⟩
  | run _ granular ran ih =>
    obtain ⟨lawful, -⟩ := (LoopM.runFrom_lawful TrapHandler.machine_lawful granular _ 0 ih.2
      (fun _ absent => by cases absent) (.begin ih.1)).answer ran
    obtain ⟨_, traced, -⟩ := (Engine.run_traced granular ih.2 _ _ _).answer ran
    exact ⟨lawful.hart, traced.sound⟩
  | store _ ran ih => exact ⟨ih.1, ((Engine.store_stored ih.2).answer ran).sound⟩
  | drain _ ran ih => exact ⟨ih.1, ((Engine.fulfilAll_stays ih.2).answer ran).sound⟩
  | lines _ mip ih => exact ⟨ih.1.moved rfl ih.1.pc rfl rfl rfl, ih.2⟩

-- At every instruction boundary of a run, whether or not the run comes to an end: x0 reads zero, pc and mepc are even, mtvec
-- is a multiple of four and mstatus is legal. So no trap is ever taken for an odd pc.
theorem registers_stay_legal (powered : Powered ram core) (granular : space.Granular) (limit : Option Nat) (fuel : Nat) :
    core.hart.Legal ∧ (∀ state ∈ runStates space .machine limit fuel 0 none () core, core.Lawful state) ∧
    ∀ reason kept final, LoopM.run fuel space .machine limit () core = .ok (reason, kept) final →
      final ∈ runStates space .machine limit fuel 0 none () core ∧ reason.Ordinary := by
  obtain ⟨legal, sound⟩ := powered.legal
  have unknown : ∀ pa, none = some pa → space.Leads core.hart.pc pa := fun _ absent => by cases absent
  refine ⟨legal, ?_, ?_⟩
  · exact LoopM.runStates_lawful TrapHandler.machine_lawful granular fuel 0 sound unknown (.begin legal)
  · intro reason kept final ran
    obtain ⟨-, ordinary⟩ :=
      (LoopM.runFrom_lawful TrapHandler.machine_lawful granular fuel 0 sound unknown (.begin legal)).answer ran
    exact ⟨LoopM.runFrom_last ran, ordinary⟩

-- A guest that writes 0x43 to mtvec and ones to mstatus and mepc, loops, calls its environment, and has a handler that adds
-- an odd number to mepc, clears mtvec and returns to a breakpoint.
def oddPage : Ram :=
  ⟨0, ([0x93, 0x02, 0x30, 0x04, 0x73, 0x90, 0x52, 0x30, 0x13, 0x03, 0xf0, 0xff, 0x73, 0x10, 0x03, 0x30,
      0x73, 0x10, 0x13, 0x34, 0x13, 0x04, 0x50, 0, 0x13, 0x04, 0xf4, 0xff, 0xe3, 0x1e, 0x04, 0xfe,
      0x73, 0, 0, 0, 0x73, 0, 0x10, 0] ++ List.replicate 24 0 ++
    [0xf3, 0x23, 0x10, 0x34, 0x93, 0x83, 0x53, 0, 0x73, 0x90, 0x13, 0x34, 0x73, 0x10, 0x50, 0x30, 0x73, 0, 0x20, 0x30] ++
    List.replicate 4012 0 : List UInt8).toArray, by decide +kernel⟩

def controls (states : List (Core Engine)) : List (List Word) :=
  (states.map fun state => [state.hart.pc, state.hart.mepc, state.hart.mtvec, state.hart.mstatus]).eraseDups

def OddPassage (core : Core Engine) : Prop :=
  ∃ answer final, LoopM.run 99 .bare .machine none () core = .ok answer final ∧
    answer = (.halted (.exception (.breakpoint 0x24)), ()) ∧ final.device.counts.compiledInsns = 6 ∧
    controls (runStates .bare .machine none 99 0 none () core) =
      [[0x18, 0xfffffffffffffffe, 0x40, 0x1888], [0x1c, 0xfffffffffffffffe, 0x40, 0x1888],
        [0x20, 0xfffffffffffffffe, 0x40, 0x1888], [0x40, 0x20, 0x40, 0x1880], [0x44, 0x20, 0x40, 0x1880],
        [0x48, 0x20, 0x40, 0x1880], [0x4c, 0x24, 0x40, 0x1880], [0x50, 0x24, 0, 0x1880], [0x24, 0x24, 0, 0x1888]]

instance (core : Core Engine) : Decidable (OddPassage core) :=
  inferInstanceAs (Decidable (∃ _ _, _ ∧ _))

theorem oddPage_registers : ∃ core, Powered oddPage core ∧ OddPassage core ∧ core.hart.Legal ∧
    (∀ state ∈ runStates .bare .machine none 99 0 none () core, core.Lawful state) ∧
    ∀ reason kept final, LoopM.run 99 .bare .machine none () core = .ok (reason, kept) final →
      final ∈ runStates .bare .machine none 99 0 none () core ∧ reason.Ordinary := by
  have computed : ∃ new, Engine.setup { promotionThreshold := 1 } oddPage = .ok (.ok new) ∧
      ∃ answer core, LoopM.run 9 .bare .machine (some 5) () ⟨Hart.reset, new⟩ = .ok answer core ∧
      ∃ count engine, Engine.fulfilAll core.device = .ok count engine ∧ OddPassage ⟨core.hart, engine⟩ := by
    decide +kernel
  obtain ⟨new, built, _, core, first, _, engine, drained, passage⟩ := computed
  have start : Powered oddPage ⟨{ Hart.reset with pc := 0 }, new⟩ := .reset built rfl
  have powered : Powered oddPage ⟨core.hart, engine⟩ := .drain (.run start .bare first) drained
  exact ⟨_, powered, passage, registers_stay_legal powered .bare none 99⟩

end Core
end TieredHart
