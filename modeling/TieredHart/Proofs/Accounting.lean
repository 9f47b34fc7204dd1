import TieredHart.Proofs.Refinement
import TieredHart.Proofs.Retirements
import TieredHart.Proofs.Tallies

namespace TieredHart

variable {τ : Type} {space : AddressSpace} {handler : TrapHandler τ} {core after : Core Engine} {fuel pa : Nat} {pc : Word}

structure Core.Finished (retired : List Retirement) (core after : Core Engine) : Prop where
  tally : after.tally = core.tally.finish retired.length
  count : core.hart.Counts retired after.hart

namespace LoopM

def compiledInsns (fuel : Nat) (space : AddressSpace) (block : Block) (pa : Nat) (core : Core Engine) : List Retirement :=
  let engine := { core.device with cache := core.device.cache.markUsed block.id }
  match engine.cache.code block with
  | .ok code =>
    ThreadedCode.retiredFrom code (DataSide.codeBus space (Page.frame pa) block.stamp.frames) ⟨core.hart.pc, pa⟩ fuel
      ⟨0, 0, 0⟩ ⟨core.hart, ⟨engine, false⟩⟩
  | .error _ => []

theorem runInterpreted_finished :
    Ends (runInterpreted space pa) core (fun _ after => core.Finished (interpretedInsns space pa core) after) fun _ _ => True := by
  unfold runInterpreted
  rw [ends_bind, ends_get, ends_bind]
  refine .intro (fun answer middle ran => ?_) fun _ _ _ => trivial
  obtain ⟨counts, insns⟩ := (interpretFrom_counts _).answer ran
  have same := (interpretFrom_steady _ core).answer ran
  obtain ⟨n, step⟩ := answer
  have total : (interpretedInsns space pa core).length = n := (insns.trans (Nat.zero_add _)).symm
  refine ⟨?_, counts⟩
  rw [← same, total]
  refine Tally.ext ?_ rfl ?_
  · show middle.device.counts.interpBlocks + 1 + middle.device.counts.compiledBlocks =
      middle.device.counts.interpBlocks + middle.device.counts.compiledBlocks + 1
    omega
  · show middle.device.counts.interpInsns + n + middle.device.counts.compiledInsns =
      middle.device.counts.interpInsns + middle.device.counts.compiledInsns + n
    omega

theorem runCompiled_finished {block : Block} : Ends (runCompiled fuel space block pa) core
    (fun _ after => core.Finished (compiledInsns fuel space block pa core) after) fun _ _ => True := by
  unfold runCompiled
  rw [ends_bind, ends_onEngine, ends_modify, ends_bind, ends_get, ends_bind, ends_ofExcept]
  refine ⟨fun code found => ?_, fun _ _ => trivial⟩
  rw [ends_bind, ends_onDataSide]
  refine .intro (fun exit middle ran => ?_) fun _ _ _ => trivial
  have counts : ThreadedCode.Counts (compiledInsns fuel space block pa core) ⟨0, 0, 0⟩
      ⟨core.hart, ⟨{ core.device with cache := core.device.cache.markUsed block.id }, false⟩⟩ exit.insns middle := by
    unfold compiledInsns
    dsimp only at found ⊢
    rw [found]
    exact (ThreadedCode.runFrom_counts fuel).answer ran
  have same : middle.device.engine.tally = core.tally := (ThreadedCode.runFrom_steady fuel _).answer ran
  have total := counts.insns.trans (Nat.zero_add _)
  have finished : ∀ {engine : Engine}, engine.tally = middle.device.engine.tally.finish exit.insns →
      core.Finished (compiledInsns fuel space block pa core) ⟨{ middle.hart with pc := exit.nextPc }, engine⟩ := by
    intro engine tally
    rw [same, total] at tally
    exact ⟨tally, counts.hart.moved rfl⟩
  rw [ends_bind, ends_setPc, ends_bind, ends_onEngine]
  cases exit.refusedCsr <;> cases exit.cause <;> exact finished (Tally.ext rfl rfl (Nat.add_assoc ..).symm)

end LoopM

-- From one state to a later one, as many blocks were run as were asked for, and what retired was counted twice: by the
-- blocks it was in, and by the hart.
structure Core.Booked (retired : List Retirement) (core after : Core Engine) : Prop where
  blocks : ∃ n, after.tally.ran = core.tally.ran + n ∧ after.tally.found = core.tally.found + n
  insns : after.tally.insns = core.tally.insns + retired.length
  count : core.hart.Counts retired after.hart

namespace Core.Booked

variable {middle : Core Engine} {retired later : List Retirement}

theorem still (tally : after.tally = core.tally) (count : after.hart.instret = core.hart.instret) :
    core.Booked [] after := by
  refine ⟨⟨0, ?_, ?_⟩, ?_, .none count⟩
  · exact congrArg Tally.ran tally
  · exact congrArg Tally.found tally
  · exact congrArg Tally.insns tally

theorem trans (first : core.Booked retired middle) (second : middle.Booked later after) :
    core.Booked (retired ++ later) after := by
  obtain ⟨n, ran, found⟩ := first.blocks
  obtain ⟨m, ran', found'⟩ := second.blocks
  refine ⟨⟨n + m, ?_, ?_⟩, ?_, first.count.trans second.count⟩
  · rw [ran', ran, Nat.add_assoc]
  · rw [found', found, Nat.add_assoc]
  · rw [second.insns, first.insns, List.length_append, Nat.add_assoc]

theorem block {engine : Engine} (asked : core.device.Asked engine) (finished : Core.Finished retired ⟨core.hart, engine⟩ after) :
    core.Booked retired after := by
  have tally : after.tally = core.tally.ask.finish retired.length := finished.tally.trans (congrArg (Tally.finish · _) asked)
  refine ⟨⟨1, ?_, ?_⟩, ?_, finished.count⟩
  · exact congrArg Tally.ran tally
  · exact congrArg Tally.found tally
  · exact congrArg Tally.insns tally

theorem before (second : middle.Booked retired after) (tally : middle.tally = core.tally)
    (count : middle.hart.instret = core.hart.instret) : core.Booked retired after := (still tally count).trans second

theorem behind (first : core.Booked retired middle) (second : middle.Booked [] after) : core.Booked retired after :=
  List.append_nil retired ▸ first.trans second

end Core.Booked

def TrapHandler.Uncounted (handler : TrapHandler τ) : Prop := ∀ trap hart memory reply hart' memory',
  handler.handle trap hart memory = .ok (reply, hart', memory') → hart'.instret = hart.instret

theorem TrapHandler.machine_uncounted : machine.Uncounted := by
  intro trap hart memory reply hart' memory' answered
  cases answered
  exact hart.instret_enterTrap trap

namespace LoopM

variable {chain : Option Nat} {memory : τ}

def blockInsns (fuel : Nat) (space : AddressSpace) (pc : Word) (pa : Nat) (core : Core Engine) : List Retirement :=
  thereafter (onEngine (Engine.selectBlock space pc pa)) core fun found core =>
    found.elim (interpretedInsns space pa core) fun block => compiledInsns fuel space block pa core

theorem enterBlock_booked : Ends (enterBlock fuel space pc pa) core
    (fun _ after => core.Booked (blockInsns fuel space pc pa core) after) fun _ _ => True := by
  rw [enterBlock_eq, ends_bind]
  refine .intro (fun found middle ran => ?_) fun _ _ _ => trivial
  unfold blockInsns
  rw [thereafter_ok ran]
  obtain ⟨hart, engine⟩ := middle
  obtain ⟨rfl, selected⟩ := onEngine_ok ran
  have asked := (Engine.selectBlock_asked core.device).answer selected
  cases found with
  | none => exact runInterpreted_finished.weaken fun _ _ finished => .block asked finished
  | some block => exact runCompiled_finished.weaken fun _ _ finished => .block asked finished

def nextInsns (fuel : Nat) (space : AddressSpace) (chain : Option Nat) (core : Core Engine) : List Retirement :=
  match chain with
  | some pa =>
    thereafter (onEngine (Engine.count fun counts => { counts with chained := counts.chained + 1 })) core
      fun _ counted => blockInsns fuel space core.hart.pc pa counted
  | none =>
    if core.hart.pc.toNat % 2 = 1 then []
    else
      match space .fetch core.hart.pc with
      | some location => blockInsns fuel space core.hart.pc location.pa core
      | none => []

theorem runNext_booked : Ends (runNext fuel space chain) core
    (fun _ after => core.Booked (nextInsns fuel space chain core) after) fun _ _ => True := by
  unfold runNext nextInsns
  rw [ends_bind, ends_get]
  cases chain with
  | some pa =>
    dsimp only
    rw [ends_bind]
    refine .intro (fun _ counted counting => ?_) fun _ _ _ => trivial
    rw [thereafter_ok counting]
    cases counting
    exact enterBlock_booked.weaken fun _ _ booked => booked.before rfl rfl
  | none =>
    dsimp only
    split
    · exact .still rfl rfl
    · cases space .fetch core.hart.pc with
      | some location => exact enterBlock_booked
      | none => exact .still rfl rfl

theorem raise_still (kept : handler.Uncounted) (trap : Trap) (core : Core Engine) :
    Ends (raise handler trap memory) core (fun _ after => core.Booked [] after) fun _ _ => True :=
  ends_raise (fun _ _ _ answered => .still rfl (kept _ _ _ _ _ _ answered)) fun _ _ _ => trivial

theorem answered_still (kept : handler.Uncounted) {trap : Trap} {counted : Engine} (tally : counted.tally = core.tally)
    {next : TrapReply × τ → LoopM (Turn τ)} (plain : ∀ answer, ∃ turn, next answer = pure turn) :
    Ends (raise handler trap memory >>= next) ⟨core.hart, counted⟩ (fun _ after => core.Booked [] after) fun _ _ => True := by
  rw [ends_bind]
  refine (raise_still kept trap _).weaken fun answer final raised => ?_
  obtain ⟨turn, same⟩ := plain answer
  rw [same]
  exact raised.before tally rfl

theorem settle_still (kept : handler.Uncounted) (step : Step) : Ends (settle handler step memory) core
    (fun _ after => core.Booked [] after) fun _ _ => True := by
  cases step with
  | next chain => exact .still rfl rfl
  | fault fault =>
    unfold settle
    dsimp only
    rw [ends_bind, ends_onEngine]
    show Ends (raise _ _ _ >>= _) ⟨core.hart, _⟩ _ _
    refine answered_still kept ?_ ?_
    · rfl
    · rintro ⟨_ | _, _⟩ <;> exact ⟨_, rfl⟩

theorem takeInterrupt_still (kept : handler.Uncounted) : Ends (takeInterrupt handler chain memory) core
    (fun _ after => core.Booked [] after) fun _ _ => True := by
  unfold takeInterrupt
  rw [ends_bind, ends_get]
  cases core.hart.interruptToTake with
  | none => exact .still rfl rfl
  | some code =>
    dsimp only
    rw [ends_bind, ends_onEngine]
    show Ends (raise _ _ _ >>= _) ⟨core.hart, _⟩ _ _
    refine answered_still kept ?_ ?_
    · rfl
    · rintro ⟨_ | _, _⟩ <;> exact ⟨_, rfl⟩

def turnInsns (fuel : Nat) (space : AddressSpace) (chain : Option Nat) (core : Core Engine) : List Retirement :=
  thereafter (onEngine Engine.refreshShortcuts) core fun _ core => nextInsns fuel space chain core

theorem turn_booked (kept : handler.Uncounted) : Ends (turn fuel space handler chain memory) core
    (fun _ after => core.Booked (turnInsns fuel space chain core) after) fun _ _ => True := by
  unfold turn turnInsns
  rw [ends_bind]
  refine .intro (fun _ fresh refreshing => ?_) fun _ _ _ => trivial
  obtain ⟨hart, refreshed⟩ := onEngine_ok refreshing
  have tally : fresh.tally = core.tally := (Engine.refreshShortcuts_steady core.device).answer refreshed
  rw [thereafter_ok refreshing, ends_bind]
  refine runNext_booked.weaken fun step left ran => ?_
  rw [ends_bind]
  refine (settle_still kept step).weaken fun turned settled same => ?_
  have booked := (ran.behind same).before tally (congrArg Hart.instret hart)
  cases turned with
  | ended reason memory => exact booked
  | again chain memory => exact (takeInterrupt_still kept).weaken fun _ _ taken => booked.behind taken

def runInsns (space : AddressSpace) (handler : TrapHandler τ) (limit : Option Nat) :
    Nat → Nat → Option Nat → τ → Core Engine → List Retirement
  | 0, _, _, _, _ => []
  | fuel + 1, blocks, chain, memory, core =>
    if limit.any (· ≤ blocks) then []
    else turnInsns fuel space chain core ++
      thereafter (turn fuel space handler chain memory) core fun turn core =>
        match turn with
        | .again chain memory => runInsns space handler limit fuel (blocks + 1) chain memory core
        | .ended .. => []

theorem runFrom_booked (kept : handler.Uncounted) {limit : Option Nat} (fuel blocks : Nat) :
    Ends (runFrom space handler limit fuel blocks chain memory) core
      (fun _ after => core.Booked (runInsns space handler limit fuel blocks chain memory core) after) fun _ _ => True := by
  induction fuel generalizing core chain memory blocks with
  | zero =>
    unfold runFrom
    split
    · exact .still rfl rfl
    · trivial
  | succ fuel ih =>
    unfold runFrom runInsns
    split
    · exact .still rfl rfl
    · rw [ends_bind]
      refine .intro (fun turned next turning => ?_) fun _ _ _ => trivial
      have booked := (turn_booked kept).answer turning
      rw [thereafter_ok turning]
      cases turned with
      | ended reason memory =>
        rw [List.append_nil]
        exact booked
      | again chain memory => exact (ih (blocks + 1)).weaken fun _ _ later => booked.trans later

end LoopM

namespace Core

variable {start : Core Engine} {config : Config} {ram : Ram} {engine : Engine} {hart : Hart} {past retired : List Retirement}

-- From a state on, with everything that retired since: runs that answer traps as the hardware does, stores from outside
-- and compilation of what is waiting, in any order. Whoever embeds the hart sets its registers in between, the counter
-- apart.
inductive Lifetime (start : Core Engine) : List Retirement → Core Engine → Prop where
  | start : Lifetime start [] start
  | run {past : List Retirement} {core after : Core Engine} {space : AddressSpace} {limit : Option Nat} {fuel : Nat}
      {answer : RunEnd × Unit} (before : Lifetime start past core)
      (ran : LoopM.run fuel space .machine limit () core = .ok answer after) :
      Lifetime start (past ++ LoopM.runInsns space .machine limit fuel 0 none () core) after
  | store {past : List Retirement} {hart : Hart} {engine after : Engine} {pa : Nat} {data : List UInt8} {fetch : Option Nat}
      {answer : Except OutOfRange StoreEffect} (before : Lifetime start past ⟨hart, engine⟩)
      (ran : Engine.store pa data fetch engine = .ok answer after) : Lifetime start past ⟨hart, after⟩
  | drain {past : List Retirement} {hart : Hart} {engine after : Engine} {count : Nat}
      (before : Lifetime start past ⟨hart, engine⟩) (ran : Engine.fulfilAll engine = .ok count after) :
      Lifetime start past ⟨hart, after⟩
  | set {past : List Retirement} {hart : Hart} {engine : Engine} (before : Lifetime start past ⟨hart, engine⟩) (hart' : Hart)
      (count : hart'.instret = hart.instret) : Lifetime start past ⟨hart', engine⟩

theorem Lifetime.booked (lifetime : Lifetime start past core) : start.Booked past core := by
  induction lifetime with
  | start => exact .still rfl rfl
  | run _ ran ih => exact ih.trans ((LoopM.runFrom_booked TrapHandler.machine_uncounted _ 0).answer ran)
  | store _ ran ih => exact ih.behind (.still ((Engine.store_tally ..).answer ran) rfl)
  | drain _ ran ih => exact ih.behind (.still ((Engine.fulfilAll_steady _).answer ran) rfl)
  | set _ _ count ih => exact ih.behind (.still rfl count)

-- The accounts of an engine. Every block that was run was found in one way: forced by the state of its frame, by a
-- shortcut, in the map or not in it. And from any reachable state on, the instructions that blocks count are those that
-- retired; unless one of them wrote the counter of the hart, that has moved by just as many.
theorem accounts_agree {host : Host} (built : Engine.setup config ram host = .ok (.ok engine))
    (before : Lifetime ⟨hart, engine⟩ past core) (since : Lifetime core retired after) :
    core.device.counts.interpBlocks + core.device.counts.compiledBlocks =
      core.device.counts.forcedInterp + core.device.counts.shortcutHits +
        core.device.cache.counts.hits + core.device.cache.counts.misses ∧
    after.device.counts.interpInsns + after.device.counts.compiledInsns =
      core.device.counts.interpInsns + core.device.counts.compiledInsns + retired.length ∧
    ((∀ retirement ∈ retired, retirement.insn.setsCount = false) → after.hart.instret - core.hart.instret =
      BitVec.ofNat 64 (after.device.counts.interpInsns + after.device.counts.compiledInsns -
        (core.device.counts.interpInsns + core.device.counts.compiledInsns))) := by
  have new : Core.tally ⟨hart, engine⟩ = ⟨0, 0, 0⟩ := Engine.setup_tally built
  obtain ⟨n, ran, found⟩ := before.booked.blocks
  have booked := since.booked
  have insns : after.device.counts.interpInsns + after.device.counts.compiledInsns =
      core.device.counts.interpInsns + core.device.counts.compiledInsns + retired.length := booked.insns
  refine ⟨?_, insns, fun plain => ?_⟩
  · rw [new] at ran found
    calc core.device.counts.interpBlocks + core.device.counts.compiledBlocks
      _ = core.device.counts.forcedInterp + core.device.counts.shortcutHits + core.device.cache.lookups :=
        ran.trans found.symm
      _ = _ := (Nat.add_assoc ..).symm
  · rw [booked.count plain, insns, Nat.add_sub_cancel_left, BitVec.add_comm, BitVec.add_sub_cancel]

-- A guest with a loop at its start, and behind it an addition, a store and a breakpoint.
def storeBehindLoop : Ram :=
  ⟨0, ([0x93, 0x80, 0x10, 0, 0xe3, 0x9e, 0x20, 0xfe, 0x93, 0x82, 0x12, 0, 0x23, 0x20, 0x32, 0, 0x73, 0, 0x10, 0] ++
    List.replicate 4076 0 : List UInt8).toArray, by decide +kernel⟩

def sent (core : Core Engine) (pc place lines : Word) : Core Engine :=
  { core with hart := { core.hart.setRaw 4 place with pc := pc, mip := lines, mie := 8, mstatus := 0x1808 } }

theorem Lifetime.sent (before : Lifetime start past core) (pc place lines : Word) :
    Lifetime start past (core.sent pc place lines) := .set before (core.sent pc place lines).hart rfl

def exits (core : Core Engine) : List (Nat × ExitCause × Nat) :=
  core.device.cache.journal.toList.filterMap fun event =>
    match event with
    | .ran pa exit => some (pa, exit.cause, exit.insns)
    | _ => none

def runs (core : Core Engine) : List Retirement := LoopM.runInsns .bare .machine none 9 0 none () core

-- A block is left for an interrupt, another one for a fault, and the same one for its store; what is behind it then is
-- interpreted. Meanwhile the counter wraps.
def Settled (retired : List Retirement) (core after : Core Engine) : Prop :=
  exits after = [(0, .interrupt, 2), (8, .exception (.storeAccess 0x1000), 1), (8, .toInterpreter, 2)] ∧
  after.device.counts.forcedInterp = 1 ∧ retired.map (·.pc) = [0, 4, 8, 8, 12] ∧
  (∀ retirement ∈ retired, retirement.insn.setsCount = false) ∧
  core.hart.instret = 0xfffffffffffffffe ∧ after.hart.instret = 3

instance (retired : List Retirement) (core after : Core Engine) : Decidable (Settled retired core after) :=
  inferInstanceAs (Decidable (_ ∧ _))

theorem storeBehindLoop_accounts : ∃ engine past core retired after,
    Engine.setup { promotionThreshold := 1, safepointInterval := 2 } storeBehindLoop = .ok (.ok engine) ∧
    Lifetime ⟨{ Hart.reset with instret := 0xfffffffffffffffb }, engine⟩ past core ∧ Lifetime core retired after ∧
    Settled retired core after ∧
    core.device.counts.interpBlocks + core.device.counts.compiledBlocks =
      core.device.counts.forcedInterp + core.device.counts.shortcutHits +
        core.device.cache.counts.hits + core.device.cache.counts.misses ∧
    after.device.counts.interpInsns + after.device.counts.compiledInsns =
      core.device.counts.interpInsns + core.device.counts.compiledInsns + retired.length ∧
    after.hart.instret - core.hart.instret =
      BitVec.ofNat 64 (after.device.counts.interpInsns + after.device.counts.compiledInsns -
        (core.device.counts.interpInsns + core.device.counts.compiledInsns)) := by
  have computed : ∃ new, Engine.setup { promotionThreshold := 1, safepointInterval := 2 } storeBehindLoop = .ok (.ok new) ∧
      ∃ answer looped, LoopM.run 9 .bare .machine (some 1) () ⟨{ Hart.reset with instret := 0xfffffffffffffffb }, new⟩ =
        .ok answer looped ∧
      ∃ answer refused, LoopM.run 9 .bare .machine none () (sent looped 8 0x1000 0) = .ok answer refused ∧
      ∃ count engine, Engine.fulfilAll refused.device = .ok count engine ∧
      ∃ answer paused, LoopM.run 9 .bare .machine none () (sent ⟨refused.hart, engine⟩ 0 0 8) = .ok answer paused ∧
      ∃ answer faulted, LoopM.run 9 .bare .machine none () (sent paused 8 0x1000 0) = .ok answer faulted ∧
      ∃ answer left, LoopM.run 9 .bare .machine none () (sent faulted 8 0x14 0) = .ok answer left ∧
        Settled ((([] ++ runs (sent ⟨refused.hart, engine⟩ 0 0 8)) ++ runs (sent paused 8 0x1000 0)) ++
          runs (sent faulted 8 0x14 0)) ⟨refused.hart, engine⟩ left := by
    decide +kernel
  obtain ⟨new, built, _, looped, looping, _, refused, refusing, _, engine, drained, _, paused, pausing, _, faulted, faulting,
    _, left, leaving, settled⟩ := computed
  have before : Lifetime ⟨{ Hart.reset with instret := 0xfffffffffffffffb }, new⟩ _ ⟨refused.hart, engine⟩ :=
    .drain (.run (.sent (.run .start looping) ..) refusing) drained
  have since : Lifetime ⟨refused.hart, engine⟩ _ left :=
    .run (.sent (.run (.sent (.run (.sent .start ..) pausing) ..) faulting) ..) leaving
  obtain ⟨blocks, insns, count⟩ := accounts_agree built before since
  exact ⟨new, _, ⟨refused.hart, engine⟩, _, left, built, before, since, settled, blocks, insns, count settled.2.2.2.1⟩

end Core
end TieredHart
