import TieredHart.Proofs.Dispatch

namespace TieredHart

variable {τ : Type} {space : AddressSpace} {handler : TrapHandler τ} {start core after : Core Engine}
  {memory kept kept' : τ} {status : Option Trap}

theorem Plain.Run.steps {start core core' : Core Ram} {traps : List (Trap × Word)}
    (before : Plain.Run space handler start memory traps none core kept) (steps : Plain.Steps space core core') :
    Plain.Run space handler start memory traps none core' kept := by
  induction steps with
  | refl => exact before
  | step _ ran ih => exact ih.step ran

-- A run so far: the plain machine has come to the same state, by the traps that were reported meanwhile.
structure Traced (space : AddressSpace) (handler : TrapHandler τ) (start : Core Engine) (memory : τ)
    (status : Option Trap) (core : Core Engine) (kept : τ) : Prop where
  sound : core.device.Sound
  evolves : Evolves start.device.ram start.device.cache.frames core.device.ram core.device.cache.frames
  run : start.device.ram.base % 4096 = 0 → ∃ traps,
    Plain.Run space handler start.plain memory traps status core.plain kept ∧
      core.device.cache.traps = start.device.cache.traps ++ traps

namespace Traced

theorem begin (sound : start.device.Sound) : Traced space handler start memory none start memory :=
  ⟨sound, .refl _ _, fun _ => ⟨[], .start, (List.append_nil _).symm⟩⟩

theorem aligned (traced : Traced space handler start memory status core kept) (whole : start.device.ram.base % 4096 = 0) :
    core.device.ram.base % 4096 = 0 := traced.evolves.base.symm ▸ whole

theorem quiet (traced : Traced space handler start memory status core kept) {engine : Engine}
    (quiet : core.device.Quiet engine) : Traced space handler start memory status ⟨core.hart, engine⟩ kept := by
  refine ⟨quiet.sound, traced.evolves.trans quiet.onward.evolves, fun whole => ?_⟩
  obtain ⟨traps, run, reported⟩ := traced.run whole
  unfold Core.plain at run ⊢
  rw [quiet.ram]
  exact ⟨traps, run, quiet.traps.trans reported⟩

theorem ran (traced : Traced space handler start memory none core kept) {chain : Option Nat}
    (ran : (Step.next chain).Ran space core after) : Traced space handler start memory none after kept := by
  refine ⟨ran.onward.sound, traced.evolves.trans ran.onward.evolves, fun whole => ?_⟩
  obtain ⟨traps, run, reported⟩ := traced.run whole
  exact ⟨traps, run.steps (ran.retraced (traced.aligned whole)), ran.onward.traps.trans reported⟩

theorem trapped {engine : Engine} {hart hart' : Hart} (sound : engine.Sound)
    (evolves : Evolves start.device.ram start.device.cache.frames engine.ram engine.cache.frames) {trap : Trap}
    {status : Option Trap}
    (run : start.device.ram.base % 4096 = 0 → ∃ traps,
      Plain.Run space handler start.plain memory (traps ++ [(trap, hart.pc)]) status ⟨hart', engine.ram⟩ kept ∧
        engine.cache.traps = start.device.cache.traps ++ traps) :
    Traced space handler start memory status
      ⟨hart', { engine with cache := engine.cache.report (.trapped trap hart.pc) }⟩ kept := by
  have stays : engine.Stays { engine with cache := engine.cache.report (.trapped trap hart.pc) } :=
    sound.recached (.same rfl rfl rfl rfl rfl) rfl rfl
  refine ⟨stays.sound, evolves.trans stays.evolves, fun whole => ?_⟩
  obtain ⟨traps, run, reported⟩ := run whole
  refine ⟨_, run, ?_⟩
  rw [Cache.traps_report, reported, List.append_assoc]
  rfl

end Traced

def Turn.Explained (space : AddressSpace) (handler : TrapHandler τ) (start : Core Engine) (memory : τ)
    (core : Core Engine) : Turn τ → Prop
  | .again chain kept => Traced space handler start memory none core kept ∧
      ∀ pa, chain = some pa → space.Leads core.hart.pc pa
  | .ended reason kept => ∃ trap, reason = .halted trap ∧ Traced space handler start memory (some trap) core kept

-- Why a run may fail: the bound on its length, the world it runs in, or its handler.
def Outside (ram : Ram) (space : AddressSpace) (handler : TrapHandler τ) (failure : Failure) : Prop :=
  (failure = .outOfFuel ∨ Excused ram space failure) ∨ ∃ trap hart kept, handler.handle trap hart kept = .error failure

namespace LoopM

theorem raise_eq (trap : Trap) : raise handler trap kept core =
    match handler.handle trap core.hart kept with
    | .ok (reply, hart, kept') =>
      .ok (reply, kept') ⟨hart, { core.device with cache := core.device.cache.report (.trapped trap core.hart.pc) }⟩
    | .error failure =>
      .error failure ⟨core.hart, { core.device with cache := core.device.cache.report (.trapped trap core.hart.pc) }⟩ := by
  unfold raise
  have report : onEngine (Engine.report (.trapped trap core.hart.pc)) core =
    .ok () ⟨core.hart, { core.device with cache := core.device.cache.report (.trapped trap core.hart.pc) }⟩ := rfl
  have here : ∀ core, (get : LoopM (Core Engine)) core = .ok core core := fun _ => rfl
  rw [EStateM.bind_ok (here core), EStateM.bind_ok report, EStateM.bind_ok (here _)]
  cases handler.handle trap core.hart kept <;> rfl

theorem ends_raise {trap : Trap} {good : TrapReply × τ → Core Engine → Prop} {bad : Failure → Core Engine → Prop}
    (answered : ∀ reply hart kept', handler.handle trap core.hart kept = .ok (reply, hart, kept') → good (reply, kept')
      ⟨hart, { core.device with cache := core.device.cache.report (.trapped trap core.hart.pc) }⟩)
    (failed : ∀ failure after, handler.handle trap core.hart kept = .error failure → bad failure after) :
    Ends (raise handler trap kept) core good bad := by
  unfold Ends
  rw [raise_eq]
  cases handled : handler.handle trap core.hart kept with
  | ok answer => exact answered _ _ _ handled
  | error failure => exact failed failure _ handled

theorem answered_explained {trap : Trap} {reply : TrapReply}
    (traced : Traced space handler start memory (reply.ending trap) core kept) :
    Ends (match (reply, kept) with
      | (.resume, kept) => pure (.again none kept)
      | (.halt, kept) => pure (.ended (.halted trap) kept) : LoopM (Turn τ)) core
      (fun turn final => turn.Explained space handler start memory final)
      fun failure _ => Outside start.device.ram space handler failure := by
  cases reply with
  | resume => exact ⟨traced, fun _ absent => by cases absent⟩
  | halt => exact ⟨trap, rfl, traced⟩

theorem settle_explained (traced : Traced space handler start memory none core kept) {step : Step}
    (ran : step.Ran space core after) : Ends (settle handler step kept) after
      (fun turn final => turn.Explained space handler start memory final)
      fun failure _ => Outside start.device.ram space handler failure := by
  unfold settle
  cases step with
  | next chain => exact ⟨traced.ran ran, fun pa same => ran.chain pa (by rw [same])⟩
  | fault raised =>
    have counted := ran.aside (ran.onward.sound.counted fun counts => { counts with exceptions := counts.exceptions + 1 })
    dsimp only
    rw [ends_bind, ends_onEngine]
    show Ends (raise _ _ _ >>= _) ⟨after.hart, _⟩ _ _
    rw [ends_bind]
    refine ends_raise ?_ fun failure _ failed => .inr ⟨_, _, _, failed⟩
    intro reply hart kept' answered
    refine answered_explained (.trapped counted.onward.sound (traced.evolves.trans counted.onward.evolves) fun whole => ?_)
    obtain ⟨traps, run, reported⟩ := traced.run whole
    obtain ⟨middle, steps, faulted⟩ := counted.retraced (traced.aligned whole)
    exact ⟨traps, (run.steps steps).exception faulted answered, counted.onward.traps.trans reported⟩

theorem takeInterrupt_explained (traced : Traced space handler start memory none core kept) {chain : Option Nat}
    (known : ∀ pa, chain = some pa → space.Leads core.hart.pc pa) : Ends (takeInterrupt handler chain kept) core
      (fun turn final => turn.Explained space handler start memory final)
      fun failure _ => Outside start.device.ram space handler failure := by
  unfold takeInterrupt
  rw [ends_bind, ends_get]
  cases pending : core.hart.interruptToTake with
  | none => exact ⟨traced, known⟩
  | some code =>
    have counted := traced.quiet (traced.sound.counted fun counts => { counts with interrupts := counts.interrupts + 1 })
    dsimp only
    rw [ends_bind, ends_onEngine]
    show Ends (raise _ _ _ >>= _) ⟨core.hart, _⟩ _ _
    rw [ends_bind]
    refine ends_raise ?_ fun failure _ failed => .inr ⟨_, _, _, failed⟩
    intro reply hart kept' answered
    refine answered_explained (.trapped counted.sound counted.evolves fun whole => ?_)
    obtain ⟨traps, run, reported⟩ := counted.run whole
    exact ⟨traps, run.interrupt pending answered, reported⟩

theorem turn_explained (granular : space.Granular) (fuel : Nat)
    (traced : Traced space handler start memory none core kept) {chain : Option Nat}
    (known : ∀ pa, chain = some pa → space.Leads core.hart.pc pa) : Ends (turn fuel space handler chain kept) core
      (fun turn final => turn.Explained space handler start memory final)
      fun failure _ => Outside start.device.ram space handler failure := by
  unfold turn
  rw [ends_bind, ends_onEngine]
  refine (Engine.refreshShortcuts_quiet traced.sound).mono ?_ fun _ _ => False.elim
  intro _ refreshed quiet
  have fresh := traced.quiet quiet
  rw [ends_bind]
  refine (runNext_ran granular fuel fresh.sound known).mono ?_ ?_
  · intro step after ran
    rw [ends_bind]
    refine (settle_explained fresh ran).weaken ?_
    intro result final explained
    cases result with
    | again chain kept => exact takeInterrupt_explained explained.1 explained.2
    | ended reason kept => exact explained
  · exact fun failure _ => fun broke => .inl (broke.imp_right fun excused => excused.earlier fresh.evolves)

theorem runFrom_traced (granular : space.Granular) {limit : Option Nat} (fuel blocks : Nat)
    (traced : Traced space handler start memory none core kept) {chain : Option Nat}
    (known : ∀ pa, chain = some pa → space.Leads core.hart.pc pa) :
    Ends (runFrom space handler limit fuel blocks chain kept) core
      (fun answer final => ∃ status, Traced space handler start memory status final answer.2 ∧
        answer.1 = status.elim .blockLimit .halted ∧ (limit = none → status.isSome))
      fun failure _ => Outside start.device.ram space handler failure := by
  have limited : ∀ blocks, limit.any (· ≤ blocks) = true → limit = none → (none : Option Trap).isSome := by
    rintro blocks reached rfl
    cases reached
  induction fuel generalizing core chain kept blocks with
  | zero =>
    unfold runFrom
    split
    · rename_i reached
      exact ⟨none, traced, rfl, limited blocks reached⟩
    · exact .inl (.inl rfl)
  | succ fuel ih =>
    unfold runFrom
    split
    · rename_i reached
      exact ⟨none, traced, rfl, limited blocks reached⟩
    · dsimp only
      rw [ends_bind]
      refine (turn_explained granular fuel traced known).weaken ?_
      intro result final explained
      cases result with
      | again chain kept => exact ih (blocks + 1) explained.1 explained.2
      | ended reason kept =>
        obtain ⟨trap, rfl, halted⟩ := explained
        exact ⟨some trap, halted, rfl, fun _ => rfl⟩

end LoopM

namespace Engine

variable {engine : Engine} {ram : Ram}

inductive Call : Engine → Engine → Prop where
  | run {τ : Type} {space : AddressSpace} {handler : TrapHandler τ} {limit : Option Nat} {fuel : Nat} {engine : Engine}
      {hart : Hart} {memory : τ} {answer : RunEnd × τ} {core : Core Engine} (granular : space.Granular)
      (ran : LoopM.run fuel space handler limit memory ⟨hart, engine⟩ = .ok answer core) : Call engine core.device
  | store {engine after : Engine} {pa : Nat} {data : List UInt8} {answer : Except OutOfRange StoreEffect}
      (ran : deviceStore pa data engine = .ok answer after) : Call engine after
  | fulfil {engine after : Engine} {count : Nat} (ran : fulfilAll engine = .ok count after) : Call engine after

inductive Reached (ram : Ram) : Engine → Prop where
  | setup {config : Config} {engine : Engine} {host : Host} (built : Engine.setup config ram host = .ok (.ok engine)) :
      Reached ram engine
  | call {engine after : Engine} (before : Reached ram engine) (call : Call engine after) : Reached ram after

theorem run_traced (granular : space.Granular) (sound : engine.Sound) (hart : Hart) (fuel : Nat) (limit : Option Nat) :
    Ends (LoopM.run fuel space handler limit memory) ⟨hart, engine⟩
      (fun answer final => ∃ status, Traced space handler ⟨hart, engine⟩ memory status final answer.2 ∧
        answer.1 = status.elim .blockLimit .halted ∧ (limit = none → status.isSome))
      fun failure _ => Outside engine.ram space handler failure :=
  LoopM.runFrom_traced granular fuel 0 (.begin sound) fun _ absent => by cases absent

theorem deviceStore_stored (sound : engine.Sound) (pa : Nat) (data : List UInt8) :
    Ends (deviceStore pa data) engine (engine.Stored pa data engine.fetchFrame)
      fun failure _ => failure = .storeEnd pa data.length ∧ hostLimit ≤ pa + data.length ∨ ¬ engine.ram.Fits := by
  unfold deviceStore
  rw [ends_bind, ends_get]
  exact store_stored sound

theorem call_sound (sound : engine.Sound) {after : Engine} (call : Call engine after) :
    after.Sound ∧ Evolves engine.ram engine.cache.frames after.ram after.cache.frames := by
  cases call with
  | run granular ran =>
    obtain ⟨status, traced, -⟩ := (run_traced granular sound _ _ _).answer ran
    exact ⟨traced.sound, traced.evolves⟩
  | store ran =>
    have stored := (deviceStore_stored sound _ _).answer ran
    exact ⟨stored.sound, stored.evolves⟩
  | fulfil ran =>
    have stays := (fulfilAll_stays sound).answer ran
    exact ⟨stays.sound, stays.evolves⟩

theorem reached_sound (reached : Reached ram engine) :
    engine.Sound ∧ engine.ram.base = ram.base ∧ engine.ram.size = ram.size := by
  induction reached with
  | setup built =>
    obtain ⟨sound, same⟩ := setup_sound built
    rw [same]
    exact ⟨sound, rfl, rfl⟩
  | call _ call ih =>
    obtain ⟨sound, base, size⟩ := ih
    obtain ⟨sound', evolves⟩ := call_sound sound call
    exact ⟨sound', evolves.base.trans base, evolves.size.trans size⟩

-- Blocks, shortcuts, chains, compiled code and its loops, forced interpretation and code that overwrites itself do not show.
-- Whatever ran, was stored or was compiled before, a run over aligned memory that comes to its end leaves hart,
-- memory and handler where a finite run of the plain machine leaves them, and the traps in between are the same.
theorem run_refines_plain (aligned : ram.base % 4096 = 0) (reached : Reached ram engine) (granular : space.Granular)
    {fuel : Nat} {limit : Option Nat} {hart : Hart} {reason : RunEnd} {final : Core Engine}
    (ran : LoopM.run fuel space handler limit memory ⟨hart, engine⟩ = .ok (reason, kept) final) :
    ∃ traps status, Plain.Run space handler ⟨hart, engine.ram⟩ memory traps status ⟨final.hart, final.device.ram⟩ kept ∧
      final.device.cache.traps = engine.cache.traps ++ traps ∧ reason = status.elim .blockLimit .halted ∧
      (limit = none → status.isSome) := by
  obtain ⟨sound, base, -⟩ := reached_sound reached
  obtain ⟨status, traced, ending, endless⟩ := (run_traced granular sound hart fuel limit).answer ran
  obtain ⟨traps, run, reported⟩ := traced.run (base.symm ▸ aligned)
  exact ⟨traps, status, run, reported, ending, endless⟩

-- A page that counts s0 down and then calls its environment, and a handler that halts there.
def countdownPage : Ram :=
  ⟨0, ([0x7d, 0x14, 0x7d, 0xfc, 0x73, 0, 0, 0] ++ List.replicate 4088 0 : List UInt8).toArray, by decide +kernel⟩

def fromThree : Hart := Hart.reset.setRaw 8 3

def halting : TrapHandler Unit := ⟨fun _ hart memory => .ok (.halt, hart, memory)⟩

theorem countdownPage_halts : ∃ engine final, Reached countdownPage engine ∧
    LoopM.run 99 .bare halting none () ⟨fromThree, engine⟩ = .ok (.halted (.exception .environmentCall), ()) final ∧
    final.device.counts.compiledInsns = 6 := by
  have computed : ∃ new, setup { promotionThreshold := 1 } countdownPage = .ok (.ok new) ∧
      ∃ answer core, LoopM.run 9 .bare halting (some 1) () ⟨fromThree, new⟩ = .ok answer core ∧
      ∃ count engine, fulfilAll core.device = .ok count engine ∧
      ∃ answer final, LoopM.run 99 .bare halting none () ⟨fromThree, engine⟩ = .ok answer final ∧
      answer = (.halted (.exception .environmentCall), ()) ∧ final.device.counts.compiledInsns = 6 := by
    decide +kernel
  obtain ⟨new, built, _, core, first, _, engine, drained, _, final, second, rfl, compiled⟩ := computed
  exact ⟨engine, final, .call (.call (.setup built) (.run .bare first)) (.fulfil drained), second, compiled⟩

theorem countdownPage_run_refines : ∃ engine final traps status, Reached countdownPage engine ∧
    LoopM.run 99 .bare halting none () ⟨fromThree, engine⟩ = .ok (.halted (.exception .environmentCall), ()) final ∧
    Plain.Run .bare halting ⟨fromThree, engine.ram⟩ () traps status ⟨final.hart, final.device.ram⟩ () ∧
    final.device.cache.traps = engine.cache.traps ++ traps ∧
    RunEnd.halted (.exception .environmentCall) = status.elim .blockLimit .halted ∧ status.isSome := by
  obtain ⟨engine, final, reached, ran, -⟩ := countdownPage_halts
  obtain ⟨traps, status, run, reported, ending, endless⟩ := run_refines_plain rfl reached .bare ran
  exact ⟨engine, final, traps, status, reached, ran, run, reported, ending, endless rfl⟩

end Engine
end TieredHart
