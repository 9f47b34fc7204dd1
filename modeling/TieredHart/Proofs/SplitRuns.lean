import TieredHart.Proofs.Chaining
import TieredHart.Proofs.Fuel
import TieredHart.Proofs.Refinement

namespace TieredHart

open Engine (Rechained)

variable {τ : Type} {space : AddressSpace} {handler : TrapHandler τ} {start core other middle : Core Engine}
  {memory kept now : τ} {chain : Option Nat}

theorem Alike.finished_iff {σ α : Type} {same : σ → σ → Prop} {left right : EStateM.Result Failure σ α}
    (alike : Alike same left right) : Finished left ↔ Finished right := by
  cases alike with
  | ok there => exact ⟨fun _ => .ok, fun _ => .ok⟩
  | error there =>
    constructor <;> intro finished s spent <;> cases spent <;> exact finished _ rfl

namespace LoopM

-- The places between two turns of a run: how many blocks are behind, where the last one said pc leads, and what the handler
-- keeps.
inductive Underway (space : AddressSpace) (handler : TrapHandler τ) (memory : τ) (start : Core Engine) :
    Nat → Option Nat → τ → Core Engine → Prop where
  | start : Underway space handler memory start 0 none memory start
  | again {blocks fuel : Nat} {chain chain' : Option Nat} {kept kept' : τ} {core after : Core Engine}
      (before : Underway space handler memory start blocks chain kept core)
      (turned : turn fuel space handler chain kept core = .ok (.again chain' kept') after) :
      Underway space handler memory start (blocks + 1) chain' kept' after

theorem Underway.explained {blocks : Nat} (granular : space.Granular) (sound : start.device.Sound)
    (underway : Underway space handler memory start blocks chain kept core) :
    (Turn.again chain kept).Explained space handler start memory core := by
  induction underway with
  | start => exact ⟨.begin sound, fun _ absent => by cases absent⟩
  | again _ turned ih => exact (turn_explained granular _ ih.1 ih.2).answer turned

theorem runNext_alike (fuel : Nat) (same : Core.Same Rechained core other)
    (known : ∀ pa, chain = some pa → space.Leads core.hart.pc pa) :
    Alike (Core.Same Rechained) (runNext fuel space chain core) (runNext fuel space none other) := by
  cases chain with
  | none => exact runNext_blind core other same
  | some pa =>
    obtain ⟨hart, engine⟩ := core
    obtain ⟨_, _⟩ := other
    obtain ⟨rfl, n, rfl⟩ := same
    obtain ⟨even, place, found, rfl⟩ := known pa rfl
    dsimp only at even found
    have looked : runNext fuel space none ⟨hart, engine.withChained n⟩ =
        enterBlock fuel space hart.pc place.pa ⟨hart, engine.withChained n⟩ := by
      show (if hart.pc.toNat % 2 = 1 then _ else _ : LoopM Step) _ = _
      rw [if_neg (by omega), found]
    rw [looked]
    exact enterBlock_blind ⟨hart, engine.withChained (engine.counts.chained + 1)⟩ _ ⟨rfl, n, rfl⟩

theorem turn_alike (fuel : Nat) (same : Core.Same Rechained core other)
    (known : ∀ pa, chain = some pa → space.Leads core.hart.pc pa) : Alike (Core.Same Rechained)
      (turn fuel space handler chain kept core) (turn fuel space handler none kept other) := by
  refine .bind (onEngine_blind Engine.refreshShortcuts_blind core other same) fun _ fresh fresh' refreshed same => ?_
  cases refreshed
  refine .bind (runNext_alike fuel same known) fun step s t _ there => ?_
  exact afterBlock_blind s t there

theorem runFrom_reached {limit fuel blocks : Nat} (reached : limit ≤ blocks) :
    runFrom space handler (some limit) fuel blocks chain kept = pure (.blockLimit, kept) := by
  cases fuel <;> exact if_pos (decide_eq_true reached)

theorem runFrom_succ {limit blocks : Nat} (fuel : Nat) (short : blocks < limit) :
    runFrom space handler (some limit) (fuel + 1) blocks chain kept = turn fuel space handler chain kept >>= fun
      | .ended reason kept => pure (reason, kept)
      | .again chain kept => runFrom space handler (some limit) fuel (blocks + 1) chain kept :=
  if_neg fun reached => Nat.not_le_of_lt short (of_decide_eq_true reached)

theorem runFrom_zero {limit blocks : Nat} (short : blocks < limit) :
    runFrom space handler (some limit) 0 blocks chain kept = throw .outOfFuel :=
  if_neg fun reached => Nat.not_le_of_lt short (of_decide_eq_true reached)

-- Only the distance to the limit counts, not where counting began.
theorem runFrom_alike (a b fuel : Nat) : ∀ blocks {chain kept core other}, Core.Same Rechained core other →
    Alike (Core.Same Rechained) (runFrom space handler (some (a + b)) fuel (a + blocks) chain kept core)
      (runFrom space handler (some b) fuel blocks chain kept other) := by
  induction fuel with
  | zero =>
    intro blocks chain kept core other same
    by_cases reached : b ≤ blocks
    · rw [runFrom_reached reached, runFrom_reached (Nat.add_le_add_left reached a)]
      exact .ok same
    · rw [runFrom_zero (by omega), runFrom_zero (by omega)]
      exact .error same
  | succ fuel ih =>
    intro blocks chain kept core other same
    by_cases reached : b ≤ blocks
    · rw [runFrom_reached reached, runFrom_reached (Nat.add_le_add_left reached a)]
      exact .ok same
    · rw [runFrom_succ fuel (by omega), runFrom_succ fuel (by omega)]
      refine .bind (turn_blind core other same) fun result s t _ there => ?_
      cases result with
      | ended reason kept => exact .ok there
      | again chain kept => exact ih (blocks + 1) there

theorem run_resumes (a b fuel : Nat) (known : ∀ pa, chain = some pa → space.Leads core.hart.pc pa) :
    Alike (Core.Same Rechained) (runFrom space handler (some (a + b)) fuel a chain kept core)
      (run fuel space handler (some b) kept core) := by
  have same : Core.Same Rechained core core := ⟨rfl, core.device.counts.chained, rfl⟩
  unfold run
  rcases Nat.eq_zero_or_pos b with none_left | some_left
  · rw [runFrom_reached (by omega), runFrom_reached (by omega)]
    exact .ok same
  · cases fuel with
    | zero =>
      rw [runFrom_zero (by omega), runFrom_zero some_left]
      exact .error same
    | succ fuel =>
      rw [runFrom_succ fuel (by omega), runFrom_succ fuel some_left]
      refine .bind (turn_alike fuel same known) fun result s t _ there => ?_
      cases result with
      | ended reason kept => exact .ok there
      | again chain kept => exact runFrom_alike a b fuel 1 there

theorem runFrom_passes (granular : space.Granular) (sound : start.device.Sound) (a fuel : Nat) :
    ∀ {blocks chain now core}, Underway space handler memory start blocks chain now core → blocks ≤ a →
      runFrom space handler (some a) fuel blocks chain now core = .ok (.blockLimit, kept) middle →
      ∃ rest chain', Underway space handler memory start a chain' kept middle ∧ ∀ b more,
        runFrom space handler (some (a + b)) (fuel + more) blocks chain now core =
          runFrom space handler (some (a + b)) (rest + more) a chain' kept middle := by
  induction fuel with
  | zero =>
    intro blocks chain now core underway within ran
    rcases Nat.lt_or_eq_of_le within with short | rfl
    · rw [runFrom_zero short] at ran
      cases ran
    · rw [runFrom_reached (Nat.le_refl _)] at ran
      cases ran
      exact ⟨0, chain, underway, fun _ _ => rfl⟩
  | succ fuel ih =>
    intro blocks chain now core underway within ran
    rcases Nat.lt_or_eq_of_le within with short | rfl
    · rw [runFrom_succ fuel short] at ran
      obtain ⟨result, after, turned, ran⟩ := EStateM.bind_eq_ok ran
      cases result with
      | ended reason kept =>
        obtain ⟨trap, rfl, -⟩ := (turn_explained granular fuel (underway.explained granular sound).1
          (underway.explained granular sound).2).answer turned
        cases ran
      | again chain' kept' =>
        obtain ⟨rest, last, there, passes⟩ := ih (underway.again turned) short ran
        refine ⟨rest, last, there, fun b more => ?_⟩
        have turned' : turn (fuel + more) space handler chain now core = .ok (.again chain' kept') after :=
          turned ▸ turn_outlasts fuel more core (turned ▸ .ok)
        rw [Nat.succ_add, runFrom_succ _ (by omega), EStateM.bind_ok turned']
        exact passes b more
    · rw [runFrom_reached (Nat.le_refl _)] at ran
      cases ran
      exact ⟨fuel + 1, chain, underway, fun _ _ => rfl⟩

def Comes (space : AddressSpace) (handler : TrapHandler τ) (limit : Option Nat) (memory : τ) (core : Core Engine)
    (result : EStateM.Result Failure (Core Engine) (RunEnd × τ)) : Prop :=
  Finished result ∧ ∃ fuel, run fuel space handler limit memory core = result

theorem Comes.longer {limit : Option Nat} {result : EStateM.Result Failure (Core Engine) (RunEnd × τ)}
    (comes : Comes space handler limit memory core result) :
    ∃ fuel, ∀ more, run (more + fuel) space handler limit memory core = result := by
  obtain ⟨finished, fuel, rfl⟩ := comes
  refine ⟨fuel, fun more => ?_⟩
  rw [Nat.add_comm]
  exact runFrom_outlasts more fuel core finished

end LoopM

namespace Engine

-- Four runs in a row are evaluated below.
set_option synthInstance.maxSize 512

variable {engine : Engine} {ram : Ram}

open LoopM (Comes Underway)

-- Stopping a run at a limit and taking it up again changes nothing but the count of blocks entered at a known address: the
-- hart, memory, frames, cache, queue, journal, handler and end are those of one run over both limits. The second run
-- comes to a result exactly if the one run does, failures included. An address carried from block to block is the
-- one that pc, which is even, is fetched from.
theorem run_splits (reached : Reached ram engine) (granular : space.Granular) {hart : Hart} {fuel a : Nat}
    (first : LoopM.run fuel space handler (some a) memory ⟨hart, engine⟩ = .ok (.blockLimit, kept) middle) :
    (∀ b result, Comes space handler (some b) kept middle result →
      ∃ whole, Comes space handler (some (a + b)) memory ⟨hart, engine⟩ whole ∧ Alike (Core.Same Rechained) whole result) ∧
    (∀ b whole, Comes space handler (some (a + b)) memory ⟨hart, engine⟩ whole →
      ∃ result, Comes space handler (some b) kept middle result ∧ Alike (Core.Same Rechained) whole result) ∧
    (∃ chain, Underway space handler memory ⟨hart, engine⟩ a chain kept middle) ∧
    ∀ blocks pa kept core, Underway space handler memory ⟨hart, engine⟩ blocks (some pa) kept core →
      space.Leads core.hart.pc pa := by
  have sound := (reached_sound reached).1
  obtain ⟨rest, chain, there, passes⟩ := LoopM.runFrom_passes granular sound a fuel .start (Nat.zero_le a) first
  have alike : ∀ b more, Alike (Core.Same Rechained)
      (LoopM.run (fuel + more) space handler (some (a + b)) memory ⟨hart, engine⟩)
      (LoopM.run (rest + more) space handler (some b) kept middle) := by
    intro b more
    rw [LoopM.run, passes]
    exact LoopM.run_resumes a b (rest + more) (there.explained granular sound).2
  refine ⟨?_, ?_, ⟨chain, there⟩, fun _ pa _ _ underway => (underway.explained granular sound).2 pa rfl⟩
  · intro b result comes
    obtain ⟨more, ran⟩ := comes.longer
    have resumed := ran rest ▸ alike b more
    exact ⟨_, ⟨resumed.finished_iff.mpr comes.1, _, rfl⟩, resumed⟩
  · intro b whole comes
    obtain ⟨more, ran⟩ := comes.longer
    have resumed := ran fuel ▸ alike b more
    exact ⟨_, ⟨resumed.finished_iff.mp comes.1, _, rfl⟩, resumed⟩

theorem countdownPage_run_splits : ∃ engine middle final whole, Reached countdownPage engine ∧
    LoopM.run 99 .bare halting (some 1) () ⟨fromThree, engine⟩ = .ok (.blockLimit, ()) middle ∧
    LoopM.run 9 .bare halting (some 1) () middle = .ok (.halted (.exception .environmentCall), ()) final ∧
    Comes .bare halting (some 2) () ⟨fromThree, engine⟩ (.ok (.halted (.exception .environmentCall), ()) whole) ∧
    Core.Same Rechained whole final ∧ final.device.counts.compiledInsns = 6 ∧
    ∃ chain, Underway .bare halting () ⟨fromThree, engine⟩ 1 chain () middle := by
  have computed : ∃ new, setup { promotionThreshold := 1 } countdownPage = .ok (.ok new) ∧
      ∃ answer core, LoopM.run 9 .bare halting (some 1) () ⟨fromThree, new⟩ = .ok answer core ∧
      ∃ count engine, fulfilAll core.device = .ok count engine ∧
      ∃ answer middle, LoopM.run 99 .bare halting (some 1) () ⟨fromThree, engine⟩ = .ok answer middle ∧
      answer = (.blockLimit, ()) ∧
      ∃ answer final, LoopM.run 9 .bare halting (some 1) () middle = .ok answer final ∧
      answer = (.halted (.exception .environmentCall), ()) ∧ final.device.counts.compiledInsns = 6 := by
    decide +kernel
  obtain ⟨new, built, _, core, warmed, _, engine, drained, _, middle, first, rfl, _, final, second, rfl, compiled⟩ := computed
  have reached : Reached countdownPage engine := .call (.call (.setup built) (.run .bare warmed)) (.fulfil drained)
  obtain ⟨onward, -, between, -⟩ := run_splits reached .bare first
  obtain ⟨result, comes, alike⟩ := onward 1 _ ⟨.ok, _, second⟩
  cases alike with
  | ok same => exact ⟨engine, middle, final, _, reached, first, second, comes, same, compiled, between⟩

end Engine
end TieredHart
