import TieredHart.Proofs.Refinement

namespace TieredHart.Engine

variable {engine : Engine} {ram : Ram}

-- Nothing a guest does makes the host give up. Over memory that ends below the host's limit, with its base anywhere, a run
-- fails only by its bound, by a store that ends past the last address, by a line that the address space names and that
-- does not exist, or by its handler; a store by a device and the waiting compilations always come to an answer. In
-- particular no violation, assertion, bound, register number or shift amount is ever found wrong.
theorem failures_outside (fits : ram.Fits) (reached : Reached ram engine) :
    (∀ {τ : Type} (space : AddressSpace) (handler : TrapHandler τ) (limit : Option Nat) (fuel : Nat) (hart : Hart)
      (memory : τ) (failure : Failure) (after : Core Engine), space.Granular →
      LoopM.run fuel space handler limit memory ⟨hart, engine⟩ = .error failure after →
        failure = .outOfFuel ∨ (∃ pa len, failure = .storeEnd pa len ∧ hostLimit ≤ pa + len) ∨
        (failure = .interruptLine ∧
          ∃ kind va place code, space kind va = some place ∧ place.irq = some code ∧ 64 ≤ code) ∨
        ∃ trap hart kept, handler.handle trap hart kept = .error failure) ∧
    (∀ pa data, (data ≠ [] → pa + data.length < hostLimit) →
      ∃ answer after, deviceStore pa data engine = .ok answer after) ∧
    ∃ count after, fulfilAll engine = .ok count after := by
  obtain ⟨sound, base, size⟩ := reached_sound reached
  have fits' : engine.ram.Fits := by
    unfold Ram.Fits at fits ⊢
    omega
  refine ⟨?_, ?_, ?_⟩
  · intro τ space handler limit fuel hart memory failure after granular failed
    rcases (run_traced granular sound hart fuel limit).failure failed with (fuel | excused) | own
    · exact .inl fuel
    · rcases excused with unfit | stored | line
      · exact absurd fits' unfit
      · exact .inr (.inl stored)
      · exact .inr (.inr (.inl line))
    · exact .inr (.inr (.inr own))
  · intro pa data bounded
    by_cases empty : data = []
    · subst empty
      exact ⟨_, _, rfl⟩
    have answers := (deviceStore_stored sound pa data).mono (fun _ _ stored => stored) fun _ _ failed => by
      rcases failed with ⟨-, beyond⟩ | unfit
      · exact absurd (bounded empty) (Nat.not_lt_of_le beyond)
      · exact unfit fits'
    obtain ⟨answer, after, ran, -⟩ := answers.answers
    exact ⟨answer, after, ran⟩
  · have answers := (fulfilAll_stays sound).mono (fun _ _ stays => stays) fun _ _ unfit => unfit fits'
    obtain ⟨count, after, ran, -⟩ := answers.answers
    exact ⟨count, after, ran⟩

-- Memory whose first page is cut: the countdown starts two bytes into it.
def cutPage : Ram := { countdownPage with base := 2 }

theorem cutPage_compiled : ∃ engine, Reached cutPage engine ∧ engine.cache.installed.length = 1 := by
  have computed : ∃ new, setup { promotionThreshold := 1 } cutPage = .ok (.ok new) ∧
      ∃ answer core, LoopM.run 9 .bare halting (some 1) () ⟨{ fromThree with pc := 2 }, new⟩ = .ok answer core ∧
      ∃ count engine, fulfilAll core.device = .ok count engine ∧ engine.cache.installed.length = 1 := by
    decide +kernel
  obtain ⟨new, built, _, core, ran, _, engine, drained, installed⟩ := computed
  exact ⟨engine, .call (.call (.setup built) (.run .bare ran)) (.fulfil drained), installed⟩

theorem cutPage_failures_outside : ∃ engine, Reached cutPage engine ∧ engine.cache.installed.length = 1 ∧
    (∀ limit fuel hart failure after, LoopM.run fuel .bare halting limit () ⟨hart, engine⟩ = .error failure after →
      failure = .outOfFuel ∨ ∃ pa len, failure = .storeEnd pa len ∧ hostLimit ≤ pa + len) ∧
    (∃ answer after, deviceStore 2 [0] engine = .ok answer after) ∧ ∃ count after, fulfilAll engine = .ok count after := by
  obtain ⟨engine, reached, installed⟩ := cutPage_compiled
  have fits : cutPage.base + cutPage.size < hostLimit := by decide +kernel
  obtain ⟨runs, stores, drained⟩ := failures_outside fits reached
  refine ⟨engine, reached, installed, ?_, stores 2 [0] (fun _ => by decide), drained⟩
  intro limit fuel hart failure after failed
  rcases runs .bare halting limit fuel hart () failure after .bare failed with fuel | stored | line | own
  · exact .inl fuel
  · exact .inr stored
  · obtain ⟨-, kind, va, place, code, found, named, -⟩ := line
    cases found
    cases named
  · obtain ⟨trap, hart, kept, handled⟩ := own
    cases handled

end TieredHart.Engine
