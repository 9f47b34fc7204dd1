import TieredHart.Failure

namespace TieredHart

variable {ε σ α β : Type} {action : EStateM ε σ α} {s t : σ} {a : α} {e : ε} {good good' : α → σ → Prop}
  {bad bad' : ε → σ → Prop}

-- What an action comes to from a state: an answer with a new state, or an error with one. An error is not excluded, it
-- only has to be one of the bad ends.
def Ends (action : EStateM ε σ α) (s : σ) (good : α → σ → Prop) (bad : ε → σ → Prop) : Prop :=
  match action s with
  | .ok a t => good a t
  | .error e t => bad e t

theorem Ends.answer (ends : Ends action s good bad) (ran : action s = .ok a t) : good a t := by
  simpa only [Ends, ran] using ends

theorem Ends.failure (ends : Ends action s good bad) (failed : action s = .error e t) : bad e t := by
  simpa only [Ends, failed] using ends

theorem Ends.intro (answered : ∀ a t, action s = .ok a t → good a t)
    (failed : ∀ e t, action s = .error e t → bad e t) : Ends action s good bad := by
  unfold Ends
  split
  · rename_i ran; exact answered _ _ ran
  · rename_i broke; exact failed _ _ broke

theorem Ends.mono (ends : Ends action s good bad) (wider : ∀ a t, good a t → good' a t)
    (looser : ∀ e t, bad e t → bad' e t) : Ends action s good' bad' :=
  .intro (fun _ _ ran => wider _ _ (ends.answer ran)) (fun _ _ failed => looser _ _ (ends.failure failed))

theorem Ends.weaken (ends : Ends action s good bad) (wider : ∀ a t, good a t → good' a t) :
    Ends action s good' bad := ends.mono wider fun _ _ same => same

theorem Ends.answers (ends : Ends action s good fun _ _ => False) : ∃ a t, action s = .ok a t ∧ good a t := by
  cases ran : action s with
  | ok a t => exact ⟨a, t, rfl, ends.answer ran⟩
  | error e t => exact (ends.failure ran).elim

@[simp] theorem ends_pure : Ends (pure a) s good bad ↔ good a s := Iff.rfl

@[simp] theorem ends_throw : Ends (throw e : EStateM ε σ α) s good bad ↔ bad e s := Iff.rfl

@[simp] theorem ends_get {good : σ → σ → Prop} : Ends (get : EStateM ε σ σ) s good bad ↔ good s s := Iff.rfl

@[simp] theorem ends_set {good : PUnit → σ → Prop} : Ends (set t : EStateM ε σ PUnit) s good bad ↔ good ⟨⟩ t := Iff.rfl

@[simp] theorem ends_modifyGet {f : σ → α × σ} :
    Ends (modifyGet f : EStateM ε σ α) s good bad ↔ good (f s).1 (f s).2 := Iff.rfl

@[simp] theorem ends_modify {f : σ → σ} {good : PUnit → σ → Prop} :
    Ends (modify f : EStateM ε σ PUnit) s good bad ↔ good ⟨⟩ (f s) := Iff.rfl

@[simp] theorem ends_bind {next : α → EStateM ε σ β} {good : β → σ → Prop} :
    Ends (action >>= next) s good bad ↔ Ends action s (fun a t => Ends (next a) t good bad) bad := by
  show Ends (EStateM.bind action next) s good bad ↔ _
  unfold Ends EStateM.bind
  cases action s <;> rfl

@[simp] theorem ends_map {f : α → β} {good : β → σ → Prop} :
    Ends (f <$> action) s good bad ↔ Ends action s (fun a t => good (f a) t) bad := by
  show Ends (EStateM.map f action) s good bad ↔ _
  unfold Ends EStateM.map
  cases action s <;> rfl

@[simp] theorem ends_ofExcept_ok : Ends (MonadExcept.ofExcept (.ok a) : EStateM ε σ α) s good bad ↔ good a s := Iff.rfl

@[simp] theorem ends_ofExcept_error :
    Ends (MonadExcept.ofExcept (.error e) : EStateM ε σ α) s good bad ↔ bad e s := Iff.rfl

theorem ends_ofExcept {result : Except ε α} : Ends (MonadExcept.ofExcept result : EStateM ε σ α) s good bad ↔
    (∀ a, result = .ok a → good a s) ∧ ∀ e, result = .error e → bad e s := by
  cases result <;> simp

-- A property of actions that doing one after the other keeps.
structure Sequenced (holds : ∀ {α : Type}, EStateM ε σ α → Prop) : Prop where
  pure {α : Type} (a : α) : holds (Pure.pure a : EStateM ε σ α)
  throw {α : Type} (e : ε) : holds (MonadExcept.throw e : EStateM ε σ α)
  bind {α β : Type} {action : EStateM ε σ α} {next : α → EStateM ε σ β} (first : holds action)
    (later : ∀ a, holds (next a)) : holds (action >>= next)

namespace Sequenced

variable {holds : ∀ {α : Type}, EStateM ε σ α → Prop} (keeps : Sequenced @holds)

include keeps

theorem ofExcept (result : Except ε α) : holds (MonadExcept.ofExcept result : EStateM ε σ α) := by
  cases result with
  | ok a => exact keeps.pure a
  | error e => exact keeps.throw e

theorem view {part : σ → β} {next : β → EStateM ε σ α} (seen : holds (get >>= fun s => Pure.pure (part s)))
    (later : ∀ b, holds (next b)) : holds (get >>= fun s => next (part s)) := by
  show holds ((get >>= fun s => Pure.pure (part s)) >>= next)
  exact keeps.bind seen later

end Sequenced

def thereafter (action : EStateM Failure σ α) (s : σ) (next : α → σ → List β) : List β :=
  match action s with
  | .ok a t => next a t
  | .error .. => []

theorem thereafter_ok {action : EStateM Failure σ α} {s t : σ} {a : α} {next : α → σ → List β} (ran : action s = .ok a t) :
    thereafter action s next = next a t := by
  unfold thereafter
  rw [ran]

theorem Ends.thereafter {action : EStateM Failure σ α} {s : σ} {next : α → σ → List β} {good : α → σ → Prop}
    {bad : Failure → σ → Prop} {shown : β → Prop} (ends : Ends action s good bad)
    (seen : ∀ a t, good a t → ∀ b ∈ next a t, shown b) : ∀ b ∈ thereafter action s next, shown b := by
  intro b member
  unfold TieredHart.thereafter at member
  split at member
  · rename_i a t ran
    exact seen a t (ends.answer ran) b member
  · cases member

-- Whether a fixed run comes to a good answer can be evaluated; one that may be refused has to be accepted.
instance decidableAnswer [∀ a t, Decidable (good a t)] : Decidable (∃ a t, action s = .ok a t ∧ good a t) :=
  match action s with
  | .ok a t => decidable_of_iff (good a t) (by simp [and_assoc])
  | .error .. => isFalse (by simp)

instance decidableAccepted {action : EStateM ε σ (Except β α)} [∀ a t, Decidable (good a t)] :
    Decidable (∃ a t, action s = .ok (.ok a) t ∧ good a t) :=
  match action s with
  | .ok (.ok a) t => decidable_of_iff (good a t) (by simp [and_assoc])
  | .ok (.error _) _ => isFalse (by simp)
  | .error .. => isFalse (by simp)

instance decidableFailure [∀ e t, Decidable (bad e t)] : Decidable (∃ e t, action s = .error e t ∧ bad e t) :=
  match action s with
  | .ok .. => isFalse (by simp)
  | .error e t => decidable_of_iff (bad e t) (by simp [and_assoc])

instance decidableMade {result : Except ε (Except β α)} {good : α → Prop} [∀ a, Decidable (good a)] :
    Decidable (∃ a, result = .ok (.ok a) ∧ good a) :=
  match result with
  | .ok (.ok a) => decidable_of_iff (good a) (by simp)
  | .ok (.error _) => isFalse (by simp)
  | .error _ => isFalse (by simp)

end TieredHart
