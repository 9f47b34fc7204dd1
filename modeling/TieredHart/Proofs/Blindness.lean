import TieredHart.Proofs.StepCases

namespace TieredHart

variable {ε σ α β : Type} {same : σ → σ → Prop}

inductive Alike (same : σ → σ → Prop) : EStateM.Result ε σ α → EStateM.Result ε σ α → Prop where
  | ok {a : α} {s t : σ} (there : same s t) : Alike same (.ok a s) (.ok a t)
  | error {e : ε} {s t : σ} (there : same s t) : Alike same (.error e s) (.error e t)

-- An action that does not look at what such states differ in.
def Blind (same : σ → σ → Prop) (action : EStateM ε σ α) : Prop := ∀ s t, same s t → Alike same (action s) (action t)

theorem Alike.bind {left right : EStateM ε σ α} {next next' : α → EStateM ε σ β} {s t : σ}
    (first : Alike same (left s) (right t))
    (later : ∀ a s' t', left s = .ok a s' → same s' t' → Alike same (next a s') (next' a t')) :
    Alike same ((left >>= next) s) ((right >>= next') t) := by
  show Alike same (EStateM.bind left next s) (EStateM.bind right next' t)
  unfold EStateM.bind
  revert first later
  generalize left s = here
  generalize right t = there
  intro first later
  cases first with
  | ok there => exact later _ _ _ rfl there
  | error there => exact .error there

namespace Blind

theorem pure {a : α} : Blind same (Pure.pure a : EStateM ε σ α) := fun _ _ there => .ok there

theorem throw {e : ε} : Blind same (throw e : EStateM ε σ α) := fun _ _ there => .error there

theorem bind {action : EStateM ε σ α} {next : α → EStateM ε σ β} (first : Blind same action)
    (later : ∀ a, Blind same (next a)) : Blind same (action >>= next) :=
  fun s t there => (first s t there).bind fun a s' t' _ => later a s' t'

theorem sequenced : Sequenced fun {α} (action : EStateM ε σ α) => Blind same action :=
  ⟨fun _ => .pure, fun _ => .throw, .bind⟩

theorem ofExcept {result : Except ε α} : Blind same (MonadExcept.ofExcept result : EStateM ε σ α) :=
  sequenced.ofExcept result

theorem modify {change : σ → σ} (keeps : ∀ s t, same s t → same (change s) (change t)) :
    Blind same (modify change : EStateM ε σ PUnit) := fun s t there => .ok (keeps s t there)

theorem get_bind {next : σ → EStateM ε σ α} (unseen : ∀ s t, same s t → next s = next t)
    (later : ∀ s, Blind same (next s)) : Blind same (get >>= next) := by
  intro s t there
  show Alike same (next s s) (next t t)
  rw [← unseen s t there]
  exact later s s t there

theorem ite {condition : Prop} [Decidable condition] {yes no : EStateM ε σ α} (positive : Blind same yes)
    (negative : Blind same no) : Blind same (if condition then yes else no) := by
  split
  · exact positive
  · exact negative

end Blind

def Core.Same (same : σ → σ → Prop) (core other : Core σ) : Prop := core.hart = other.hart ∧ same core.device other.device

def Attached.Same (same : σ → σ → Prop) (s t : Attached σ) : Prop := s.lines = t.lines ∧ same s.device t.device

structure Bus.Blind (same : σ → σ → Prop) (bus : Bus σ) : Prop where
  load {va : Word} {width : Width} : TieredHart.Blind (Attached.Same same) (bus.load va width)
  store {va : Word} {width : Width} {value : Word} : TieredHart.Blind (Attached.Same same) (bus.store va width value)

structure CodeBus.Blind (same : σ → σ → Prop) (bus : CodeBus σ) : Prop extends bus.toBus.Blind same where
  poll : ∀ hart d e, same d e → (bus.poll hart d).1 = (bus.poll hart e).1 ∧ same (bus.poll hart d).2 (bus.poll hart e).2
  mustLeave : ∀ d e, same d e → bus.mustLeave d = bus.mustLeave e

namespace Blind

theorem onBus {action : EStateM Failure (Attached σ) α} (blind : Blind (Attached.Same same) action) :
    Blind (Core.Same same) (Core.onBus action) := by
  rintro ⟨hart, d⟩ ⟨_, e⟩ ⟨rfl, there⟩
  have alike := blind ⟨hart.mip, d⟩ ⟨hart.mip, e⟩ ⟨rfl, there⟩
  unfold Core.onBus
  dsimp only
  generalize action ⟨hart.mip, d⟩ = left at alike ⊢
  generalize action ⟨hart.mip, e⟩ = right at alike ⊢
  cases alike with
  | ok after => exact .ok ⟨congrArg (fun lines => { hart with mip := lines }) after.1, after.2⟩
  | error after => exact .error ⟨congrArg (fun lines => { hart with mip := lines }) after.1, after.2⟩

theorem modifyHart {change : Hart → Hart} : Blind (Core.Same same) (Core.modifyHart change) :=
  .modify fun _ _ there => ⟨congrArg change there.1, there.2⟩

theorem updateHart {change : Hart → Except Failure Hart} : Blind (Core.Same same) (Core.updateHart change) := by
  rintro ⟨hart, d⟩ ⟨_, e⟩ ⟨rfl, there⟩
  unfold Core.updateHart
  dsimp only
  cases change hart with
  | ok after => exact .ok ⟨rfl, there⟩
  | error failure => exact .error ⟨rfl, there⟩

theorem getCore {next : Core σ → EStateM Failure (Core σ) α}
    (unseen : ∀ hart d e, same d e → next ⟨hart, d⟩ = next ⟨hart, e⟩)
    (later : ∀ core, Blind (Core.Same same) (next core)) : Blind (Core.Same same) (get >>= next) := by
  refine .get_bind ?_ later
  rintro ⟨hart, d⟩ ⟨_, e⟩ ⟨rfl, there⟩
  exact unseen hart d e there

end Blind

theorem execute_blind {bus : Bus σ} (blind : bus.Blind same) {insn : Instruction} {pc : Word} :
    Blind (Core.Same same) (execute bus insn pc) := by
  refine execute_kept Blind.sequenced bus insn pc (fun view => ?_) (fun _ => .modifyHart) (fun _ => .updateHart)
    (fun _ _ _ => .onBus blind.load) fun _ _ _ _ => .onBus blind.store
  rintro ⟨hart, d⟩ ⟨_, e⟩ ⟨rfl, there⟩
  exact .ok ⟨rfl, there⟩

namespace ThreadedCode

variable {bus : CodeBus σ} {entry : Entry}

theorem poll_blind (blind : bus.Blind same) : Blind (Core.Same same) (poll bus) := by
  rintro ⟨hart, d⟩ ⟨_, e⟩ ⟨rfl, there⟩
  obtain ⟨answer, after⟩ := blind.poll hart d e there
  show Alike (Core.Same same) (.ok (bus.poll hart d).1 ⟨hart, _⟩) (.ok (bus.poll hart e).1 ⟨hart, _⟩)
  rw [answer]
  exact .ok ⟨rfl, after⟩

theorem runFrom_blind (blind : bus.Blind same) {code : Array UInt8} (fuel : Nat) {cursor : Cursor} :
    Blind (Core.Same same) (runFrom code bus entry fuel cursor) := by
  refine runFrom_kept Blind.sequenced (fun _ => .modifyHart) (poll_blind blind) (fun yes no => ?_)
    (fun _ _ => execute_blind blind.toBlind) fuel
  rintro ⟨hart, d⟩ ⟨_, e⟩ ⟨rfl, there⟩
  show Alike _ ((if bus.mustLeave d then _ else _ : EStateM Failure (Core σ) _) _)
    ((if bus.mustLeave e then _ else _ : EStateM Failure (Core σ) _) _)
  rw [← blind.mustLeave d e there]
  split
  · exact yes _ _ ⟨rfl, there⟩
  · exact no _ _ ⟨rfl, there⟩

end ThreadedCode
end TieredHart
