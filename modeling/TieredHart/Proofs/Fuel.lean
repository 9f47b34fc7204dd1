import TieredHart.Engine.Run

namespace TieredHart

variable {σ α β τ : Type} {space : AddressSpace} {pc : Word} {pa : Nat} {chain : Option Nat}

def Finished (result : EStateM.Result Failure σ α) : Prop := ∀ s, result ≠ .error .outOfFuel s

theorem Finished.ok {a : α} {s : σ} : Finished (.ok a s) := fun _ => nofun

-- An action that gives every result another one finishes with.
def Outlasts (longer shorter : EStateM Failure σ α) : Prop := ∀ s, Finished (shorter s) → longer s = shorter s

namespace Outlasts

theorem refl {action : EStateM Failure σ α} : Outlasts action action := fun _ _ => rfl

theorem bind {longer shorter : EStateM Failure σ α} {next next' : α → EStateM Failure σ β}
    (first : Outlasts longer shorter) (later : ∀ a, Outlasts (next a) (next' a)) :
    Outlasts (longer >>= next) (shorter >>= next') := by
  intro s finished
  change Finished (EStateM.bind shorter next' s) at finished
  show EStateM.bind longer next s = EStateM.bind shorter next' s
  have same := first s
  unfold EStateM.bind at finished ⊢
  cases short : shorter s with
  | ok a t =>
    rw [short] at finished same
    rw [same .ok]
    exact later a t finished
  | error e t =>
    rw [short] at finished same
    rw [same fun u spent => finished u (by cases spent; rfl)]

theorem onDataSide {longer shorter : EStateM Failure (Core DataSide) α} (lasting : Outlasts longer shorter) :
    Outlasts (LoopM.onDataSide longer) (LoopM.onDataSide shorter) := by
  intro core finished
  have same := lasting ⟨core.hart, ⟨core.device, false⟩⟩
  unfold LoopM.onDataSide at finished ⊢
  cases short : shorter ⟨core.hart, ⟨core.device, false⟩⟩ with
  | ok a c =>
    rw [short] at same
    rw [same .ok]
  | error e c =>
    rw [short] at finished same
    rw [same fun u spent => finished _ (by cases spent; rfl)]

end Outlasts

theorem ThreadedCode.runFrom_outlasts {code : Array UInt8} {bus : CodeBus σ} {entry : Entry} (more : Nat) (fuel : Nat) :
    ∀ {cursor}, Outlasts (runFrom code bus entry (fuel + more) cursor) (runFrom code bus entry fuel cursor) := by
  induction fuel with
  | zero => exact fun s finished => absurd rfl (finished s)
  | succ fuel ih =>
    intro cursor
    rw [Nat.succ_add]
    refine .bind .refl fun progress => ?_
    cases progress with
    | further cursor => exact ih
    | left exit => exact .refl

namespace LoopM

variable {handler : TrapHandler τ} {memory : τ}

theorem enterBlock_outlasts (fuel more : Nat) :
    Outlasts (enterBlock (fuel + more) space pc pa) (enterBlock fuel space pc pa) := by
  refine .bind .refl fun _ => .bind .refl fun core => ?_
  split
  · exact .refl
  · refine .bind .refl fun found => ?_
    cases found with
    | none => exact .refl
    | some block =>
      refine .bind .refl fun _ => .bind .refl fun _ => .bind .refl fun code => ?_
      exact .bind (.onDataSide (ThreadedCode.runFrom_outlasts more fuel)) fun _ => .refl

theorem turn_outlasts (fuel more : Nat) :
    Outlasts (turn (fuel + more) space handler chain memory) (turn fuel space handler chain memory) := by
  refine .bind .refl fun _ => .bind (.bind .refl fun core => ?_) fun _ => .refl
  cases chain with
  | some pa => exact .bind .refl fun _ => enterBlock_outlasts fuel more
  | none =>
    dsimp only
    split
    · exact .refl
    · cases space .fetch core.hart.pc with
      | some location => exact enterBlock_outlasts fuel more
      | none => exact .refl

theorem runFrom_outlasts {limit : Option Nat} (more fuel : Nat) :
    ∀ {blocks chain memory}, Outlasts (runFrom space handler limit (fuel + more) blocks chain memory)
      (runFrom space handler limit fuel blocks chain memory) := by
  induction fuel with
  | zero =>
    intro blocks chain memory
    unfold runFrom
    split
    · exact .refl
    · exact fun s finished => absurd rfl (finished s)
  | succ fuel ih =>
    intro blocks chain memory
    rw [Nat.succ_add]
    unfold runFrom
    split
    · exact .refl
    · refine .bind (turn_outlasts fuel more) fun result => ?_
      cases result with
      | ended reason kept => exact .refl
      | again chain kept => exact ih

end LoopM
end TieredHart
