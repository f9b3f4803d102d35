import CellMachine.Proofs.Action
import CellMachine.Source.Argument

/-!
# What failures have in common

`Reports P` says of a result that it is a value or a failure with the property `P`, and
`Action.Reports P` says of an action that all its failures have the property, whatever the state is.
There is one lemma for each way in which results and actions are put together; so what a long action
can report is told from what its parts can report, and none of them has to be run.

The property of interest here is `Failure.blamesLabel`: one of the kinds of the failure is that the
name of a label is none. `Unblaming` and `Action.Unblaming` are about what never fails for that.
-/

namespace CellMachine

/-- Whether a failure is, or comes from, the refusal of a label's name. -/
def Failure.blamesLabel (failure : Failure) : Bool := failure.kinds.contains .labelName

/-- What does not blame the name of a label does not have its kind. -/
theorem Failure.labelName_notMem {failure : Failure} (h : failure.blamesLabel = false) :
    .labelName ∉ failure.kinds := by
  simpa [blamesLabel] using h

variable {α β σ τ : Type} {P : Failure → Prop}

/-! ### Results -/

/-- Every failure of a result has a property. -/
def Reports (P : Failure → Prop) (r : Except Failure α) : Prop :=
  ∀ failure, r = .error failure → P failure

namespace Reports

/-- A value is no failure. -/
theorem ok (a : α) : Reports P (.ok a) := fun _ h => nomatch h

/-- A failure with the property. -/
theorem error {failure : Failure} (h : P failure) :
    Reports P (.error failure : Except Failure α) := by
  intro f hf
  cases hf
  exact h

/-- A weaker property. -/
theorem mono {Q : Failure → Prop} {r : Except Failure α} (hr : Reports P r)
    (hPQ : ∀ failure, P failure → Q failure) : Reports Q r := fun failure h =>
  hPQ failure (hr failure h)

/-- A sequence fails in its first part or in its second, which may rely on the first. -/
theorem bind {r : Except Failure α} {f : α → Except Failure β} (hr : Reports P r)
    (hf : ∀ a, r = .ok a → Reports P (f a)) : Reports P (r >>= f) := by
  cases r with
  | error failure => exact error (hr failure rfl)
  | ok a => exact hf a rfl

/-- A value that is turned into another one. -/
theorem map {r : Except Failure α} (hr : Reports P r) (f : α → β) : Reports P (r.map f) := by
  cases r with
  | error failure => exact error (hr failure rfl)
  | ok a => exact ok (f a)

/-- A failure inside another one. -/
theorem mapError {r : Except Failure α} (hr : Reports P r) {f : Failure → Failure}
    (hf : ∀ failure, P failure → P (f failure)) : Reports P (r.mapError f) := by
  cases r with
  | error failure => exact error (hf failure (hr failure rfl))
  | ok a => exact ok a

/-- A choice between two results. -/
theorem ite {c : Prop} [Decidable c] {r r' : Except Failure α} (hr : c → Reports P r)
    (hr' : ¬c → Reports P r') : Reports P (if c then r else r') := by
  split
  · next hc => exact hr hc
  · next hc => exact hr' hc

/-- Results one after the other, up to the first that is none. -/
theorem mapM {f : α → Except Failure β} {as : List α} (hf : ∀ a ∈ as, Reports P (f a)) :
    Reports P (as.mapM f) := by
  induction as with
  | nil => exact ok []
  | cons a rest ih =>
    rw [List.mapM_cons]
    exact bind (hf a (List.mem_cons_self ..)) fun b _ =>
      bind (ih fun a' ha' => hf a' (List.mem_cons_of_mem a ha')) fun bs _ => ok (b :: bs)

end Reports

/-- A result that does not blame the name of a label. -/
abbrev Unblaming (r : Except Failure α) : Prop :=
  Reports (fun failure => failure.blamesLabel = false) r

/-! ### Actions -/

namespace Action

/-- Every failure of an action has a property. -/
def Reports (P : Failure → Prop) (x : Action σ α) : Prop :=
  ∀ s failure s', x s = .error failure s' → P failure

namespace Reports

/-- What has an answer in every state does not fail. -/
theorem of_ok {x : Action σ α} (h : ∀ s, ∃ a s', x s = .ok a s') : Reports P x := by
  intro s failure s' hs
  obtain ⟨a, s₁, ha⟩ := h s
  rw [ha] at hs
  cases hs

/-- Answering is no failure. -/
theorem pure (a : α) : Reports P (Pure.pure a : Action σ α) := of_ok fun s => ⟨a, s, rfl⟩

/-- Looking at the state is no failure. -/
theorem get : Reports P (MonadState.get : Action σ σ) := of_ok fun s => ⟨s, s, rfl⟩

/-- Changing the state is no failure. -/
theorem modify (f : σ → σ) : Reports P (modify f : Action σ PUnit) := of_ok fun s => ⟨⟨⟩, f s, rfl⟩

/-- Failing with the property. -/
theorem throw {failure : Failure} (h : P failure) :
    Reports P (MonadExcept.throw failure : Action σ α) := by
  intro s f s' hs
  cases hs
  exact h

/-- A result fails as an action as it does by itself. -/
theorem ofExcept {r : Except Failure α} (hr : CellMachine.Reports P r) :
    Reports P (Action.ofExcept r : Action σ α) := by
  cases r with
  | ok a => exact pure a
  | error failure => exact throw (hr failure rfl)

/-- A sequence fails in its first part or in its second. -/
theorem bind {x : Action σ α} {f : α → Action σ β} (hx : Reports P x)
    (hf : ∀ a, Reports P (f a)) : Reports P (x >>= f) := by
  intro s failure s' hs
  rcases error_of_bind hs with hfirst | ⟨a, s₁, -, hsecond⟩
  · exact hx s failure s' hfirst
  · exact hf a s₁ failure s' hsecond

/-- A result and what is done with it, which may rely on the result. -/
theorem ofExcept_bind {r : Except Failure α} {f : α → Action σ β} (hr : CellMachine.Reports P r)
    (hf : ∀ a, r = .ok a → Reports P (f a)) : Reports P (Action.ofExcept r >>= f) := by
  cases r with
  | ok a => exact hf a rfl
  | error failure =>
    intro s f s' hs
    cases hs
    exact hr failure rfl

/-- A choice between two actions. -/
theorem ite {c : Prop} [Decidable c] {x y : Action σ α} (hx : Reports P x) (hy : Reports P y) :
    Reports P (if c then x else y) := by
  split
  · exact hx
  · exact hy

/-- A refusal under a condition, and what comes after it. -/
theorem refuse {c : Prop} [Decidable c] {failure : Failure} {f : β → Action σ α} {y : Action σ α}
    (h : P failure) (hy : Reports P y) :
    Reports P (if c then (MonadExcept.throw failure : Action σ β) >>= f else y) := by
  split
  · intro s f s' hs
    cases hs
    exact h
  · exact hy

/-- A failure that is told where it comes from. -/
theorem atPlace {x : Action σ α} (hx : Reports P x) (hP : ∀ pos failure, P failure →
    P (.atLine pos failure)) (pos : Position) : Reports P (Action.at pos x) := by
  intro s failure s' hs
  unfold Action.at at hs
  split at hs
  · cases hs
  · next cause _ hcause =>
    cases hs
    exact hP pos cause (hx s cause _ hcause)

end Reports

/-- An action that never blames the name of a label. -/
abbrev Unblaming (x : Action σ α) : Prop :=
  Reports (fun failure => failure.blamesLabel = false) x

end Action

end CellMachine
