import CellMachine.Proofs.Action

/-!
# Two actions side by side

Two programs that run side by side are in step if both end well, with the same answer, or both fail.
What then holds of the two states and of the two failures is said by two relations.

* `Action.Matches` — the outcomes of two actions are in step; **sequences are in step if their parts
  are** (`Action.Matches.bind`).
* `Action.InStep` — the outcomes are in step with the same failures, and one relation is kept;
  `Action.InStepByKind` — the same, but for the wording of the failures.
-/

namespace CellMachine.Action

variable {σ τ α β : Type}

/-- Two outcomes are in step: both are successes with the same answer and states in the relation
`Q`, or both are failures that are, with their states, in the relation `E`. -/
inductive Matches (Q : α → σ → τ → Prop) (E : Failure → Failure → σ → τ → Prop) :
    EStateM.Result Failure σ α → EStateM.Result Failure τ α → Prop
  | ok {a : α} {s : σ} {t : τ} : Q a s t → Matches Q E (.ok a s) (.ok a t)
  | error {f g : Failure} {s : σ} {t : τ} : E f g s t → Matches Q E (.error f s) (.error g t)

namespace Matches

variable {Q Q' : α → σ → τ → Prop} {E E' : Failure → Failure → σ → τ → Prop} {s : σ} {t : τ}

/-- Sequences are in step if their first parts are, and after every success of theirs the rest
is. -/
theorem bind_of_ok {P : β → σ → τ → Prop} {x : Action σ α} {y : Action τ α} {f : α → Action σ β}
    {g : α → Action τ β} (hfirst : Matches Q E (x s) (y t))
    (hrest : ∀ a s' t', x s = .ok a s' → y t = .ok a t' → Q a s' t' →
      Matches P E (f a s') (g a t')) :
    Matches P E ((x >>= f) s) ((y >>= g) t) := by
  generalize hx : x s = o at hfirst
  generalize hy : y t = o' at hfirst
  cases hfirst with
  | ok hQ =>
    rw [Action.bind_of_ok hx, Action.bind_of_ok hy]
    exact hrest _ _ _ hx hy hQ
  | error hE =>
    rw [bind_of_error hx, bind_of_error hy]
    exact .error hE

/-- Sequences are in step if their first parts are, and after every answer the rest is. -/
theorem bind {P : β → σ → τ → Prop} {x : Action σ α} {y : Action τ α} {f : α → Action σ β}
    {g : α → Action τ β} (hfirst : Matches Q E (x s) (y t))
    (hrest : ∀ a s' t', Q a s' t' → Matches P E (f a s') (g a t')) :
    Matches P E ((x >>= f) s) ((y >>= g) t) :=
  hfirst.bind_of_ok fun a s' t' _ _ h => hrest a s' t' h

/-- What follows a look at both states. -/
theorem get_bind {f : σ → Action σ α} {g : τ → Action τ α} (h : Matches Q E (f s s) (g t t)) :
    Matches Q E ((MonadState.get >>= f) s) ((MonadState.get >>= g) t) := h

/-- Both refuse, or both go on. -/
theorem refuse {c c' : Prop} [Decidable c] [Decidable c'] {failure : Failure}
    {f : β → Action σ α} {g : β → Action τ α} {x : Action σ α} {y : Action τ α} (hc : c' ↔ c)
    (hE : E failure failure s t) (h : ¬c → Matches Q E (x s) (y t)) :
    Matches Q E ((if c then (MonadExcept.throw failure : Action σ β) >>= f else x) s)
      ((if c' then (MonadExcept.throw failure : Action τ β) >>= g else y) t) := by
  by_cases hcond : c
  · rw [if_pos hcond, if_pos (hc.mpr hcond)]
    exact .error hE
  · rw [if_neg hcond, if_neg (fun h => hcond (hc.mp h))]
    exact h hcond

/-- What is in step is in step in a weaker sense. -/
theorem mono {o : EStateM.Result Failure σ α} {o' : EStateM.Result Failure τ α}
    (h : Matches Q E o o') (hQ : ∀ a s t, Q a s t → Q' a s t)
    (hE : ∀ f g s t, E f g s t → E' f g s t) : Matches Q' E' o o' := by
  cases h with
  | ok h => exact .ok (hQ _ _ _ h)
  | error h => exact .error (hE _ _ _ _ h)

end Matches

/-- Two outcomes are in step, with the same failure if they are failures, and the states stand in a
relation either way. -/
abbrev InStep (R : σ → τ → Prop) (o : EStateM.Result Failure σ α)
    (o' : EStateM.Result Failure τ α) : Prop :=
  Matches (fun _ => R) (fun f g s t => f = g ∧ R s t) o o'

/-- Two outcomes are in step, with failures of the same kinds if they are failures, and the states
stand in a relation either way. -/
abbrev InStepByKind (R : σ → τ → Prop) (o : EStateM.Result Failure σ α)
    (o' : EStateM.Result Failure τ α) : Prop :=
  Matches (fun _ => R) (fun f g s t => f.kinds = g.kinds ∧ R s t) o o'

/-- The relation that is kept holds of the states that two actions leave. -/
theorem InStepByKind.after {R : σ → τ → Prop} {x : Action σ α} {y : Action τ α} {s : σ} {t : τ}
    (h : InStepByKind R (x s) (y t)) : R (x.after s) (y.after t) := by
  unfold Action.after
  generalize x s = o, y t = o' at h
  cases h with
  | ok h => exact h
  | error h => exact h.2

end CellMachine.Action
