import CellMachine.Failure

/-!
# Taking actions apart

An action is a function of the state, and a sequence of actions runs its second part on the state
that the first one leaves. The lemmas here say so once: `bind_of_ok` and `bind_of_error` compute a
sequence whose first part is known, `ok_of_bind` and `error_of_bind` recover the parts of a
sequence from its outcome.

`after` is the state in which an action leaves things, and `Preserves` says that a property of the
state survives an action, however it ends; a sequence preserves what its parts preserve. `Commutes`
says that an action does the same before and after a change of the state, which it does not look at.

`runAll` does any number of things one after the other. What each of them preserves holds along the
whole run (`runAll_preserves`).
-/

namespace CellMachine.Action

variable {σ α β : Type}

/-- After a first part that ends well the second part runs on the state that is left. -/
theorem bind_of_ok {x : Action σ α} {f : α → Action σ β} {s s₁ : σ} {a : α}
    (h : x s = .ok a s₁) : (x >>= f) s = f a s₁ := by
  show EStateM.bind x f s = f a s₁
  unfold EStateM.bind
  rw [h]

/-- A failure of the first part is the failure of the sequence. -/
theorem bind_of_error {x : Action σ α} {f : α → Action σ β} {s s₁ : σ} {failure : Failure}
    (h : x s = .error failure s₁) : (x >>= f) s = .error failure s₁ := by
  show EStateM.bind x f s = .error failure s₁
  unfold EStateM.bind
  rw [h]

/-- A sequence that ends well has two parts that do. -/
theorem ok_of_bind {x : Action σ α} {f : α → Action σ β} {s s' : σ} {b : β}
    (h : (x >>= f) s = .ok b s') : ∃ a s₁, x s = .ok a s₁ ∧ f a s₁ = .ok b s' := by
  rcases hx : x s with ⟨a, s₁⟩ | ⟨failure, s₁⟩
  · exact ⟨a, s₁, rfl, (bind_of_ok hx).symm.trans h⟩
  · rw [bind_of_error hx] at h
    cases h

/-- A sequence fails in its first part or in its second. -/
theorem error_of_bind {x : Action σ α} {f : α → Action σ β} {s s' : σ} {failure : Failure}
    (h : (x >>= f) s = .error failure s') :
    x s = .error failure s' ∨ ∃ a s₁, x s = .ok a s₁ ∧ f a s₁ = .error failure s' := by
  rcases hx : x s with ⟨a, s₁⟩ | ⟨cause, s₁⟩
  · exact .inr ⟨a, s₁, rfl, (bind_of_ok hx).symm.trans h⟩
  · rw [bind_of_error hx] at h
    cases h
    exact .inl rfl

/-- What ends well after a refusal under a condition was not refused. -/
theorem ok_of_refuse {c : Prop} [Decidable c] {failure : Failure} {f : β → Action σ α}
    {y : Action σ α} {s s' : σ} {a : α}
    (h : (if c then (MonadExcept.throw failure : Action σ β) >>= f else y) s = .ok a s') :
    ¬c ∧ y s = .ok a s' := by
  split at h
  · cases h
  · next hc => exact ⟨hc, h⟩

/-- A result that ends well as an action is a value, and the state stays. -/
theorem ok_of_ofExcept {r : Except Failure α} {s s' : σ} {a : α} (h : ofExcept r s = .ok a s') :
    r = .ok a ∧ s' = s := by
  cases r with
  | ok b =>
    cases h
    exact ⟨rfl, rfl⟩
  | error failure => cases h

/-- A result that is a value is an action that ends well. -/
@[simp] theorem ofExcept_ok (a : α) (s : σ) : ofExcept (.ok a) s = .ok a s := rfl

/-! ### States after actions -/

/-- The state that an action leaves, whether it ends well or fails. -/
def after (x : Action σ α) (s : σ) : σ :=
  match x s with
  | .ok _ s' | .error _ s' => s'

/-- After an action that ends well there is the state that it ends with. -/
theorem after_of_ok {x : Action σ α} {s s' : σ} {a : α} (h : x s = .ok a s') : x.after s = s' := by
  unfold after
  rw [h]

/-- After an action that fails there is the state that it fails with. -/
theorem after_of_error {x : Action σ α} {s s' : σ} {failure : Failure}
    (h : x s = .error failure s') : x.after s = s' := by
  unfold after
  rw [h]

/-- Two actions with the same outcome leave the same state. -/
theorem after_congr {x y : Action σ α} {s t : σ} (h : x s = y t) : x.after s = y.after t := by
  unfold after
  rw [h]

/-- What an action that ends well gives, with the state that it leaves. -/
def result? (x : Action σ α) (s : σ) : Option (α × σ) :=
  match x s with
  | .ok a s' => some (a, s')
  | .error _ _ => none

/-- An action that gives something ends well. -/
theorem of_result? {x : Action σ α} {s s' : σ} {a : α} (h : x.result? s = some (a, s')) :
    x s = .ok a s' := by
  unfold result? at h
  split at h
  · next hx =>
    cases h
    exact hx
  · cases h

/-- A sequence gives what its second part gives on what the first part leaves. -/
theorem result?_bind (x : Action σ α) (f : α → Action σ β) (s : σ) :
    (x >>= f).result? s = (x.result? s).bind fun r => (f r.1).result? r.2 := by
  cases hx : x s with
  | ok a s' => simp only [result?, bind_of_ok hx, hx, Option.bind_some]
  | error cause s' => simp only [result?, bind_of_error hx, hx, Option.bind_none]

/-- A result that can be seen as an option is a success. -/
theorem ok_of_toOption {ε : Type} {x : Except ε α} {a : α} (h : x.toOption = some a) :
    x = .ok a := by
  cases x with
  | ok b => exact congrArg Except.ok (Option.some.inj h)
  | error e => cases h

/-- A property of the state survives an action, whether it ends well or fails. -/
def Preserves (P : σ → Prop) (x : Action σ α) : Prop := ∀ s, P s → P (x.after s)

namespace Preserves

variable {P : σ → Prop}

/-- What is preserved holds of the state that an action ends with. -/
theorem ok {x : Action σ α} (hx : Preserves P x) {s s' : σ} {a : α} (h : P s)
    (hs : x s = .ok a s') : P s' := after_of_ok hs ▸ hx s h

/-- What is preserved holds of the state that an action fails with. -/
theorem error {x : Action σ α} (hx : Preserves P x) {s s' : σ} {failure : Failure} (h : P s)
    (hs : x s = .error failure s') : P s' := after_of_error hs ▸ hx s h

/-- Answering leaves the state alone. -/
@[simp] theorem pure (a : α) : Preserves P (Pure.pure a : Action σ α) := fun _ h => h

/-- Failing leaves the state alone. -/
@[simp] theorem throw (failure : Failure) :
    Preserves P (MonadExcept.throw failure : Action σ α) := fun _ h => h

/-- Looking at the state leaves it alone. -/
@[simp] theorem get : Preserves P (MonadState.get : Action σ σ) := fun _ h => h

/-- A result leaves the state alone. -/
@[simp] theorem ofExcept (r : Except Failure α) : Preserves P (Action.ofExcept r) := by
  intro s h
  cases r with
  | ok a => exact h
  | error failure => exact h

/-- A change of the state preserves what the change preserves. -/
theorem modify {f : σ → σ} (hf : ∀ s, P s → P (f s)) :
    Preserves P (modify f : Action σ PUnit) := fun s h => hf s h

/-- A sequence preserves what both of its parts preserve. -/
theorem bind {x : Action σ α} {f : α → Action σ β} (hx : Preserves P x)
    (hf : ∀ a, Preserves P (f a)) : Preserves P (x >>= f) := by
  intro s h
  rcases hs : x s with ⟨a, s₁⟩ | ⟨failure, s₁⟩
  · have hafter : (x >>= f).after s = (f a).after s₁ := by
      unfold after
      rw [bind_of_ok hs]
    rw [hafter]
    exact hf a s₁ (hx.ok h hs)
  · rw [after_of_error (bind_of_error hs)]
    exact hx.error h hs

/-- What follows a look at the state may rely on what was seen. -/
theorem get_bind {f : σ → Action σ β} (hf : ∀ s, P s → Preserves P (f s)) :
    Preserves P (MonadState.get >>= f) := fun s h => hf s h s h

/-- A choice preserves what both of its branches preserve. -/
theorem ite {c : Prop} [Decidable c] {x y : Action σ α} (hx : Preserves P x)
    (hy : Preserves P y) : Preserves P (if c then x else y) := by
  split
  · exact hx
  · exact hy

/-- Nothing is done after a failure. -/
theorem throw_bind (failure : Failure) (f : β → Action σ α) :
    Preserves P ((MonadExcept.throw failure : Action σ β) >>= f) := fun _ h => h

/-- A refusal under a condition preserves what the rest preserves. -/
theorem refuse {c : Prop} [Decidable c] {failure : Failure} {f : β → Action σ α} {y : Action σ α}
    (hy : Preserves P y) :
    Preserves P (if c then (MonadExcept.throw failure : Action σ β) >>= f else y) :=
  .ite (.throw_bind failure f) hy

end Preserves

/-! ### Changes of the state that do not show -/

section Commutes

variable {f : σ → σ}

/-- An outcome with a change of the state that is left. -/
def carry (f : σ → σ) : EStateM.Result Failure σ α → EStateM.Result Failure σ α
  | .ok a s => .ok a (f s)
  | .error failure s => .error failure (f s)

/-- What is left of an outcome with a change is what was left, changed. -/
theorem after_of_carry {x y : Action σ α} {s t : σ} (h : x s = carry f (y t)) :
    x.after s = f (y.after t) := by
  unfold after
  rw [h]
  cases y t with
  | ok a t' => rfl
  | error failure t' => rfl

/-- An action does the same before and after a change of the state. -/
def Commutes (f : σ → σ) (x : Action σ α) : Prop := ∀ s, x (f s) = carry f (x s)

namespace Commutes

/-- The change can be made before or after. -/
theorem after {x : Action σ α} (h : Commutes f x) (s : σ) : x.after (f s) = f (x.after s) :=
  after_of_carry (h s)

/-- Answering does not look at the state. -/
@[simp] theorem pure (a : α) : Commutes f (Pure.pure a : Action σ α) := fun _ => rfl

/-- Failing does not look at the state. -/
@[simp] theorem throw (failure : Failure) :
    Commutes f (MonadExcept.throw failure : Action σ α) := fun _ => rfl

/-- A result does not look at the state. -/
@[simp] theorem ofExcept (r : Except Failure α) : Commutes f (Action.ofExcept r) := by
  intro s
  cases r with
  | ok a => rfl
  | error failure => rfl

/-- A sequence commutes if its parts do. -/
theorem bind {x : Action σ α} {g : α → Action σ β} (hx : Commutes f x)
    (hg : ∀ a, Commutes f (g a)) : Commutes f (x >>= g) := by
  intro s
  have h := hx s
  cases hr : x s with
  | ok a s₁ =>
    rw [hr] at h
    rw [bind_of_ok hr, bind_of_ok h]
    exact hg a s₁
  | error failure s₁ =>
    rw [hr] at h
    rw [bind_of_error hr, bind_of_error h]
    rfl

/-- What follows a look at the state depends on what stays the same. -/
theorem get_bind {g : σ → Action σ β} (hsame : ∀ s, g (f s) = g s)
    (hg : ∀ s, Commutes f (g s)) : Commutes f (MonadState.get >>= g) := by
  intro s
  show g (f s) (f s) = carry f (g s s)
  rw [hsame]
  exact hg s s

/-- A change of the state commutes with another one. -/
theorem modify {g : σ → σ} (hg : ∀ s, g (f s) = f (g s)) :
    Commutes f (modify g : Action σ PUnit) := by
  intro s
  show EStateM.Result.ok PUnit.unit (g (f s)) = .ok PUnit.unit (f (g s))
  rw [hg]

/-- A choice commutes if its branches do. -/
theorem ite {c : Prop} [Decidable c] {x y : Action σ α} (hx : Commutes f x)
    (hy : Commutes f y) : Commutes f (if c then x else y) := by
  split
  · exact hx
  · exact hy

/-- A refusal under a condition commutes if the rest does. -/
theorem refuse {c : Prop} [Decidable c] {failure : Failure} {g : β → Action σ α} {y : Action σ α}
    (hy : Commutes f y) :
    Commutes f (if c then (MonadExcept.throw failure : Action σ β) >>= g else y) :=
  .ite (fun _ => rfl) hy

end Commutes

end Commutes

/-! ### Runs -/

variable {κ δ : Type}

/-- Makes calls one after the other and records what was done. A call that is refused is passed
over; after a crash there is no next call. -/
def runAll (perform : κ → Action σ Unit) (record : κ → σ → List δ) :
    List κ → σ → Except Failure (List δ × σ)
  | [], s => .ok ([], s)
  | call :: rest, s =>
    match perform call s with
    | .ok () s' =>
      (runAll perform record rest s').map fun (log, last) => (record call s ++ log, last)
    | .error failure s' =>
      if failure.crashed then .error failure else runAll perform record rest s'

/-- What every call preserves holds along a run, for the log that grows with it. -/
theorem runAll_preserves {perform : κ → Action σ Unit} {record : κ → σ → List δ}
    {P : List δ → σ → Prop}
    (hok : ∀ {log s s' call}, P log s → perform call s = .ok () s' → P (log ++ record call s) s')
    (herror : ∀ {log s s' call failure}, P log s → perform call s = .error failure s' →
      failure.crashed ∨ s' = s) :
    (calls : List κ) → ∀ {s s' : σ} {log more : List δ},
      runAll perform record calls s = .ok (more, s') → P log s → P (log ++ more) s'
  | [], s, s', log, more, hrun, h => by
    cases hrun
    rwa [List.append_nil]
  | call :: rest, s, s', log, more, hrun, h => by
    unfold runAll at hrun
    split at hrun
    · next s₁ hcall =>
      rcases hrest : runAll perform record rest s₁ with failure | ⟨later, last⟩
      · rw [hrest] at hrun
        cases hrun
      · rw [hrest] at hrun
        cases hrun
        rw [← List.append_assoc]
        exact runAll_preserves hok herror rest hrest (hok h hcall)
    · next failure s₁ hcall =>
      split at hrun
      · cases hrun
      · next hcrash =>
        rcases herror h hcall with hc | rfl
        · exact absurd hc hcrash
        · exact runAll_preserves hok herror rest hrun h

end CellMachine.Action
