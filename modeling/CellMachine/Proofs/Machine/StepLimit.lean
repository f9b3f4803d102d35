import CellMachine.Proofs.Machine.Trespass
import CellMachine.Proofs.Machine.Unseen

/-!
# What the step limit does

A run counts its steps and stops when it has taken as many as it may. No instruction looks at the
counter or at the limit, so two runs that differ in their limits go the same way until the first
one has to stop. The limit cuts a run short; it never changes a run.

* `Machine.clocked` — a machine with another limit and another counter.
* `Machine.unseen_clocked` — no instruction looks at them, and so none changes them.
* `Machine.step_limited` — one step is the same under two limits that both allow it.
* `Machine.runFor_of_enough`, `Machine.runFor_cut_short` — a run under a limit that it does not
  reach, and under one that it would have to pass.
* `Machine.invoke_limited` — **a call under another limit ends in the same way, or with the
  first steps of the same run**; under any limit it ends and has taken no more steps than allowed.
-/

namespace CellMachine

open CellMachine.Action

namespace Machine

/-! ### Machines with another clock -/

/-- The machine with another step limit and another number of steps. -/
def clocked (limit : Int) (steps : Nat) (x : Machine) : Machine :=
  { x with processor := { x.processor with stepLimit := limit, steps } }

/-- The machine with another step limit. -/
def limited (x : Machine) (limit : Int64) : Machine :=
  { x with processor := { x.processor with stepLimit := limit.toInt } }

variable {limit : Int} {steps : Nat}

/-- A change of the processor that has nothing to do with the clock. -/
theorem modifyProcessor_clocked {f : Processor → Processor}
    (hf : ∀ r, f { r with stepLimit := limit, steps } = { f r with stepLimit := limit, steps }) :
    Commutes (clocked limit steps) (modifyProcessor f) := by
  intro x
  show EStateM.Result.ok () (Machine.mk (f _) x.memory) = .ok () (Machine.mk _ x.memory)
  rw [hf]

/-- What follows a look at the processor does not depend on the clock. -/
theorem getProcessor_bind_clocked {β : Type} {g : Processor → Action Machine β}
    (hsame : ∀ r, g { r with stepLimit := limit, steps } = g r)
    (hg : ∀ r, Commutes (clocked limit steps) (g r)) :
    Commutes (clocked limit steps) (getProcessor >>= g) := by
  intro x
  show g _ (clocked limit steps x) = carry _ (g x.processor x)
  rw [← hg x.processor x]
  exact congrFun (hsame x.processor) _

/-- Something that is done to the memory has nothing to do with the clock. -/
theorem onMemory_clocked {α : Type} (action : Action Memory α) :
    Commutes (clocked limit steps) (onMemory action) := by
  intro ⟨processor, memory⟩
  unfold onMemory clocked
  dsimp only
  cases action memory with
  | ok a memory' => rfl
  | error failure memory' => rfl

/-- Reading a cell has nothing to do with the clock. -/
theorem load_clocked (a : Addr) : Commutes (clocked limit steps) (load a) := by
  intro x
  have hload : (clocked limit steps x).memory.load a = x.memory.load a := rfl
  unfold load
  rw [hload]
  cases x.memory.load a with
  | ok v => rfl
  | error failure => rfl

/-- Storing a cell has nothing to do with the clock. -/
theorem store_clocked (a : Addr) (v : Cell) :
    Commutes (clocked limit steps) (store a v) := onMemory_clocked _

/-- Pushing has nothing to do with the clock. -/
theorem push_clocked (v : Cell) : Commutes (clocked limit steps) (push v) := by
  intro ⟨processor, memory⟩
  unfold push clocked
  dsimp only
  by_cases hfull : processor.sp - 1 < memory.limit
  · rw [if_pos hfull, if_pos hfull]
    rfl
  · rw [if_neg hfull, if_neg hfull]
    cases Memory.store (processor.sp - 1) v memory with
    | ok _ memory' => rfl
    | error failure memory' => rfl

/-- A call has nothing to do with the clock. -/
theorem call_clocked (target ret : Addr) :
    Commutes (clocked limit steps) (call target ret) := by
  refine .bind (onMemory_clocked _) fun span? =>
    getProcessor_bind_clocked (fun _ => rfl) fun r => ?_
  intro x
  dsimp only
  rw [pushAll_commutes push_clocked [r.codeBase, ret, r.fp] x]
  cases pushAll [r.codeBase, ret, r.fp] x with
  | ok _ y => rfl
  | error failure y => rfl

/-- Leaving an activation has nothing to do with the clock. -/
theorem leaveOne_clocked (x : Machine) :
    (clocked limit steps x).leaveOne = clocked limit steps x.leaveOne := by
  obtain ⟨⟨p, s, sp, fp, pc, codeBase, _, _, active⟩, memory⟩ := x
  cases active with
  | nil => rfl
  | cons id? rest => rfl

/-- **No instruction looks at the clock.** -/
instance unseen_clocked : Unseen (clocked limit steps) where
  look hsame hg := getProcessor_bind_clocked (hsame limit steps) hg
  update hsame := modifyProcessor_clocked (hsame limit steps)
  load := load_clocked
  store := store_clocked
  push := push_clocked
  call := call_clocked
  leaveOne := leaveOne_clocked
  sp _ := rfl
  size _ := rfl
  limit _ := rfl

/-! ### Actions without a clock -/

/-- An action does the same with every clock. -/
def Clockless {α : Type} (action : Action Machine α) : Prop :=
  ∀ limit steps, Commutes (clocked limit steps) action

namespace Clockless

variable {α : Type} {action : Action Machine α}

/-- What does the same with every clock leaves the clock alone. -/
theorem clock (h : Clockless action) (x : Machine) :
    (action.after x).processor.stepLimit = x.processor.stepLimit ∧
      (action.after x).processor.steps = x.processor.steps := by
  have hsame := (h x.processor.stepLimit x.processor.steps).after x
  exact ⟨congrArg (·.processor.stepLimit) hsame, congrArg (·.processor.steps) hsame⟩

/-- What does the same with every clock does the same under every limit. -/
theorem limited (h : Clockless action) (l : Int64) : Commutes (·.limited l) action := by
  intro x
  have hsteps := (h.clock x).2
  have hcarry : action (x.limited l) = carry (clocked l.toInt x.processor.steps) (action x) :=
    h l.toInt x.processor.steps x
  rw [hcarry]
  cases hx : action x with
  | ok a y =>
    rw [after_of_ok hx] at hsteps
    rw [← hsteps]
    rfl
  | error failure y =>
    rw [after_of_error hx] at hsteps
    rw [← hsteps]
    rfl

end Clockless

/-! ### Steps -/

variable {x : Machine} {l : Int64}

/-- **A step is the same under two limits that both allow it.** -/
theorem step_limited (hx : ¬x.spent) (hl : ¬(x.limited l).spent) :
    step (x.limited l) = carry (·.limited l) (step x) := by
  cases hfetch : x.memory.fetch x.processor.pc with
  | error failure =>
    rw [step_of_unfetched hx hfetch, step_of_unfetched (m := x.limited l) hl hfetch]
    rfl
  | ok ins =>
    have hperform : perform (x.limited l).processor.pc ins ((x.limited l).advanced ins) =
        carry (·.limited l) (perform x.processor.pc ins (x.advanced ins)) :=
      Clockless.limited (fun _ _ => perform_commutes x.processor.pc ins) l (x.advanced ins)
    rw [step_eq (m := x.limited l) hl hfetch, hperform, step_eq hx hfetch]
    cases perform x.processor.pc ins (x.advanced ins) with
    | ok ended y => rfl
    | error cause y => rfl

/-- A step that is allowed is counted, and the limit stays. -/
theorem clock_step (hx : ¬x.spent) :
    (step.after x).processor.stepLimit = x.processor.stepLimit ∧
      (step.after x).processor.steps = x.processor.steps + 1 := by
  cases hfetch : x.memory.fetch x.processor.pc with
  | error failure =>
    rw [after_of_error (step_of_unfetched hx hfetch)]
    exact ⟨rfl, rfl⟩
  | ok ins =>
    have hclock := Clockless.clock (fun _ _ => perform_commutes x.processor.pc ins) (x.advanced ins)
    have hstep := step_eq hx hfetch
    cases hperform : perform x.processor.pc ins (x.advanced ins) with
    | ok ended y =>
      rw [hperform] at hstep
      rw [after_of_ok hperform] at hclock
      rw [after_of_ok hstep]
      exact hclock
    | error cause y =>
      rw [hperform] at hstep
      rw [after_of_error hperform] at hclock
      rw [after_of_error hstep]
      exact hclock

/-- A step counts one more at most. -/
theorem steps_step (x : Machine) : x.processor.steps ≤ (step.after x).processor.steps ∧
    (step.after x).processor.steps ≤ x.processor.steps + 1 := by
  by_cases hx : x.spent
  · rw [after_of_error (step_of_spent hx)]
    exact ⟨Nat.le_refl _, Nat.le_succ _⟩
  · rw [(clock_step hx).2]
    exact ⟨Nat.le_succ _, Nat.le_refl _⟩

/-! ### Runs -/

/-- A call ends by itself: neither because of its step limit nor because its steps can no longer be
counted. -/
def Concludes : EStateM.Result Failure Machine Cell → Prop
  | .ok _ _ => True
  | .error failure _ => FailureKind.stepLimit ∉ failure.kinds ∧ failure ≠ .outOfFuel

/-- A run leaves what its first step leaves, or what the rest of it leaves. -/
theorem after_runFor (fuel : Nat) (x : Machine) :
    (runFor (fuel + 1)).after x = step.after x ∨
      ∃ y, step x = .ok false y ∧ (runFor (fuel + 1)).after x = (runFor fuel).after y := by
  obtain ⟨failure, y, hstep, hrun⟩ | ⟨y, hstep, hrun⟩ | ⟨y, hstep, hrun⟩ := runFor_cases fuel x
  · exact .inl ((after_of_error hrun).trans (after_of_error hstep).symm)
  · exact .inl ((after_of_ok hrun).trans (after_of_ok hstep).symm)
  · exact .inr ⟨y, hstep, after_congr hrun⟩

/-- A run takes no more steps than it has fuel for. -/
theorem steps_runFor (fuel : Nat) (x : Machine) :
    x.processor.steps ≤ ((runFor fuel).after x).processor.steps ∧
      ((runFor fuel).after x).processor.steps ≤ x.processor.steps + fuel := by
  induction fuel generalizing x with
  | zero => exact ⟨Nat.le_refl _, Nat.le_refl _⟩
  | succ fuel ih =>
    have hfirst := steps_step x
    obtain hover | ⟨y, hstep, hrest⟩ := after_runFor fuel x
    · rw [hover]
      omega
    · rw [after_of_ok hstep] at hfirst
      rw [hrest]
      have hlater := ih y
      omega

/-- A run counts its first step. -/
theorem steps_step_le_runFor (fuel : Nat) (x : Machine) :
    (step.after x).processor.steps ≤ ((runFor (fuel + 1)).after x).processor.steps := by
  obtain hover | ⟨y, hstep, hrest⟩ := after_runFor fuel x
  · exact Nat.le_of_eq (by rw [hover])
  · rw [hrest, after_of_ok hstep]
    exact (steps_runFor fuel y).1

/-- A run that may not take a step ends at once. -/
theorem runFor_of_spent (fuel : Nat) (hx : x.spent) : runFor (fuel + 1) x =
    .error (.machineFault x.processor.pc 0 (.stepLimit x.processor.stepLimit)) x :=
  bind_of_error (step_of_spent hx)

/-- A run that ends by itself was allowed its first step. -/
theorem Concludes.not_spent {fuel : Nat} (h : Concludes (runFor (fuel + 1) x)) : ¬x.spent := by
  intro hspent
  rw [runFor_of_spent fuel hspent] at h
  exact h.1 (List.mem_singleton.mpr rfl)

/-- A limit allows a step as long as it is not reached. -/
theorem not_spent_limited (h : l.toInt ≤ 0 ∨ x.processor.steps < l.toInt) :
    ¬(x.limited l).spent := by
  rintro ⟨hpos, hreached⟩
  change 0 < l.toInt at hpos
  change l.toInt ≤ x.processor.steps at hreached
  omega

/-- **A run that ends by itself ends in the same way under every limit that it does not pass**, if
there is fuel for it. -/
theorem runFor_of_enough (fuel : Nat) : ∀ {x : Machine} {fuel' : Nat},
    Concludes (runFor fuel x) →
    (l.toInt ≤ 0 ∨ ((runFor fuel).after x).processor.steps ≤ l.toInt) →
    ((runFor fuel).after x).processor.steps ≤ x.processor.steps + fuel' →
    runFor fuel' (x.limited l) = carry (·.limited l) (runFor fuel x) := by
  induction fuel with
  | zero =>
    intro x fuel' hends
    exact absurd rfl hends.2
  | succ fuel ih =>
    intro x fuel' hends hlimit hfuel
    have hx := hends.not_spent
    have hcount := (clock_step hx).2
    have hfirst := steps_step_le_runFor fuel x
    have hstep' := step_limited (l := l) hx (not_spent_limited (by omega))
    -- the run takes a step, so there is fuel for one
    obtain ⟨fuel', rfl⟩ : ∃ n, fuel' = n + 1 := Nat.exists_eq_succ_of_ne_zero (by omega)
    obtain ⟨failure, y, hstep, hrun⟩ | ⟨y, hstep, hrun⟩ | ⟨y, hstep, hrun⟩ := runFor_cases fuel x
    · rw [hstep] at hstep'
      rw [hrun]
      exact bind_of_error hstep'
    · rw [hstep] at hstep'
      rw [hrun]
      exact bind_of_ok hstep'
    · rw [hstep] at hstep'
      rw [after_of_ok hstep] at hcount
      rw [after_congr hrun] at hlimit hfuel
      rw [hrun] at hends ⊢
      have hrun' : runFor (fuel' + 1) (x.limited l) = runFor fuel' (y.limited l) :=
        bind_of_ok hstep'
      rw [hrun']
      exact ih hends hlimit (by omega)

/-- **A run is cut short by a limit that it would have to pass**: it has come through the same
machines until then. -/
theorem runFor_cut_short {entry : Addr} {args : List Cell} {x₀ : Machine} (hpos : 0 < l.toInt)
    (fuel : Nat) : ∀ {x : Machine} (fuel' : Nat), Visits entry args x₀ x →
    x.processor.steps ≤ l.toInt → l.toInt < ((runFor fuel).after x).processor.steps →
    l.toInt < x.processor.steps + fuel' →
    ∃ z, Visits entry args x₀ z ∧ z.processor.steps = l.toInt ∧
      runFor fuel' (x.limited l) =
        .error (.machineFault z.processor.pc 0 (.stepLimit l.toInt)) (z.limited l) := by
  induction fuel with
  | zero =>
    intro x fuel' _ hlow hpassed
    change l.toInt < x.processor.steps at hpassed
    omega
  | succ fuel ih =>
    intro x fuel' hvisits hlow hpassed hfuel
    obtain ⟨fuel', rfl⟩ : ∃ n, fuel' = n + 1 := Nat.exists_eq_succ_of_ne_zero (by omega)
    by_cases hreached : x.processor.steps = l.toInt
    · have hspent : (x.limited l).spent := ⟨hpos, Int.le_of_eq hreached.symm⟩
      exact ⟨x, hvisits, hreached, runFor_of_spent fuel' hspent⟩
    · have hfirst := steps_step x
      obtain hover | ⟨y, hstep, hrest⟩ := after_runFor fuel x
      · rw [hover] at hpassed
        omega
      · have hx := not_spent_of_step hstep
        have hstep' := step_limited (l := l) hx (not_spent_limited (by omega))
        have hcount := (clock_step hx).2
        rw [hstep] at hstep'
        rw [after_of_ok hstep] at hcount
        rw [hrest] at hpassed
        obtain ⟨z, hz, hsteps, hcut⟩ :=
          ih fuel' (hvisits.step hstep) (by omega) hpassed (by omega)
        exact ⟨z, hz, hsteps, (bind_of_ok hstep').trans hcut⟩

/-! ### Limits -/

/-- An instruction that cannot be fetched is a fault of the machine. -/
theorem fetch_error {m : Memory} {pc : Addr} {failure : Failure} (h : m.fetch pc = .error failure) :
    ∃ code cause, failure = .machineFault pc code cause := by
  unfold Memory.fetch at h
  cases hword : m.load pc with
  | error cause =>
    rw [hword] at h
    cases h
    exact ⟨_, _, rfl⟩
  | ok word =>
    rw [hword] at h
    change (if word < 0 ∨ 0xFFFF < word then _ else _) = _ at h
    split at h
    · cases h
      exact ⟨_, _, rfl⟩
    · split at h
      · cases h
        exact ⟨_, _, rfl⟩
      · split at h
        · cases h
        · cases hfirst : m.load (pc + 1) with
          | error cause =>
            rw [hfirst] at h
            cases h
            exact ⟨_, _, rfl⟩
          | ok first =>
            rw [hfirst] at h
            cases h
        · cases hfirst : m.load (pc + 1) with
          | error cause =>
            rw [hfirst] at h
            cases h
            exact ⟨_, _, rfl⟩
          | ok first =>
            cases hsecond : m.load (pc + 2) with
            | error cause =>
              rw [hfirst, hsecond] at h
              cases h
              exact ⟨_, _, rfl⟩
            | ok second =>
              rw [hfirst, hsecond] at h
              cases h

/-- No step runs out of fuel. -/
theorem step_ne_outOfFuel (x y : Machine) : step x ≠ .error .outOfFuel y := by
  intro h
  by_cases hx : x.spent
  · rw [step_of_spent hx] at h
    cases h
  cases hfetch : x.memory.fetch x.processor.pc with
  | error failure =>
    obtain ⟨code, cause, rfl⟩ := fetch_error hfetch
    rw [step_of_unfetched hx hfetch] at h
    cases h
  | ok ins =>
    rw [step_eq hx hfetch] at h
    split at h
    · cases h
    · cases h

/-- **A run with a limit ends**, and takes no more steps than it may. -/
theorem runFor_within (fuel : Nat) : ∀ {x : Machine}, 0 < x.processor.stepLimit →
    x.processor.steps ≤ x.processor.stepLimit →
    x.processor.stepLimit < x.processor.steps + fuel →
    (∀ y, runFor fuel x ≠ .error .outOfFuel y) ∧
      ((runFor fuel).after x).processor.steps ≤ x.processor.stepLimit := by
  induction fuel with
  | zero =>
    intro x _ hlow hfuel
    omega
  | succ fuel ih =>
    intro x hpos hlow hfuel
    by_cases hspent : x.spent
    · have hrun := runFor_of_spent fuel hspent
      rw [hrun, after_of_error hrun]
      exact ⟨fun _ => nofun, hlow⟩
    obtain ⟨hlimit, hcount⟩ := clock_step hspent
    have hless : x.processor.steps < x.processor.stepLimit :=
      Int.not_le.mp fun h => hspent ⟨hpos, h⟩
    obtain ⟨failure, y, hstep, hrun⟩ | ⟨y, hstep, hrun⟩ | ⟨y, hstep, hrun⟩ := runFor_cases fuel x
    · rw [after_of_error hstep] at hcount
      rw [hrun, after_of_error hrun]
      refine ⟨fun z h => ?_, by omega⟩
      cases h
      exact step_ne_outOfFuel _ _ hstep
    · rw [after_of_ok hstep] at hcount
      rw [hrun, after_of_ok hrun]
      exact ⟨fun _ => nofun, by omega⟩
    · rw [after_of_ok hstep] at hlimit hcount
      rw [hrun, after_congr hrun, ← hlimit]
      exact ih (by omega) (by omega) (by omega)

/-- A run is given fuel for one more step than its limit allows. -/
theorem run_eq (x : Machine) : run x =
    runFor (if 0 < x.processor.stepLimit then x.processor.stepLimit.toNat + 1 else endless) x :=
  rfl

/-- A run with a limit that starts from nothing. -/
theorem run_within (hsteps : x.processor.steps = 0) (hpos : 0 < x.processor.stepLimit) :
    (∀ y, run x ≠ .error .outOfFuel y) ∧
      (run.after x).processor.steps ≤ x.processor.stepLimit := by
  rw [run_eq, after_congr (run_eq x), if_pos hpos]
  exact runFor_within _ hpos (by omega) (by omega)

/-- The steps of a run that starts from nothing can be counted, whatever its limit. -/
theorem steps_run_le (hsteps : x.processor.steps = 0) (hlimit : x.processor.stepLimit = l.toInt) :
    (run.after x).processor.steps ≤ endless := by
  have hmax : l.toInt < 2 ^ 63 := Int64.toInt_lt l
  have hendless : (endless : Int) = 2 ^ 63 - 1 := by decide
  by_cases hpos : 0 < x.processor.stepLimit
  · have hwithin := (run_within hsteps hpos).2
    omega
  · have hcount := (steps_runFor endless x).2
    rw [after_congr (run_eq x), if_neg hpos]
    omega

/-- A run from nothing that ends by itself ends in the same way under every limit that it does not
pass. -/
theorem run_of_enough {l₁ : Int64} (hsteps : x.processor.steps = 0)
    (hlimit : x.processor.stepLimit = l₁.toInt) (hends : Concludes (run x))
    (henough : l.toInt ≤ 0 ∨ (run.after x).processor.steps ≤ l.toInt) :
    run (x.limited l) = carry (·.limited l) (run x) := by
  have hcounted := steps_run_le hsteps hlimit
  refine runFor_of_enough _ hends henough ?_
  change (run.after x).processor.steps ≤
    x.processor.steps + if 0 < l.toInt then l.toInt.toNat + 1 else endless
  by_cases hpos : 0 < l.toInt
  · rw [if_pos hpos]
    omega
  · rw [if_neg hpos]
    omega

/-- A run from nothing is cut short by a limit that it would have to pass. -/
theorem run_cut_short {entry : Addr} {args : List Cell} {x₀ : Machine}
    (hvisits : Visits entry args x₀ x) (hsteps : x.processor.steps = 0) (hpos : 0 < l.toInt)
    (hpassed : l.toInt < (run.after x).processor.steps) :
    ∃ z, Visits entry args x₀ z ∧ z.processor.steps = l.toInt ∧
      run (x.limited l) =
        .error (.machineFault z.processor.pc 0 (.stepLimit l.toInt)) (z.limited l) := by
  have hfuel : run (x.limited l) = runFor (l.toInt.toNat + 1) (x.limited l) := by
    rw [run_eq]
    exact congrArg (runFor · (x.limited l)) (if_pos hpos)
  rw [hfuel]
  exact runFor_cut_short hpos _ _ hvisits (by omega) hpassed (by omega)

/-! ### Calls from outside -/

variable {entry : Addr} {args : List Cell}

/-- What comes before the first step of a call does not look at the clock. -/
theorem clockless_entry (entry : Addr) (args : List Cell) : Clockless (do
    pushAll (args.reverse ++ [Int64.ofNat args.length])
    call entry returnSentinel) := by
  intro limit steps
  exact .bind (pushAll_commutes push_clocked _) fun _ => call_clocked entry returnSentinel

/-- A call gets to its first step in the same way under every limit. -/
theorem entered_limited (entry : Addr) (args : List Cell) (x : Machine) (l : Int64) :
    entered entry args (x.limited l) = carry (·.limited l) (entered entry args x) :=
  (clockless_entry entry args).limited l x.ready

/-- Before the first step of a call nothing is counted. -/
theorem clock_entered (entry : Addr) (args : List Cell) (x : Machine) :
    ((entered entry args).after x).processor.stepLimit = x.processor.stepLimit ∧
      ((entered entry args).after x).processor.steps = 0 :=
  (clockless_entry entry args).clock x.ready

/-- A push does not run out of fuel. -/
theorem pushAll_ne_outOfFuel (cells : List Cell) : ∀ x y : Machine,
    pushAll cells x ≠ .error .outOfFuel y := by
  induction cells with
  | nil =>
    intro x y
    exact nofun
  | cons v rest ih =>
    intro x y h
    obtain hpush | ⟨⟨⟩, x₁, -, hrest⟩ := error_of_bind h
    · unfold push Memory.store Memory.put at hpush
      dsimp only at hpush
      split at hpush
      · cases hpush
      · split at hpush
        · cases hpush
        · next hstore =>
          split at hstore
          · cases hstore
          · cases hstore
            cases hpush
    · exact ih x₁ y hrest

/-- A region that refuses does so for another reason. -/
theorem enter_ne_outOfFuel (a : Addr) (m m' : Memory) :
    Memory.enter a m ≠ .error .outOfFuel m' := by
  intro h
  unfold Memory.enter at h
  split at h
  · cases h
  · split at h
    · cases h
    · split at h
      · cases h
      · split at h
        · cases h
        · cases h

/-- What comes before the first step of a call does not run out of fuel. -/
theorem entered_ne_outOfFuel (x y : Machine) : entered entry args x ≠ .error .outOfFuel y := by
  intro h
  obtain hpush | ⟨⟨⟩, x₁, -, hcall⟩ := error_of_bind h
  · exact pushAll_ne_outOfFuel _ _ _ hpush
  obtain henter | ⟨span?, x₂, -, hframe⟩ := error_of_bind hcall
  · unfold onMemory at henter
    dsimp only at henter
    split at henter
    · cases henter
    · next hrefused =>
      cases henter
      exact enter_ne_outOfFuel _ _ _ hrefused
  · obtain hget | ⟨r, x₃, -, hlinkage⟩ := error_of_bind hframe
    · cases hget
    · split at hlinkage
      · next hfull =>
        cases hlinkage
        exact pushAll_ne_outOfFuel _ _ _ hfull
      · cases hlinkage

/-- A call that does not get to its first step ends there. -/
theorem invoke_of_refused {failure : Failure} {y : Machine}
    (h : entered entry args x = .error failure y) :
    invoke (some entry) args x = .error failure y.leaveAll := by
  have hstart : start entry args x = .error failure y := by
    rw [start_eq_entered]
    exact bind_of_error h
  unfold invoke
  simp only [hstart]

/-- A call that gets to its first step runs from there; then every region is left. -/
theorem invoke_of_entered {y : Machine} (h : entered entry args x = .ok () y) :
    invoke (some entry) args x = carry leaveAll (run y) := by
  have hstart : start entry args x = run y := by
    rw [start_eq_entered]
    exact bind_of_ok h
  unfold invoke
  simp only [hstart]
  cases run y with
  | ok v z => rfl
  | error failure z => rfl

/-- **A call that ends by itself ends in the same way under every limit that it does not pass.** -/
theorem invoke_of_enough {l₁ : Int64} (hlimit : x.processor.stepLimit = l₁.toInt)
    (hends : Concludes (invoke (some entry) args x))
    (henough : l.toInt ≤ 0 ∨
      ((invoke (some entry) args).after x).processor.steps ≤ l.toInt) :
    invoke (some entry) args (x.limited l) =
      carry (·.limited l) (invoke (some entry) args x) := by
  have hclock := clock_entered entry args x
  have hentered' := entered_limited entry args x l
  cases hentered : entered entry args x with
  | error failure y =>
    rw [hentered] at hentered'
    rw [invoke_of_refused hentered, invoke_of_refused hentered']
    rfl
  | ok _ y =>
    have hinvoke := invoke_of_entered hentered
    rw [hentered] at hentered'
    rw [after_of_ok hentered] at hclock
    rw [after_of_carry hinvoke] at henough
    rw [hinvoke] at hends ⊢
    have hrun : Concludes (run y) := by
      cases hrun : run y with
      | ok v z => exact trivial
      | error failure z =>
        rw [hrun] at hends
        exact hends
    rw [invoke_of_entered hentered', run_of_enough hclock.2 (hclock.1.trans hlimit) hrun henough]
    cases run y with
    | ok v z => rfl
    | error failure z => rfl

/-- **A call is cut short by a limit that it would have to pass.** -/
theorem invoke_cut_short (hpos : 0 < l.toInt)
    (hpassed : l.toInt < ((invoke (some entry) args).after x).processor.steps) :
    ∃ z, Visits entry args x z ∧ z.processor.steps = l.toInt ∧
      invoke (some entry) args (x.limited l) =
        .error (.machineFault z.processor.pc 0 (.stepLimit l.toInt)) (z.limited l).leaveAll := by
  have hclock := clock_entered entry args x
  have hentered' := entered_limited entry args x l
  cases hentered : entered entry args x with
  | error failure y =>
    rw [after_of_error hentered] at hclock
    rw [after_of_error (invoke_of_refused hentered)] at hpassed
    change l.toInt < y.processor.steps at hpassed
    omega
  | ok _ y =>
    rw [hentered] at hentered'
    rw [after_of_ok hentered] at hclock
    rw [after_of_carry (invoke_of_entered hentered)] at hpassed
    obtain ⟨z, hz, hsteps, hcut⟩ := run_cut_short (.start hentered) hclock.2 hpos hpassed
    refine ⟨z, hz, hsteps, ?_⟩
    rw [invoke_of_entered hentered', hcut]
    rfl

/-- **A call with a limit ends**, and takes no more steps than it may. -/
theorem invoke_within (entry : Addr) (args : List Cell) (hpos : 0 < x.processor.stepLimit) :
    (∀ y, invoke (some entry) args x ≠ .error .outOfFuel y) ∧
      ((invoke (some entry) args).after x).processor.steps ≤ x.processor.stepLimit := by
  have hclock := clock_entered entry args x
  cases hentered : entered entry args x with
  | error failure y =>
    have hinvoke := invoke_of_refused hentered
    rw [after_of_error hentered] at hclock
    rw [hinvoke, after_of_error hinvoke]
    refine ⟨?_, ?_⟩
    · rintro z ⟨⟩
      exact entered_ne_outOfFuel x y hentered
    · change y.processor.steps ≤ x.processor.stepLimit
      omega
  | ok _ y =>
    have hinvoke := invoke_of_entered hentered
    rw [after_of_ok hentered] at hclock
    obtain ⟨hends, hcount⟩ := run_within (x := y) hclock.2 (by omega)
    rw [after_of_carry hinvoke, hinvoke]
    refine ⟨?_, hclock.1 ▸ hcount⟩
    intro z
    cases hrun : run y with
    | ok v y' => exact nofun
    | error failure y' =>
      rintro ⟨⟩
      exact hends y' hrun

/-- The steps that a call has taken which left the machine `z`. Without a target there was none. -/
def executed (target? : Option Addr) (z : Machine) : Nat :=
  match target? with
  | none => 0
  | some _ => z.processor.steps

/-- **The step limit cuts a call short and does nothing else.** A call that ends by itself, under
whichever limit, ends in the same way under every limit that leaves it its steps: with the same
answer or failure, and with the same registers, memory and count of steps. Under any other limit it
fails with the limit, in the machine that it came to with as many steps. A call that has a limit
ends, and never takes more steps than it may. -/
theorem invoke_limited (target? : Option Addr) (args : List Cell) (x : Machine) :
    (∀ l₁ l₂ : Int64, Concludes (invoke target? args (x.limited l₁)) → ∀ k : Nat,
      executed target? ((invoke target? args).after (x.limited l₁)) = k →
      (l₂.toInt ≤ 0 ∨ k ≤ l₂.toInt →
        invoke target? args (x.limited l₂) =
          carry (·.limited l₂) (invoke target? args (x.limited l₁))) ∧
      (0 < l₂.toInt → l₂.toInt < k → ∃ entry z, target? = some entry ∧
        Visits entry args (x.limited l₁) z ∧ z.processor.steps = l₂.toInt ∧
        invoke target? args (x.limited l₂) =
          .error (.machineFault z.processor.pc 0 (.stepLimit l₂.toInt))
            (z.limited l₂).leaveAll)) ∧
    ∀ l : Int64, 0 < l.toInt →
      (∀ y, invoke target? args (x.limited l) ≠ .error .outOfFuel y) ∧
      (target?.isSome ∨ x.processor.steps ≤ l.toInt →
        ((invoke target? args).after (x.limited l)).processor.steps ≤ l.toInt) := by
  cases target? with
  | none =>
    refine ⟨fun l₁ l₂ _ k hk => ⟨fun _ => rfl, fun hpos hpassed => ?_⟩, fun l _ => ?_⟩
    · change 0 = k at hk
      omega
    · refine ⟨fun _ => nofun, fun hbefore => ?_⟩
      exact hbefore.resolve_left (by decide)
  | some entry =>
    refine ⟨fun l₁ l₂ hends k hk => ?_, fun l hpos => ?_⟩
    · change ((invoke (some entry) args).after (x.limited l₁)).processor.steps = k at hk
      subst hk
      have hlimit : (x.limited l₁).processor.stepLimit = l₁.toInt := rfl
      refine ⟨fun henough => invoke_of_enough hlimit hends henough, fun hpos hpassed => ?_⟩
      obtain ⟨z, hz, hsteps, hcut⟩ := invoke_cut_short (x := x.limited l₁) hpos hpassed
      exact ⟨entry, z, rfl, hz, hsteps, hcut⟩
    · obtain ⟨hends, hcount⟩ := invoke_within (x := x.limited l) entry args hpos
      exact ⟨hends, fun _ => hcount⟩

/-- A loop that counts down from three, in a memory without regions. It takes eight steps. -/
def sampleLoop : Machine where
  processor := {}
  memory :=
    { cells := #[Op.constP.cell, 3, Op.decP.cell, Op.jnz.cell, -2, Op.halt.cell] ++
        Array.replicate 26 0
      limit := 16 }

/-- Without a limit and with a limit of eight steps the loop ends as it does with a limit of a
hundred; with a limit of five it does not. -/
theorem invoke_limited_sample :
    Concludes (invoke (some 0) [] (sampleLoop.limited 100)) ∧
      invoke (some 0) [] (sampleLoop.limited 0) =
        carry (·.limited 0) (invoke (some 0) [] (sampleLoop.limited 100)) ∧
      invoke (some 0) [] (sampleLoop.limited 8) =
        carry (·.limited 8) (invoke (some 0) [] (sampleLoop.limited 100)) ∧
      (∃ z, Visits 0 [] (sampleLoop.limited 100) z ∧ z.processor.steps = 5 ∧
        invoke (some 0) [] (sampleLoop.limited 5) =
          .error (.machineFault z.processor.pc 0 (.stepLimit 5)) (z.limited 5).leaveAll) ∧
      ((invoke (some 0) []).after (sampleLoop.limited 5)).processor.steps ≤ 5 := by
  have hrun : invoke (some 0) [] (sampleLoop.limited 100) =
      .ok 0 ((invoke (some 0) []).after (sampleLoop.limited 100)) :=
    of_result? (by decide +kernel)
  have hends : Concludes (invoke (some 0) [] (sampleLoop.limited 100)) := by
    rw [hrun]
    exact trivial
  have hcount : executed (some 0) ((invoke (some 0) []).after (sampleLoop.limited 100)) = 8 := by
    decide +kernel
  obtain ⟨hlimits, hwithin⟩ := invoke_limited (some 0) [] sampleLoop
  obtain ⟨entry, z, hentry, hz, hsteps, hcut⟩ :=
    (hlimits 100 5 hends 8 hcount).2 (by decide) (by decide)
  cases hentry
  exact ⟨hends, (hlimits 100 0 hends 8 hcount).1 (.inl (by decide)),
    (hlimits 100 8 hends 8 hcount).1 (.inr (by decide)), ⟨z, hz, Int.ofNat.inj hsteps, hcut⟩,
    Int.ofNat_le.mp ((hwithin 5 (by decide)).2 (.inl rfl))⟩

end Machine

end CellMachine
