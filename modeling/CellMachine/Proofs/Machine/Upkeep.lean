import CellMachine.Machine.Step
import CellMachine.Proofs.Action

/-!
# What a machine does to its memory

A machine stores cells, enters regions and leaves them; it does nothing else to its memory. So a
property of memories that survives these three survives every run.

* `Upheld` — a property of memories that storing, entering and leaving preserve.
* `Machine.step_preserves` — one step preserves it, whichever instruction it executes.
* `Machine.runFor_preserves` — so does any number of steps.
* `Machine.invoke_preserves` — **a call from outside preserves it**, however the call ends.
-/

namespace CellMachine

open CellMachine.Action

/-- A property of memories that survives all that a machine does to its memory. -/
structure Upheld (P : Memory → Prop) : Prop where
  store : ∀ a v, Preserves P (Memory.store a v)
  enter : ∀ a, Preserves P (Memory.enter a)
  leave : ∀ id? m, P m → P (Memory.leave m id?)

namespace Machine

variable {α : Type} {P : Memory → Prop}

/-- The memory of a machine has a property. -/
def Over (P : Memory → Prop) (m : Machine) : Prop := P m.memory

/-! ### Parts of instructions -/

/-- The processor may change in any way. -/
@[simp] theorem modifyProcessor_preserves (f : Processor → Processor) :
    Preserves (Over P) (modifyProcessor f) := fun _ h => h

/-- Looking at the processor changes nothing. -/
@[simp] theorem getProcessor_preserves : Preserves (Over P) getProcessor := fun _ h => h

/-- Reading a cell changes nothing. -/
@[simp] theorem load_preserves (a : Addr) : Preserves (Over P) (load a) := by
  intro m h
  unfold after load
  cases m.memory.load a with
  | ok v => exact h
  | error failure => exact h

/-- What an action on the memory preserves is preserved with the processor around it. -/
theorem onMemory_preserves {x : Action Memory α} (hx : Preserves P x) :
    Preserves (Over P) (onMemory x) := by
  intro ⟨processor, memory⟩ h
  unfold after onMemory
  cases hr : x memory with
  | ok a memory' =>
    simp only [hr]
    exact hx.ok h hr
  | error failure memory' =>
    simp only [hr]
    exact hx.error h hr

/-- Pushing is storing, unless the stack is full. -/
theorem push_preserves (hP : Upheld P) (v : Cell) : Preserves (Over P) (push v) := by
  intro ⟨processor, memory⟩ h
  have hstore := hP.store (processor.sp - 1) v
  unfold after push
  by_cases hfull : processor.sp - 1 < memory.limit
  · simpa only [if_pos hfull] using h
  · simp only [if_neg hfull]
    cases hr : Memory.store (processor.sp - 1) v memory with
    | ok a memory' => exact hstore.ok h hr
    | error failure memory' => exact hstore.error h hr

/-- Pushing cells is pushing one after the other. -/
theorem pushAll_preserves (hP : Upheld P) (cells : List Cell) :
    Preserves (Over P) (pushAll cells) := by
  induction cells with
  | nil => exact .pure ()
  | cons v rest ih => exact .bind (push_preserves hP v) fun _ => ih

/-- Popping reads a cell. -/
@[simp] theorem pop_preserves : Preserves (Over P) pop := by
  exact .bind .get fun _ => .refuse (.bind (load_preserves _) fun v =>
    .bind (modifyProcessor_preserves _) fun _ => .pure v)

/-- Storing is storing in the memory. -/
theorem store_preserves (hP : Upheld P) (a : Addr) (v : Cell) : Preserves (Over P) (store a v) :=
  onMemory_preserves (hP.store a v)

/-- Adding to a cell is storing. -/
theorem addTo_preserves (hP : Upheld P) (a : Addr) (delta : Cell) :
    Preserves (Over P) (addTo a delta) :=
  .bind (load_preserves a) fun v => store_preserves hP a (v + delta)

/-- Moving the stack pointer does not touch the memory. -/
theorem reserve_preserves (count : Cell) : Preserves (Over P) (reserve count) := by
  exact .bind .get fun _ => .refuse (.refuse (modifyProcessor_preserves _))

/-- A call enters a region and pushes a frame; if there is no room for the frame it leaves the
region again. -/
theorem call_preserves (hP : Upheld P) (target ret : Addr) :
    Preserves (Over P) (call target ret) := by
  refine .bind (onMemory_preserves (hP.enter target)) fun span? =>
    .bind getProcessor_preserves fun r => ?_
  intro m h
  have hpush := pushAll_preserves hP [r.codeBase, ret, r.fp]
  unfold after
  cases hr : pushAll [r.codeBase, ret, r.fp] m with
  | ok _ m' =>
    have hm' : Over P m' := hpush.ok h hr
    simp only [hr]
    exact hm'
  | error failure m' =>
    simp only [hr]
    exact hP.leave _ _ (hpush.error h hr)

/-- Leaving the innermost activation leaves its region. -/
theorem over_leaveOne (hP : Upheld P) {m : Machine} (h : Over P m) : Over P m.leaveOne := by
  obtain ⟨processor, memory⟩ := m
  unfold leaveOne
  cases hactive : processor.active with
  | nil =>
    simp only [hactive]
    exact h
  | cons id? rest =>
    simp only [hactive]
    exact hP.leave id? memory h

/-- Leaving every activation leaves the regions one after the other. -/
theorem over_leaveAll (hP : Upheld P) {m : Machine} (h : Over P m) : Over P m.leaveAll := by
  obtain ⟨processor, memory⟩ := m
  show P (processor.active.foldl Memory.leave memory)
  change P memory at h
  induction processor.active generalizing memory with
  | nil => exact h
  | cons id? rest ih => exact ih (memory.leave id?) (hP.leave id? memory h)

/-- A return takes a frame down and leaves the innermost activation. -/
theorem ret_preserves (hP : Upheld P) : Preserves (Over P) ret := by
  have hleave : Preserves (Over P) (modify leaveOne : Action Machine Unit) :=
    .modify fun _ h => over_leaveOne hP h
  exact .bind (modifyProcessor_preserves _) fun _ => .bind pop_preserves fun _ =>
    .bind pop_preserves fun _ => .bind pop_preserves fun _ => .bind pop_preserves fun _ =>
    .bind .get fun _ => .refuse (.bind (modifyProcessor_preserves _) fun _ =>
      .bind hleave fun _ => .pure _)

/-! ### Instructions -/

/-- A computation does not touch the memory. -/
theorem compute_preserves (f : Cell → Cell → Cell) : Preserves (Over P) (compute f) :=
  modifyProcessor_preserves _

/-- A division does not touch the memory. -/
theorem divide_preserves (f : Cell → Cell → Cell) : Preserves (Over P) (divide f) := by
  exact .bind getProcessor_preserves fun _ => .refuse (compute_preserves f)

/-- The address of a frame offset is found without the memory. -/
theorem frameAddr_preserves (offset : Cell) : Preserves (Over P) (frameAddr offset) :=
  .bind getProcessor_preserves fun _ => .pure _

/-- Every instruction preserves what storing, entering and leaving preserve. -/
theorem execute_preserves (hP : Upheld P) (pc : Addr) (a b : Cell) (op : Op) :
    Preserves (Over P) (execute pc a b op) := by
  have hframe : Preserves (Over P) (frameAddr a) := frameAddr_preserves a
  cases op
  all_goals simp only [execute, setP, setS, goto, compare, branch, Preserves.pure, Preserves.throw,
    Preserves.bind, modifyProcessor_preserves, getProcessor_preserves, load_preserves,
    pop_preserves, compute_preserves, divide_preserves, hframe, reserve_preserves,
    store_preserves hP, addTo_preserves hP, push_preserves hP, call_preserves hP, implies_true]

/-- So does an instruction that can end a run. -/
theorem perform_preserves (hP : Upheld P) (pc : Addr) (ins : Fetched) :
    Preserves (Over P) (perform pc ins) := by
  unfold perform
  split
  · exact .pure true
  · exact ret_preserves hP
  · exact .bind (execute_preserves hP pc _ _ _) fun _ => .pure false

/-! ### Runs -/

/-- **One step preserves what storing, entering and leaving preserve**, whichever instruction it
executes and whether it fails or not. -/
theorem step_preserves (hP : Upheld P) : Preserves (Over P) step := by
  have hcount : Preserves (Over P) countStep := by
    exact .bind getProcessor_preserves fun _ => .refuse (modifyProcessor_preserves _)
  refine .bind hcount fun _ => .bind .get fun m => .bind (.ofExcept _) fun ins =>
    .bind (modifyProcessor_preserves _) fun _ => ?_
  intro m' h
  have hperform := perform_preserves hP m.processor.pc ins
  unfold after
  cases hr : perform m.processor.pc ins m' with
  | ok ended m'' =>
    simp only [hr]
    exact hperform.ok h hr
  | error cause m'' =>
    simp only [hr]
    exact hperform.error h hr

/-- Any number of steps preserves what one step preserves. -/
theorem runFor_preserves (hP : Upheld P) (fuel : Nat) : Preserves (Over P) (runFor fuel) := by
  induction fuel with
  | zero => exact .throw _
  | succ fuel ih =>
    refine .bind (step_preserves hP) fun ended => ?_
    exact .ite (.bind getProcessor_preserves fun _ => .pure _) ih

/-- A call from outside pushes its arguments and runs, and leaves every region at its end. -/
theorem start_preserves (hP : Upheld P) (entry : Addr) (args : List Cell) :
    Preserves (Over P) (start entry args) := by
  refine .bind (.modify fun m h => h) fun _ => .bind (pushAll_preserves hP _) fun _ =>
    .bind (push_preserves hP _) fun _ => .bind (call_preserves hP _ _) fun _ => ?_
  exact .bind getProcessor_preserves fun _ => runFor_preserves hP _

/-- **A call from outside preserves what storing, entering and leaving preserve**, however the call
ends. -/
theorem invoke_preserves (hP : Upheld P) (target? : Option Addr) (args : List Cell) :
    Preserves (Over P) (invoke target? args) := by
  intro m h
  unfold after invoke
  cases target? with
  | none => exact h
  | some entry =>
    have hstart := start_preserves hP entry args
    cases hr : start entry args m with
    | ok v m' =>
      simp only [hr]
      exact over_leaveAll hP (hstart.ok h hr)
    | error failure m' =>
      simp only [hr]
      exact over_leaveAll hP (hstart.error h hr)

end Machine

end CellMachine
