import CellMachine.Machine.Step
import CellMachine.Proofs.Action

/-!
# Changes that no instruction sees

An instruction reads registers and cells, the size of the memory and the limit of the stack. It does
not look at the counter of steps or at what the memory keeps on record. A machine may be changed in
such a place before an instruction or after it.

* `Machine.Unseen` — a change that the primitive actions of a machine do not see.
* `Machine.perform_commutes` — **no instruction sees such a change.**
-/

namespace CellMachine

open CellMachine.Action

namespace Machine

/-- A change of a machine that its primitive actions do not see. What they do with the processor has
nothing to do with its clock, which the change may set. -/
class Unseen (f : Machine → Machine) : Prop where
  look : ∀ {β : Type} {g : Processor → Action Machine β},
    (∀ limit steps r, g { r with stepLimit := limit, steps } = g r) → (∀ r, Commutes f (g r)) →
    Commutes f (getProcessor >>= g)
  update : ∀ {g : Processor → Processor},
    (∀ limit steps r, g { r with stepLimit := limit, steps } =
      { g r with stepLimit := limit, steps }) →
    Commutes f (modifyProcessor g)
  load : ∀ a, Commutes f (load a)
  store : ∀ a v, Commutes f (store a v)
  push : ∀ v, Commutes f (push v)
  call : ∀ target ret, Commutes f (call target ret)
  leaveOne : ∀ x, (f x).leaveOne = f x.leaveOne
  sp : ∀ x, (f x).processor.sp = x.processor.sp
  size : ∀ x, (f x).memory.size = x.memory.size
  limit : ∀ x, (f x).memory.limit = x.memory.limit

attribute [simp] Unseen.load Unseen.store Unseen.push Unseen.call

variable {f : Machine → Machine}

/-- Pushing cells is pushing one after the other. -/
theorem pushAll_commutes (hpush : ∀ v, Commutes f (push v)) (cells : List Cell) :
    Commutes f (pushAll cells) := by
  induction cells with
  | nil => exact .pure ()
  | cons v rest ih => exact .bind (hpush v) fun _ => ih

variable [Unseen f]

/-- Adding to a cell is reading and storing it. -/
@[simp] theorem addTo_commutes (a : Addr) (delta : Cell) : Commutes f (addTo a delta) :=
  .bind (Unseen.load a) fun v => Unseen.store a (v + delta)

/-- Setting `P` does not see the change. -/
@[simp] theorem setP_commutes (v : Cell) : Commutes f (setP v) := Unseen.update fun _ _ _ => rfl

/-- Setting `S` does not see the change. -/
@[simp] theorem setS_commutes (v : Cell) : Commutes f (setS v) := Unseen.update fun _ _ _ => rfl

/-- A jump does not see the change. -/
@[simp] theorem goto_commutes (a : Addr) : Commutes f (goto a) := Unseen.update fun _ _ _ => rfl

/-- Exchanging the registers does not see the change. -/
@[simp] theorem exchange_commutes :
    Commutes f (modifyProcessor fun r => { r with p := r.s, s := r.p }) :=
  Unseen.update fun _ _ _ => rfl

/-- Popping looks at the stack pointer, the size of the memory and a cell. -/
@[simp] theorem pop_commutes : Commutes f pop := by
  refine .get_bind (fun x => ?_) fun x => .refuse (.bind (Unseen.load _) fun v => ?_)
  · rw [Unseen.size, Unseen.sp]
  · exact .bind (Unseen.update fun _ _ _ => rfl) fun _ => .pure v

/-- Moving the stack pointer looks at the size of the memory and at its limit. -/
@[simp] theorem reserve_commutes (count : Cell) : Commutes f (reserve count) := by
  refine .get_bind (fun x => ?_) fun x => .refuse (.refuse (Unseen.update fun _ _ _ => rfl))
  rw [Unseen.size, Unseen.sp, Unseen.limit]

/-- A return looks at the size of the memory and at cells. -/
@[simp] theorem ret_commutes : Commutes f ret := by
  refine .bind (Unseen.update fun _ _ _ => rfl) fun _ => .bind pop_commutes fun _ =>
    .bind pop_commutes fun _ => .bind pop_commutes fun _ => .bind pop_commutes fun _ =>
    .get_bind (fun x => ?_) fun x => .refuse ?_
  · rw [Unseen.size, Unseen.sp]
  · exact .bind (Unseen.update fun _ _ _ => rfl) fun _ =>
      .bind (.modify Unseen.leaveOne) fun _ => .pure _

/-- A computation looks at the registers. -/
@[simp] theorem compute_commutes (g : Cell → Cell → Cell) : Commutes f (compute g) :=
  Unseen.update fun _ _ _ => rfl

/-- A comparison looks at the registers. -/
@[simp] theorem compare_commutes (g : Cell → Cell → Bool) : Commutes f (compare g) :=
  compute_commutes _

/-- A division looks at the registers. -/
@[simp] theorem divide_commutes (g : Cell → Cell → Cell) : Commutes f (divide g) :=
  Unseen.look (fun _ _ _ => rfl) fun _ => .refuse (compute_commutes g)

/-- A jump under a condition looks at the registers. -/
@[simp] theorem branch_commutes (pc : Addr) (distance : Cell) (g : Cell → Cell → Bool) :
    Commutes f (branch pc distance g) := by
  refine Unseen.update fun limit steps r => ?_
  by_cases htaken : g r.p r.s = true
  · simp [htaken]
  · simp [htaken]

/-- The address of a frame offset is found by the frame pointer. -/
@[simp] theorem frameAddr_commutes (offset : Cell) : Commutes f (frameAddr offset) :=
  Unseen.look (fun _ _ _ => rfl) fun _ => .pure _

/-- An instruction that goes on does not see the change. -/
theorem execute_commutes (pc : Addr) (a b : Cell) (op : Op) : Commutes f (execute pc a b op) := by
  cases op
  all_goals simp [execute, Commutes.bind, Unseen.look]

/-- **No instruction sees the change.** -/
theorem perform_commutes (pc : Addr) (ins : Fetched) : Commutes f (perform pc ins) := by
  unfold perform
  split
  · exact .pure true
  · exact ret_commutes
  · exact .bind (execute_commutes _ _ _ _) fun _ => .pure false

end Machine

end CellMachine
