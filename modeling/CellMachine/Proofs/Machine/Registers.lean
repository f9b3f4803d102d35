import CellMachine.Machine.Step
import CellMachine.Proofs.Action

/-!
# Registers that an instruction keeps

Most instructions change `P`, `S` and the stack pointer of the processor and nothing else of it: the
program counter is behind the instruction already, and the frame pointer, the base of the running
routine and the activations belong to calls and returns.

* `Processor.Steady` — a part of the processor that the three registers have no part in.
* `Machine.Shows` — the part has a value.
* `Machine.execute_shows` — **an instruction that is neither a jump nor a call keeps every such
  part.**
-/

namespace CellMachine

open CellMachine.Action

variable {β : Type}

/-- A part of the processor that does not depend on `P`, `S` and the stack pointer. -/
def Processor.Steady (g : Processor → β) : Prop :=
  ∀ (r : Processor) p s sp, g { r with p, s, sp } = g r

namespace Machine

/-- A part of the processor has a value. -/
def Shows (g : Processor → β) (v : β) (x : Machine) : Prop := g x.processor = v

variable {g : Processor → β} {v : β}

/-- A change of the processor that keeps the part. -/
theorem modifyProcessor_shows {f : Processor → Processor} (hf : ∀ r, g (f r) = g r) :
    Preserves (Shows g v) (modifyProcessor f) := fun x h => (hf x.processor).trans h

/-- Looking at the processor changes nothing. -/
@[simp] theorem getProcessor_shows : Preserves (Shows g v) getProcessor := fun _ h => h

/-- Reading a cell changes nothing. -/
@[simp] theorem load_shows (a : Addr) : Preserves (Shows g v) (load a) := by
  intro x h
  unfold after load
  cases x.memory.load a with
  | ok u => exact h
  | error failure => exact h

/-- The memory has no part in the processor. -/
theorem onMemory_shows {α : Type} (action : Action Memory α) :
    Preserves (Shows g v) (onMemory action) := by
  intro ⟨processor, memory⟩ h
  unfold after onMemory
  cases hr : action memory with
  | ok u memory' =>
    simp only [hr]
    exact h
  | error failure memory' =>
    simp only [hr]
    exact h

/-- Storing changes the memory alone. -/
@[simp] theorem store_shows (a : Addr) (u : Cell) : Preserves (Shows g v) (store a u) :=
  onMemory_shows _

/-- Adding to a cell changes the memory alone. -/
@[simp] theorem addTo_shows (a : Addr) (delta : Cell) : Preserves (Shows g v) (addTo a delta) :=
  .bind (load_shows a) fun u => store_shows a (u + delta)

/-- Finding a frame offset changes nothing. -/
@[simp] theorem frameAddr_shows (offset : Cell) : Preserves (Shows g v) (frameAddr offset) :=
  .bind getProcessor_shows fun _ => .pure _

section Steady

variable (hg : Processor.Steady g)

include hg

/-- Setting `P` keeps the part. -/
theorem setP_shows (u : Cell) : Preserves (Shows g v) (setP u) :=
  modifyProcessor_shows fun r => hg r u r.s r.sp

/-- Setting `S` keeps the part. -/
theorem setS_shows (u : Cell) : Preserves (Shows g v) (setS u) :=
  modifyProcessor_shows fun r => hg r r.p u r.sp

/-- Exchanging the registers keeps the part. -/
theorem exchange_shows :
    Preserves (Shows g v) (modifyProcessor fun r => { r with p := r.s, s := r.p }) :=
  modifyProcessor_shows fun r => hg r r.s r.p r.sp

/-- Computing keeps the part. -/
theorem compute_shows (f : Cell → Cell → Cell) : Preserves (Shows g v) (compute f) :=
  modifyProcessor_shows fun r => hg r (f r.p r.s) r.s r.sp

/-- Dividing keeps the part. -/
theorem divide_shows (f : Cell → Cell → Cell) : Preserves (Shows g v) (divide f) :=
  .bind getProcessor_shows fun _ => .refuse (compute_shows hg f)

/-- Pushing keeps the part. -/
theorem push_shows (u : Cell) : Preserves (Shows g v) (push u) := by
  intro ⟨processor, memory⟩ h
  have hsp : g { processor with sp := processor.sp - 1 } = v :=
    (hg processor processor.p processor.s _).trans h
  unfold after push
  by_cases hfull : processor.sp - 1 < memory.limit
  · simp only [if_pos hfull]
    exact h
  · simp only [if_neg hfull]
    cases Memory.store (processor.sp - 1) u memory with
    | ok _ memory' => exact hsp
    | error failure memory' => exact hsp

/-- Popping keeps the part. -/
theorem pop_shows : Preserves (Shows g v) pop := by
  refine .bind .get fun _ => .refuse (.bind (load_shows _) fun u => .bind ?_ fun _ => .pure u)
  exact modifyProcessor_shows fun r => hg r r.p r.s (r.sp + 1)

/-- Moving the stack pointer keeps the part. -/
theorem reserve_shows (count : Cell) : Preserves (Shows g v) (reserve count) := by
  refine .bind .get fun m => .refuse (.refuse ?_)
  exact modifyProcessor_shows fun r => hg r r.p r.s (m.processor.sp - count)

/-- **An instruction that is neither a jump nor a call keeps every steady part of the
processor.** -/
theorem execute_shows {op : Op} (hlabel : Kind.label ∉ op.slots) (hcalla : op ≠ .calla) (pc : Addr)
    (first second : Cell) : Preserves (Shows g v) (execute pc first second op) := by
  cases op
  case call | jump | jrel | jzer | jnz | jeq | jneq => exact absurd (by decide) hlabel
  case calla => exact absurd rfl hcalla
  all_goals simp [execute, compare, Preserves.bind, setP_shows hg, setS_shows hg, exchange_shows hg,
    compute_shows hg, divide_shows hg, push_shows hg, pop_shows hg, reserve_shows hg]

end Steady

end Machine

end CellMachine
