import CellMachine.Machine.Step
import CellMachine.Proofs.Action
import CellMachine.Proofs.Operand.Resolve

/-!
# Where jumps and calls lead

The instructions with a label slot are the call within a routine, the jump, and the jumps by a
distance. This module says what one step of the machine does with them.

* `Op.takes` — whether such an instruction transfers control, given the two registers.
* `Op.destination` — where it leads: an absolute operand counts from the running routine, a relative
  one from its own cell.
* `step_eq`, `step_of_spent`, `step_of_unfetched` — what a step comes to.
* `runFor_cases` — what a run comes to after its first step.
* `step_of_jump` — a jump never fails, and continues at its destination if it is taken.
* `pc_of_step` — **a transfer that succeeds continues at its destination**, the call included.
-/

namespace CellMachine

namespace Op

/-- Whether an instruction with a label slot transfers control. -/
def takes (op : Op) (p s : Cell) : Bool :=
  match op with
  | .call | .jump | .jrel => true
  | .jzer => p == 0
  | .jnz => p != 0
  | .jeq => p == s
  | .jneq => p != s
  | _ => false

/-- Where the instruction at `pc` leads with the label operand `a`. -/
def destination (op : Op) (codeBase pc : Addr) (a : Cell) : Addr :=
  if op.patch = .absolute then codeBase + a else pc + 1 + a

/-- The instructions with a label slot. -/
theorem cases_of_label {op : Op} (h : Kind.label ∈ op.slots) :
    op = .call ∨ op = .jump ∨ op = .jrel ∨ op = .jzer ∨ op = .jnz ∨ op = .jeq ∨ op = .jneq := by
  revert h
  cases op <;> decide

/-- An opcode is a cell of sixteen bits. -/
theorem cell_range (op : Op) : ¬ (op.cell < 0 ∨ 0xFFFF < op.cell) := by
  cases op <;> decide

end Op

namespace Memory

/-- Cells stand in memory from an address on. -/
def Holds (m : Memory) (base : Addr) (cells : List Cell) : Prop :=
  ∀ (i : Nat) v, cells[i]? = some v → m.load (base + Int64.ofNat i) = .ok v

/-- An instruction with a label slot is fetched together with its operand. -/
theorem fetch_of_label {m : Memory} {pc : Addr} {op : Op} {a : Cell}
    (hlabel : Kind.label ∈ op.slots) (hop : m.load pc = .ok op.cell)
    (ha : m.load (pc + 1) = .ok a) : m.fetch pc = .ok { op, first := a } := by
  have hslots : op.slots.length = 1 := by
    rw [Op.slots_of_label hlabel]
    rfl
  have hcode : Op.ofCode? op.code = some op := Op.ofCode?_code op
  have hload (v : Cell) (f : Failure → Failure) : (Except.ok v).mapError f = .ok v := rfl
  unfold fetch
  simp only [hop, ha, hload]
  change (if op.cell < 0 ∨ 0xFFFF < op.cell then _ else _) = _
  rw [if_neg op.cell_range, Op.opcodeOf_cell, hcode]
  simp only [hslots]
  rfl

end Memory

namespace Machine

/-- The run has taken all the steps that it may take. -/
def spent (m : Machine) : Prop :=
  0 < m.processor.stepLimit ∧ m.processor.stepLimit ≤ m.processor.steps

instance (m : Machine) : Decidable m.spent := inferInstanceAs (Decidable (_ ∧ _))

/-- The machine with one step counted. -/
def counted (m : Machine) : Machine :=
  { m with processor := { m.processor with steps := m.processor.steps + 1 } }

/-- The machine that executes the instruction `ins`, which it has fetched. -/
def advanced (m : Machine) (ins : Fetched) : Machine :=
  { m with processor :=
    { m.processor with
      steps := m.processor.steps + 1
      pc := m.processor.pc + Int64.ofNat ins.op.width } }

/-- A step is counted unless the run has taken all its steps. -/
theorem countStep_eq (m : Machine) :
    countStep m =
      if m.spent then
        .error (.machineFault m.processor.pc 0 (.stepLimit m.processor.stepLimit)) m
      else .ok () { m with processor :=
        { m.processor with steps := m.processor.steps + 1 } } := by
  have hget : getProcessor m = .ok m.processor m := rfl
  unfold countStep
  rw [Action.bind_of_ok hget]
  by_cases h : m.spent
  · have hlimit : 0 < m.processor.stepLimit ∧ m.processor.stepLimit ≤ m.processor.steps := h
    rw [if_pos h]
    simp only [if_pos hlimit]
    exact Action.bind_of_error rfl
  · have hlimit : ¬ (0 < m.processor.stepLimit ∧ m.processor.stepLimit ≤ m.processor.steps) := h
    rw [if_neg h]
    simp only [if_neg hlimit]
    rfl

/-- A step fetches the instruction at the program counter and performs it. -/
theorem step_eq {m : Machine} {ins : Fetched} (hsteps : ¬ m.spent)
    (hfetch : m.memory.fetch m.processor.pc = .ok ins) :
    step m = match perform m.processor.pc ins (m.advanced ins) with
      | .ok ended m' => .ok ended m'
      | .error cause m' => .error (.machineFault m.processor.pc ins.op.code cause) m' := by
  have hcount : countStep m = .ok () { m with processor :=
      { m.processor with steps := m.processor.steps + 1 } } := by
    rw [countStep_eq, if_neg hsteps]
  unfold step
  rw [Action.bind_of_ok hcount]
  refine (Action.bind_of_ok rfl).trans ?_
  simp only [hfetch]
  refine (Action.bind_of_ok (Action.ofExcept_ok ins _)).trans ?_
  exact Action.bind_of_ok rfl

/-- There is no step left. -/
theorem step_of_spent {m : Machine} (hspent : m.spent) :
    step m =
      .error (.machineFault m.processor.pc 0 (.stepLimit m.processor.stepLimit)) m := by
  refine Action.bind_of_error ?_
  rw [countStep_eq, if_pos hspent]

/-- A step that finds no instruction is counted, and changes nothing else. -/
theorem step_of_unfetched {m : Machine} {failure : Failure} (hsteps : ¬m.spent)
    (hfetch : m.memory.fetch m.processor.pc = .error failure) :
    step m = .error failure m.counted := by
  have hcount : countStep m = .ok () m.counted := by
    rw [countStep_eq, if_neg hsteps]
    rfl
  unfold step
  rw [Action.bind_of_ok hcount]
  refine (Action.bind_of_ok rfl).trans ?_
  refine Action.bind_of_error ?_
  have hsame : m.counted.memory.fetch m.counted.processor.pc = .error failure := hfetch
  rw [hsame]
  rfl

/-- A step that ends well was not one too many. -/
theorem not_spent_of_step {m m' : Machine} {ended : Bool} (h : step m = .ok ended m') :
    ¬ m.spent := by
  intro hspent
  rw [step_of_spent hspent] at h
  cases h

/-- A run fails with its first step, is over with it, or goes on from there. -/
theorem runFor_cases (fuel : Nat) (m : Machine) :
    (∃ failure m', step m = .error failure m' ∧ runFor (fuel + 1) m = .error failure m') ∨
      (∃ m', step m = .ok true m' ∧ runFor (fuel + 1) m = .ok m'.processor.p m') ∨
      ∃ m', step m = .ok false m' ∧ runFor (fuel + 1) m = runFor fuel m' := by
  cases hstep : step m with
  | error failure m' => exact .inl ⟨failure, m', rfl, Action.bind_of_error hstep⟩
  | ok ended m' =>
    cases ended with
    | true => exact .inr (.inl ⟨m', rfl, Action.bind_of_ok hstep⟩)
    | false => exact .inr (.inr ⟨m', rfl, Action.bind_of_ok hstep⟩)

/-- A jump performs well; it sets the program counter if it is taken. -/
theorem perform_of_jump {op : Op} (hlabel : Kind.label ∈ op.slots) (hcall : op ≠ .call) (pc : Addr)
    (a : Cell) (m : Machine) :
    perform pc { op, first := a } m = .ok false { m with processor :=
      { m.processor with
        pc := if op.takes m.processor.p m.processor.s then
            op.destination m.processor.codeBase pc a
          else m.processor.pc } } := by
  obtain ⟨processor, memory⟩ := m
  have hbranch (op : Op) (hrule : op.patch = .relative)
      (hop : perform pc { op, first := a } = (do branch pc a op.takes; return false)) :
      perform pc { op, first := a } ⟨processor, memory⟩ = .ok false ⟨{ processor with
        pc := if op.takes processor.p processor.s then op.destination processor.codeBase pc a
          else processor.pc }, memory⟩ := by
    have hdest : op.destination processor.codeBase pc a = pc + 1 + a := by
      unfold Op.destination
      rw [hrule]
      rfl
    rw [hop, hdest]
    show EStateM.Result.ok false (Machine.mk (if _ then _ else _) memory) = _
    by_cases ht : op.takes processor.p processor.s = true
    · rw [if_pos ht, if_pos ht]
    · rw [if_neg ht, if_neg ht]
  rcases Op.cases_of_label hlabel with rfl | rfl | rfl | rfl | rfl | rfl | rfl
  · exact absurd rfl hcall
  · rfl
  · exact hbranch .jrel rfl rfl
  · exact hbranch .jzer rfl rfl
  · exact hbranch .jnz rfl rfl
  · exact hbranch .jeq rfl rfl
  · exact hbranch .jneq rfl rfl

/-- A call that performs well continues at its target. -/
theorem pc_of_call {target ret : Addr} {m m' : Machine} (h : call target ret m = .ok () m') :
    m'.processor.pc = target := by
  unfold call at h
  obtain ⟨span?, m₁, _, h⟩ := Action.ok_of_bind h
  obtain ⟨r, m₂, _, h⟩ := Action.ok_of_bind h
  split at h
  · cases h
  · cases h
    rfl

/-- **A jump never fails**: it continues at its destination if it is taken, and else behind its
operand. -/
theorem step_of_jump {m : Machine} {op : Op} {a : Cell} (hlabel : Kind.label ∈ op.slots)
    (hcall : op ≠ .call) (hop : m.memory.load m.processor.pc = .ok op.cell)
    (ha : m.memory.load (m.processor.pc + 1) = .ok a) (hsteps : ¬ m.spent) :
    step m = .ok false { m with processor :=
      { m.processor with
        steps := m.processor.steps + 1
        pc := if op.takes m.processor.p m.processor.s then
            op.destination m.processor.codeBase m.processor.pc a
          else m.processor.pc + Int64.ofNat op.width } } := by
  rw [step_eq hsteps (Memory.fetch_of_label hlabel hop ha), perform_of_jump hlabel hcall]
  rfl

/-- **A transfer that succeeds continues at its destination**, be it a jump or a call. -/
theorem pc_of_step {m m' : Machine} {op : Op} {a : Cell} {ended : Bool}
    (hlabel : Kind.label ∈ op.slots) (hop : m.memory.load m.processor.pc = .ok op.cell)
    (ha : m.memory.load (m.processor.pc + 1) = .ok a)
    (htakes : op.takes m.processor.p m.processor.s) (h : step m = .ok ended m') :
    m'.processor.pc = op.destination m.processor.codeBase m.processor.pc a := by
  have hsteps := not_spent_of_step h
  by_cases hcall : op = .call
  · subst hcall
    rw [step_eq hsteps (Memory.fetch_of_label hlabel hop ha)] at h
    split at h
    · next ended' m₁ hperform =>
      cases h
      obtain ⟨⟨⟩, m₂, hexecute, hreturn⟩ := Action.ok_of_bind hperform
      cases hreturn
      obtain ⟨r, m₃, hget, hcall⟩ := Action.ok_of_bind hexecute
      cases hget
      exact pc_of_call hcall
    · cases h
  · rw [step_of_jump hlabel hcall hop ha hsteps] at h
    cases h
    exact if_pos htakes

end Machine

end CellMachine
