import CellMachine.Proofs.Instruction.Reading
import CellMachine.Proofs.Machine.Frame
import CellMachine.Proofs.Machine.Trespass

/-!
# Two decoders

Instructions are decoded in two places: a reader takes a stream of cells apart, and the machine
fetches the instruction at its program counter. The reader looks at the cells of a region and counts
offsets, the machine looks at its memory and counts addresses; both have a range check for opcode
cells, a way to get the operands and a rule for where a label leads. The module says that they
agree.

* `Memory.holds_of_slice` — the cells of a region stand in memory where they were taken from.
* `Memory.fetch_of_op`, `Memory.fetch_of_lone` — **the machine fetches what the reader finds**, and
  refuses what the reader takes for a lone cell.
* `Machine.perform_decided` — no instruction fails in the way in which a cell fails that is none.
* `Machine.pc_of_label_step`, `Machine.pc_of_plain_step` — where the machine goes on.
* `Machine.decoders_agree` — **reading and stepping agree** on what stands at an offset, on its
  operands, its width and its target.
-/

namespace CellMachine

open CellMachine.Action

/-! ### Cells of a region -/

namespace Memory

/-- A cell is read at its address. -/
theorem load_of_getElem? {m : Memory} {a : Addr} {i : Nat} {v : Cell} (hi : a.toInt = i)
    (hv : m.cells[i]? = some v) : m.load a = .ok v := by
  have hlt : i < m.cells.size := (Array.getElem?_eq_some_iff.mp hv).1
  have hnonneg : ¬a < 0 := by
    rw [Int64.lt_iff_toInt_lt, hi]
    exact Int.not_lt.mpr (Int.natCast_nonneg i)
  unfold load get
  rw [if_pos (inBounds_iff.mpr (by omega)), if_neg hnonneg, hi, Int.toNat_natCast, hv]

/-- **The cells that were taken from a region stand in memory**, each at its own address. -/
theorem holds_of_slice {m : Memory} {base : Addr} {n : Int64} {cells : Array Cell}
    (h : m.slice base n = .ok cells) : m.Holds base cells.toList := by
  unfold slice at h
  split at h
  · cases h
  · next hinside =>
    cases h
    rw [not_or, not_or] at hinside
    obtain ⟨hlow, -⟩ := inBounds_iff.mp (by simpa using hinside.2.1)
    intro i v hv
    rw [Array.getElem?_toList, Array.getElem?_extract] at hv
    split at hv
    · next hi =>
      -- the end of the range is an address, so no sum below it wraps around
      have hend := (base + n).toInt_lt
      have hi' : (Int64.ofNat i).toInt = i := Int64.toInt_ofNat_of_lt (by omega)
      have haddr : (base + Int64.ofNat i).toInt = (base.toInt.toNat + i : Nat) := by
        rw [Int64.toInt_add, hi', Int.bmod_eq_of_le (by omega) (by omega)]
        omega
      exact load_of_getElem? haddr hv
    · cases hv

namespace Holds

variable {m : Memory} {base : Addr} {cells : List Cell}

/-- From a later cell on the later cells stand. -/
theorem drop (h : m.Holds base cells) (k : Nat) :
    m.Holds (base + Int64.ofNat k) (cells.drop k) := by
  intro i v hv
  rw [List.getElem?_drop] at hv
  rw [Int64.add_assoc, ← Int64.ofNat_add]
  exact h (k + i) v hv

/-- The first cell stands at the start. -/
theorem head {v : Cell} (h : m.Holds base (v :: cells)) : m.load base = .ok v := by
  have hfirst := h 0 v rfl
  rwa [show base + Int64.ofNat 0 = base from Int64.add_zero base] at hfirst

/-- The other cells stand behind the first. -/
theorem tail {v : Cell} (h : m.Holds base (v :: cells)) : m.Holds (base + 1) cells := h.drop 1

/-- Fewer cells stand where more do. -/
theorem take (h : m.Holds base cells) (k : Nat) : m.Holds base (cells.take k) := by
  intro i v hv
  rw [List.getElem?_take] at hv
  split at hv
  · exact h i v hv
  · cases hv

end Holds

end Memory

/-! ### Fetching -/

/-- The failures of a cell that is no instruction. -/
def Failure.ofOpcode : Failure → Bool
  | .opcode | .opcodeCell _ => true
  | _ => false

/-- What is reported of a cell that is no instruction: the opcode, as far as there is one, and the
cause. -/
def Failure.lone (word : Cell) : UInt16 × Failure :=
  if word < 0 ∨ 0xFFFF < word then (0, .opcodeCell word) else (opcodeOf word, .opcode)

/-- The cause is one of the failures of such cells. -/
theorem Failure.ofOpcode_lone (word : Cell) : (lone word).2.ofOpcode = true := by
  unfold lone
  split
  · rfl
  · rfl

/-- A cell that is no instruction is a trap. -/
theorem Failure.kinds_of_ofOpcode {failure : Failure} (h : failure.ofOpcode = true) :
    failure.kinds = [.trap] := by
  unfold ofOpcode at h
  split at h
  · rfl
  · rfl
  · cases h

/-- An instruction with operand cells; one that is not there is zero. -/
def Fetched.ofOperands (op : Op) (operands : List Cell) : Fetched where
  op
  first := operands.getD 0 0
  second := operands.getD 1 0

namespace Memory

variable {m : Memory} {pc : Addr} {word : Cell}

/-- **A lone cell is not fetched.** -/
theorem fetch_of_lone (hload : m.load pc = .ok word) (hcell : Op.ofCell? word = none) :
    m.fetch pc = .error (.machineFault pc (Failure.lone word).1 (Failure.lone word).2) := by
  have hword (f : Failure → Failure) : (Except.ok word).mapError f = .ok word := rfl
  unfold fetch Failure.lone
  simp only [hload, hword]
  change (if word < 0 ∨ 0xFFFF < word then _ else _) = _
  by_cases hrange : word < 0 ∨ 0xFFFF < word
  · rw [if_pos hrange, if_pos hrange]
    rfl
  · rw [if_neg hrange, if_neg hrange, (Op.ofCell?_eq_none hcell).resolve_left hrange]
    rfl

/-- **An instruction is fetched with the operands that stand behind its opcode.** -/
theorem fetch_of_op {op : Op} {operands : List Cell} (hload : m.load pc = .ok word)
    (hcell : Op.ofCell? word = some op) (hlength : operands.length = op.slots.length)
    (hoperands : m.Holds (pc + 1) operands) : m.fetch pc = .ok (.ofOperands op operands) := by
  obtain ⟨hrange, hcode⟩ := Op.ofCell?_eq_some hcell
  have htwo := op.length_slots_le
  have hword (v : Cell) (f : Failure → Failure) : (Except.ok v).mapError f = .ok v := rfl
  have hfirst : pc + 1 + Int64.ofNat 0 = pc + 1 := Int64.add_zero _
  have hsecond : pc + 1 + Int64.ofNat 1 = pc + 2 := by
    rw [Int64.add_assoc]
    rfl
  unfold fetch
  simp only [hload, hword]
  change (if word < 0 ∨ 0xFFFF < word then _ else _) = _
  rw [if_neg hrange, hcode]
  match operands, hlength, hoperands with
  | [], hlength, _ =>
    simp only [← hlength, List.length_nil]
    rfl
  | [a], hlength, hoperands =>
    have ha := hoperands 0 a rfl
    rw [hfirst] at ha
    simp only [← hlength, List.length_singleton, ha, hword]
    rfl
  | [a, b], hlength, hoperands =>
    have ha := hoperands 0 a rfl
    have hb := hoperands 1 b rfl
    rw [hfirst] at ha
    rw [hsecond] at hb
    simp only [← hlength, List.length_cons, List.length_nil, ha, hb, hword]
    rfl
  | _ :: _ :: _ :: _, hlength, _ =>
    simp only [List.length_cons] at hlength
    omega

end Memory

/-! ### How instructions fail -/

namespace Action

variable {σ α β : Type}

/-- An action does not fail in the way of a cell that is no instruction. -/
def Decided (x : Action σ α) : Prop :=
  ∀ s s' failure, x s = .error failure s' → failure.ofOpcode = false

namespace Decided

/-- Answering does not fail. -/
@[simp] theorem pure (a : α) : Decided (Pure.pure a : Action σ α) := by
  intro s s' failure h
  cases h

/-- Looking at the state does not fail. -/
@[simp] theorem get : Decided (MonadState.get : Action σ σ) := by
  intro s s' failure h
  cases h

/-- A change of the state does not fail. -/
@[simp] theorem modify (f : σ → σ) : Decided (modify f : Action σ PUnit) := by
  intro s s' failure h
  cases h

/-- A failure is what it is. -/
theorem throw {failure : Failure} (hf : failure.ofOpcode = false) :
    Decided (MonadExcept.throw failure : Action σ α) := by
  intro s s' failure' h
  cases h
  exact hf

/-- A sequence fails as one of its parts does. -/
theorem bind {x : Action σ α} {f : α → Action σ β} (hx : Decided x) (hf : ∀ a, Decided (f a)) :
    Decided (x >>= f) := by
  intro s s' failure h
  rcases error_of_bind h with hfirst | ⟨a, s₁, -, hsecond⟩
  · exact hx s s' failure hfirst
  · exact hf a s₁ s' failure hsecond

/-- A refusal under a condition fails in its own way, or as the rest does. -/
theorem refuse {c : Prop} [Decidable c] {failure : Failure} {f : β → Action σ α} {y : Action σ α}
    (hf : failure.ofOpcode = false) (hy : Decided y) :
    Decided (if c then (MonadExcept.throw failure : Action σ β) >>= f else y) := by
  split
  · intro s s' failure' h
    cases h
    exact hf
  · exact hy

end Decided

end Action

namespace Machine

/-- A change of the processor does not fail. -/
@[simp] theorem modifyProcessor_decided (f : Processor → Processor) :
    Decided (modifyProcessor f) := by
  intro x y failure h
  cases h

/-- Looking at the processor does not fail. -/
@[simp] theorem getProcessor_decided : Decided getProcessor := by
  intro x y failure h
  cases h

/-- A cell outside the memory is not read. -/
@[simp] theorem load_decided (a : Addr) : Decided (load a) := by
  intro x y failure h
  unfold load Memory.load Memory.get at h
  split at h
  · cases h
  · next hload =>
    cases h
    split at hload
    · split at hload
      · cases hload
        rfl
      · split at hload
        · cases hload
        · cases hload
          rfl
    · cases hload
      rfl

/-- An action on the memory fails as it does without the processor around it. -/
theorem onMemory_decided {α : Type} {action : Action Memory α} (h : Decided action) :
    Decided (onMemory action) := by
  intro ⟨processor, memory⟩ y failure herror
  unfold onMemory at herror
  dsimp only at herror
  split at herror
  · cases herror
  · next hfails =>
    cases herror
    exact h _ _ _ hfails

/-- A cell outside the memory is not written. -/
theorem memory_store_decided (a : Addr) (v : Cell) : Decided (Memory.store a v) := by
  intro m m' failure h
  by_cases ha : m.inBounds a
  · rw [Memory.store_of_bounds ha] at h
    cases h
  · unfold Memory.store at h
    rw [if_neg ha] at h
    cases h
    rfl

/-- A cell outside the memory is not written. -/
@[simp] theorem store_decided (a : Addr) (v : Cell) : Decided (store a v) :=
  onMemory_decided (memory_store_decided a v)

/-- Adding to a cell fails as reading or writing it does. -/
@[simp] theorem addTo_decided (a : Addr) (delta : Cell) : Decided (addTo a delta) :=
  .bind (load_decided a) fun v => store_decided a (v + delta)

/-- Finding a frame offset does not fail. -/
@[simp] theorem frameAddr_decided (offset : Cell) : Decided (frameAddr offset) :=
  .bind getProcessor_decided fun _ => .pure _

/-- A cell is not pushed on a full stack. -/
@[simp] theorem push_decided (v : Cell) : Decided (push v) := by
  intro ⟨processor, memory⟩ y failure h
  unfold push at h
  dsimp only at h
  split at h
  · cases h
    rfl
  · split at h
    · cases h
    · next hstore =>
      cases h
      exact memory_store_decided _ v _ _ _ hstore

/-- Cells are pushed one after the other. -/
theorem pushAll_decided (vs : List Cell) : Decided (pushAll vs) := by
  induction vs with
  | nil => exact .pure ()
  | cons v rest ih => exact .bind (push_decided v) fun _ => ih

/-- A cell is not popped from an empty stack. -/
@[simp] theorem pop_decided : Decided pop :=
  .bind .get fun _ => .refuse rfl (.bind (load_decided _) fun v =>
    .bind (modifyProcessor_decided _) fun _ => .pure v)

/-- The stack pointer stays in the stack. -/
@[simp] theorem reserve_decided (count : Cell) : Decided (reserve count) :=
  .bind .get fun _ => .refuse rfl (.refuse rfl (modifyProcessor_decided _))

/-- A division by zero fails. -/
@[simp] theorem divide_decided (f : Cell → Cell → Cell) : Decided (divide f) :=
  .bind getProcessor_decided fun _ => .refuse rfl (modifyProcessor_decided _)

/-- Code that refuses is not entered. -/
theorem enter_decided (a : Addr) : Decided (Memory.enter a) := by
  intro m m' failure h
  unfold Memory.enter at h
  split at h
  · cases h
    rfl
  split at h
  · cases h
  split at h
  · cases h
    rfl
  split at h
  · cases h
    rfl
  · cases h

/-- A call fails if its target refuses or if there is no room for the frame. -/
@[simp] theorem call_decided (target ret : Addr) : Decided (call target ret) := by
  refine .bind (onMemory_decided (enter_decided target)) fun span? => ?_
  refine .bind getProcessor_decided fun r => ?_
  intro x y failure h
  dsimp only at h
  split at h
  · next hpush =>
    cases h
    exact pushAll_decided _ _ _ _ hpush
  · cases h

/-- **No instruction fails in the way of a cell that is none**: the trap has a failure of its
own. -/
theorem perform_decided (pc : Addr) (ins : Fetched) : Decided (perform pc ins) := by
  have htrap : Decided (MonadExcept.throw .trap : Action Machine Unit) := .throw rfl
  have hexecute (a b : Cell) (op : Op) : Decided (execute pc a b op) := by
    cases op
    all_goals simp [execute, compare, compute, branch, setP, setS, goto, Decided.bind, htrap]
  have hret : Decided ret := by
    refine .bind (modifyProcessor_decided _) fun _ => .bind pop_decided fun _ =>
      .bind pop_decided fun _ => .bind pop_decided fun _ => .bind pop_decided fun _ =>
      .bind .get fun _ => .refuse rfl ?_
    exact .bind (modifyProcessor_decided _) fun _ => .bind (.modify _) fun _ => .pure _
  unfold perform
  split
  · exact .pure true
  · exact hret
  · exact .bind (hexecute _ _ _) fun _ => .pure false

/-! ### Steps -/

/-- **A step that finds an instruction does not fail in the way of a cell that is none.** -/
theorem step_decided {x y : Machine} {ins : Fetched} {failure : Failure} (hsteps : ¬x.spent)
    (hfetch : x.memory.fetch x.processor.pc = .ok ins) (h : step x = .error failure y) :
    ∃ cause, failure = .machineFault x.processor.pc ins.op.code cause ∧
      cause.ofOpcode = false := by
  rw [step_eq hsteps hfetch] at h
  split at h
  · cases h
  · next cause y' hperform =>
    cases h
    exact ⟨cause, rfl, perform_decided _ _ _ _ _ hperform⟩

/-- **A step with a label operand goes on where the operand leads** if the transfer takes place, and
else behind the instruction. -/
theorem pc_of_label_step {x y : Machine} {ins : Fetched} {ended : Bool}
    (hfetch : x.memory.fetch x.processor.pc = .ok ins) (hstep : step x = .ok ended y)
    (hlabel : Kind.label ∈ ins.op.slots) :
    y.processor.pc = if ins.op.takes x.processor.p x.processor.s then
        ins.op.destination x.processor.codeBase x.processor.pc ins.first
      else x.processor.pc + Int64.ofNat ins.op.width := by
  by_cases hcall : ins.op = .call
  · have htarget : x.callTarget? ins = some (x.processor.codeBase + ins.first) := by
      unfold callTarget?
      rw [hcall]
    rw [pc_of_callTarget hfetch hstep htarget, hcall]
    rfl
  · have hperform := perform_of_step hfetch hstep
    obtain ⟨op, first, second⟩ := ins
    rw [perform_of_label hlabel, perform_of_jump hlabel hcall] at hperform
    cases hperform
    rfl

/-- **A step without a transfer goes on behind the instruction.** -/
theorem pc_of_plain_step {x y : Machine} {ins : Fetched}
    (hfetch : x.memory.fetch x.processor.pc = .ok ins) (hstep : step x = .ok false y)
    (hlabel : Kind.label ∉ ins.op.slots) (hcalla : ins.op ≠ .calla) (hret : ins.op ≠ .ret) :
    y.processor.pc = x.processor.pc + Int64.ofNat ins.op.width := by
  have htarget : x.callTarget? ins = none := by
    unfold callTarget?
    split
    · next hcall => exact absurd (by rw [hcall]; decide) hlabel
    · next hop => exact absurd hop hcalla
    · rfl
  cases way_of_step hfetch hstep htarget with
  | jump hjump => exact absurd hjump hlabel
  | fall hpc => exact hpc
  | ret hop => exact absurd hop hret

/-- The target of a reading is where the machine is led to from the same place. -/
theorem target?_of_label {d : Decoded} {op : Op} {base pc : Addr} (hop : d.op? = some op)
    (hlabel : Kind.label ∈ op.slots) (hlength : d.operands.length = op.slots.length)
    (hpc : pc = base + Int64.ofNat d.offset) :
    ∃ t, d.target? = some t ∧ base + t = op.destination base pc (d.operands.getD 0 0) := by
  have hone : d.operands.length = 1 := by
    rw [hlength, Op.slots_of_label hlabel]
    rfl
  obtain ⟨v, hv⟩ := List.length_eq_one_iff.mp hone
  unfold Op.destination
  rcases Op.patch_of_label hlabel with hpatch | hpatch
  · have htarget : d.target? = some v := by
      unfold Decoded.target?
      simp only [hop, hv, hpatch]
    exact ⟨v, htarget, by rw [hpatch, hv]; rfl⟩
  · have htarget : d.target? = some (Int64.ofNat (d.offset + 1) + v) := by
      unfold Decoded.target?
      simp only [hop, hv, hpatch]
    refine ⟨_, htarget, ?_⟩
    rw [hpatch, hv, hpc]
    show base + (Int64.ofNat (d.offset + 1) + v) = base + Int64.ofNat d.offset + 1 + v
    rw [Int64.ofNat_add, ← Int64.add_assoc, ← Int64.add_assoc]
    rfl

/-- **Reading and stepping agree.** The cells are those of a region inside the memory, and the
reader is set to an offset at which it reads something; the machine stands at the address of the
offset, in the region, and has a step left.

* The step fails for an invalid opcode exactly if the reader found a lone cell, and then it has
  changed nothing: the step is counted, and the failure is a trap.
* Otherwise the machine performs the instruction that the reader found, with the operands that it
  found. If the run goes on, it goes on behind the cells that were read, and a transfer to a label
  that takes place leads to the target of the reading. -/
theorem decoders_agree {x : Machine} {base : Addr} {capacity : Int64} {cells : Array Cell}
    {o : Nat} {d : Decoded} {r : Reader} (hcells : x.memory.slice base capacity = .ok cells)
    (hread : (Reader.seek { cells := cells.toList } o).next = .ok (.decoded d, r))
    (hpc : x.processor.pc = base + Int64.ofNat o) (hbase : x.processor.codeBase = base)
    (hsteps : ¬x.spent) :
    ((∃ code cause y, step x = .error (.machineFault x.processor.pc code cause) y ∧
        cause.ofOpcode = true) ↔ d.op? = none) ∧
      (d.op? = none → ∃ failure, step x = .error failure x.counted ∧ failure.kinds = [.trap]) ∧
      ∀ op, d.op? = some op → d.code = op.code ∧ d.operands.length = op.slots.length ∧
        (step x = match perform x.processor.pc (.ofOperands op d.operands)
            (x.advanced (.ofOperands op d.operands)) with
          | .ok ended y => .ok ended y
          | .error cause y => .error (.machineFault x.processor.pc op.code cause) y) ∧
        ∀ y, step x = .ok false y →
          (Kind.label ∉ op.slots → op ≠ .calla → op ≠ .ret →
            y.processor.pc = x.processor.pc + Int64.ofNat d.width) ∧
          (Kind.label ∈ op.slots → ¬op.takes x.processor.p x.processor.s →
            y.processor.pc = x.processor.pc + Int64.ofNat d.width) ∧
          (Kind.label ∈ op.slots → op.takes x.processor.p x.processor.s →
            ∃ t, d.target? = some t ∧ y.processor.pc = base + t) := by
  obtain ⟨first, rest, hdrop, hfound⟩ := Reader.next_decoded hread
  have hholds : x.memory.Holds x.processor.pc (first :: rest) := by
    rw [hpc, ← hdrop]
    exact (Memory.holds_of_slice hcells).drop o
  rcases readCells_cases hfound with ⟨hlone, rfl⟩ | ⟨op, hcell, hlength, rfl⟩
  · have hstep := step_of_unfetched hsteps (Memory.fetch_of_lone hholds.head hlone)
    have hcause := Failure.ofOpcode_lone first
    refine ⟨iff_of_true ⟨_, _, _, hstep, hcause⟩ rfl, fun _ => ⟨_, hstep, ?_⟩, ?_⟩
    · show (Failure.lone first).2.kinds = [.trap]
      exact Failure.kinds_of_ofOpcode hcause
    · intro op hop
      cases hop
  · have hfetch := Memory.fetch_of_op hholds.head hcell hlength (hholds.tail.take _)
    refine ⟨iff_of_false ?_ (fun h => (nomatch h)), (fun h => (nomatch h)), ?_⟩
    · rintro ⟨code, cause, y, hstep, hcause⟩
      obtain ⟨cause', hfailure, hdecided⟩ := step_decided hsteps hfetch hstep
      cases hfailure
      rw [hcause] at hdecided
      cases hdecided
    · intro op' hop
      cases hop
      have hwidth : op.width = 1 + (rest.take op.slots.length).length := by
        rw [hlength]
        rfl
      refine ⟨(Op.code_of_ofCode? (Op.ofCell?_eq_some hcell).2).symm, hlength,
        step_eq hsteps hfetch, ?_⟩
      intro y hstep
      refine ⟨fun hlabel hcalla hret => ?_, fun hlabel htakes => ?_, fun hlabel htakes => ?_⟩
      · rw [pc_of_plain_step hfetch hstep hlabel hcalla hret]
        show _ + Int64.ofNat op.width = _
        rw [hwidth]
        rfl
      · rw [pc_of_label_step hfetch hstep hlabel]
        show (if op.takes _ _ then _ else _ + Int64.ofNat op.width) = _
        rw [if_neg htakes, hwidth]
        rfl
      · obtain ⟨t, htarget, hdestination⟩ := target?_of_label
          (d := { offset := o, code := opcodeOf first, op? := some op,
                  operands := rest.take op.slots.length }) rfl hlabel hlength hpc
        refine ⟨t, htarget, ?_⟩
        rw [pc_of_label_step hfetch hstep hlabel, hdestination, hbase]
        exact if_pos htakes

/-- A machine in a region of four cells, at an offset: a jump if `P` is zero, which leads behind the
region, and a cell that is no instruction. -/
def sampleStream (o : Nat) : Machine where
  processor := { pc := 2 + Int64.ofNat o, codeBase := 2 }
  memory :=
    { cells := #[0, 0, Op.jzer.cell, 3, -1, 0, 0, 0], limit := 7
      spans := #[{ id := 0, name := "loop", base := 2, capacity := 4 }]
      names := ⟨[("loop", 0)]⟩ }

/-- The jump at the start of the region leads to the target that a reader shows, and the lone cell
behind it is a trap. -/
theorem decoders_agree_sample :
    (∃ y, step (sampleStream 0) = .ok false y ∧ y.processor.pc = 2 + 4) ∧
      ∃ failure, step (sampleStream 2) = .error failure (sampleStream 2).counted ∧
        failure.kinds = [.trap] := by
  have hcells (o : Nat) :
      (sampleStream o).memory.slice 2 4 = .ok #[Op.jzer.cell, 3, -1, 0] := by rfl
  refine ⟨?_, ?_⟩
  · have hread : (Reader.seek { cells := [Op.jzer.cell, 3, -1, 0] } 0).next =
        .ok (.decoded { offset := 0, code := 0x82, op? := some .jzer, operands := [3] },
          ⟨[Op.jzer.cell, 3, -1, 0], 2⟩) := by rfl
    have hstep : step (sampleStream 0) = .ok false (step.after (sampleStream 0)) :=
      of_result? (by decide +kernel)
    obtain ⟨-, -, hop⟩ := decoders_agree (hcells 0) hread rfl rfl (by decide)
    obtain ⟨-, -, -, hpc⟩ := hop .jzer rfl
    obtain ⟨t, htarget, ht⟩ := (hpc _ hstep).2.2 (by decide) rfl
    cases htarget
    exact ⟨_, hstep, ht⟩
  · have hread : (Reader.seek { cells := [Op.jzer.cell, 3, -1, 0] } 2).next =
        .ok (.decoded { offset := 2, code := 0xFFFF, op? := none, operands := [] },
          ⟨[Op.jzer.cell, 3, -1, 0], 3⟩) := by rfl
    obtain ⟨-, hlone, -⟩ := decoders_agree (hcells 2) hread rfl rfl (by decide)
    exact hlone rfl

end Machine

end CellMachine
