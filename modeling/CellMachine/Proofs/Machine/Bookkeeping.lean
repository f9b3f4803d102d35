import CellMachine.Proofs.Machine.Frame
import CellMachine.Proofs.Machine.Trespass

/-!
# The books of a memory

A memory keeps books on its regions: their names and places, their leases, and how many activations
are inside each of them. A run has to keep the last of these up to date, since a region that is
running must not be overwritten, and it has to hand the books back as it found them, since a mark
that is left behind would shut the region for ever.

An instruction that is neither a call nor a return does not touch the books. A call marks one region
more and a return one less, each together with the machine's own list of activations; so at every
moment the marks are those from before plus one for each entry of the list, and leaving all of them
takes all of them back. What the program in memory does to its return addresses has no part in this:
a return without an activation to leave takes no mark.

* `Memory.marked` — the regions with the marks of a list of activations.
* `Machine.Undisturbed` — only cells and registers have changed; `Machine.execute_undisturbed` —
  **every instruction but the calls and the return leaves the books alone.**
* `Machine.Booked` — the books are those of a memory, with the marks of the activations;
  `Machine.step_booked` — **one step keeps them in order**, whichever instruction it executes.
* `Machine.invoke_leaves_no_trace` — **a call from outside leaves no trace in the books**, however
  it ends, and they are in order at every instruction on the way.
-/

namespace CellMachine

open CellMachine.Action

namespace Memory

/-! ### Marks -/

/-- The regions with one mark more for each of a list of activations. -/
def marked (m : Memory) (active : List (Option Nat)) : Array Span :=
  m.spans.map fun s => { s with running := s.running + active.count (some s.id) }

/-- Without activations there are no marks to add. -/
@[simp] theorem marked_nil (m : Memory) : m.marked [] = m.spans := by
  unfold marked
  simp

/-- An activation outside regions leaves no mark. -/
@[simp] theorem marked_none (m : Memory) (active : List (Option Nat)) :
    m.marked (none :: active) = m.marked active := by
  unfold marked
  simp

/-- A region with marks, after a change of its own marks. -/
theorem updateSpan_marked (m : Memory) {id : Nat} {active active' : List (Option Nat)}
    {f : Nat → Nat}
    (hself : ∀ n, f (n + active.count (some id)) = n + active'.count (some id))
    (hothers : ∀ j, j ≠ id → active.count (some j) = active'.count (some j)) :
    (m.marked active).map (fun s => if s.id = id then { s with running := f s.running } else s) =
      m.marked active' := by
  unfold marked
  rw [Array.map_map]
  refine Array.map_congr_left fun s _ => ?_
  rw [Function.comp_apply]
  by_cases hid : s.id = id
  · rw [if_pos hid]
    show ({ s with running := f (s.running + active.count (some s.id)) } : Span) = _
    rw [hid, hself]
  · rw [if_neg hid, hothers s.id hid]

/-- A memory whose books are those of `m`, with the marks of a list of activations. -/
structure Books (m : Memory) (active : List (Option Nat)) (m' : Memory) : Prop where
  rest : m' = { m with cells := m'.cells, spans := m.marked active }
  size : m'.cells.size = m.cells.size

/-- The books of a memory are its own. -/
theorem Books.refl (m : Memory) : m.Books [] m where
  rest := by rw [marked_nil]
  size := rfl

/-- An activation outside regions is not in the books. -/
theorem books_none {m m' : Memory} {active : List (Option Nat)} :
    m.Books (none :: active) m' ↔ m.Books active m' := by
  constructor
  · intro h
    exact ⟨marked_none m active ▸ h.rest, h.size⟩
  · intro h
    exact ⟨(marked_none m active).symm ▸ h.rest, h.size⟩

/-- Other cells, as many as before, are not in the books. -/
theorem Books.withCells {m m' : Memory} {active : List (Option Nat)} (h : m.Books active m')
    {cells : Array Cell} (hsize : cells.size = m'.cells.size) :
    m.Books active { m' with cells } where
  rest := by rw [h.rest]
  size := hsize.trans h.size

/-- Marks are changed together with the list of activations. -/
theorem Books.updateSpan {m m' : Memory} {id : Nat} {active active' : List (Option Nat)}
    {f : Nat → Nat} (h : m.Books active m')
    (hself : ∀ n, f (n + active.count (some id)) = n + active'.count (some id))
    (hothers : ∀ j, j ≠ id → active.count (some j) = active'.count (some j)) :
    m.Books active' (m'.updateSpan id fun s => { s with running := f s.running }) where
  rest := by
    have hspans := updateSpan_marked m hself hothers
    rw [h.rest]
    unfold Memory.updateSpan
    simp only [hspans]
  size := h.size

/-- **Entering a region marks it**; what refuses is left as it is. -/
theorem Books.enter_ok {m m' m'' : Memory} {active : List (Option Nat)} {a : Addr}
    {span? : Option Span} (h : m.Books active m') (henter : enter a m' = .ok span? m'') :
    m.Books (span?.map Span.id :: active) m'' := by
  unfold enter at henter
  split at henter
  · cases henter
  split at henter
  · cases henter
    exact books_none.mpr h
  · next s hfind =>
    split at henter
    · cases henter
    split at henter
    · cases henter
    cases henter
    refine h.updateSpan (f := (· + 1)) (fun n => ?_) fun j hj => ?_
    · simp only [Option.map_some, List.count_cons_self]
      omega
    · have hne : (some s.id == some j) = false := by
        simpa using Ne.symm hj
      simp [List.count_cons, hne]

/-- **Leaving a region takes its mark back.** -/
theorem Books.leave {m m' : Memory} {id? : Option Nat} {active : List (Option Nat)}
    (h : m.Books (id? :: active) m') : m.Books active (m'.leave id?) := by
  cases id? with
  | none => exact books_none.mp h
  | some id =>
    refine h.updateSpan (f := (· - 1)) (fun n => ?_) fun j hj => ?_
    · rw [List.count_cons_self]
      omega
    · have hne : (some id == some j) = false := by
        simpa using Ne.symm hj
      simp [List.count_cons, hne]

/-- Leaving all activations takes all marks back. -/
theorem Books.leaveAll {m : Memory} (active : List (Option Nat)) :
    ∀ {m' : Memory}, m.Books active m' → m.Books [] (active.foldl Memory.leave m') := by
  induction active with
  | nil =>
    intro m' h
    exact h
  | cons id? rest ih =>
    intro m' h
    exact ih h.leave

end Memory

namespace Machine

/-! ### Instructions that do not touch the books -/

/-- Nothing but cells of the memory and registers has changed. -/
structure Undisturbed (x y : Machine) : Prop where
  memory : y.memory = { x.memory with cells := y.memory.cells }
  size : y.memory.cells.size = x.memory.cells.size
  active : y.processor.active = x.processor.active

section Undisturbed

variable {x : Machine}

/-- Nothing has changed. -/
theorem Undisturbed.refl (x : Machine) : x.Undisturbed x := ⟨rfl, rfl, rfl⟩

/-- Registers change. -/
theorem modifyProcessor_undisturbed {f : Processor → Processor}
    (hf : ∀ r, (f r).active = r.active) : Preserves x.Undisturbed (modifyProcessor f) := by
  intro y h
  exact ⟨h.memory, h.size, (hf y.processor).trans h.active⟩

/-- Looking at the processor changes nothing. -/
@[simp] theorem getProcessor_undisturbed : Preserves x.Undisturbed getProcessor := fun _ h => h

/-- Reading a cell changes nothing. -/
@[simp] theorem load_undisturbed (a : Addr) : Preserves x.Undisturbed (load a) := by
  intro y h
  unfold after load
  cases y.memory.load a with
  | ok v => exact h
  | error failure => exact h

/-- A cell is overwritten, or no cell is. -/
theorem Undisturbed.stored {y : Machine} (h : x.Undisturbed y) (a : Addr) (v : Cell) :
    x.Undisturbed ⟨y.processor, (Memory.store a v).after y.memory⟩ := by
  by_cases ha : y.memory.inBounds a
  · rw [after_of_ok (Memory.store_of_bounds ha v)]
    refine ⟨?_, Array.size_setIfInBounds.trans h.size, h.active⟩
    rw [h.memory]
  · have hrefused : Memory.store a v y.memory = .error (.outOfBounds (.store a)) y.memory := by
      unfold Memory.store
      rw [if_neg ha]
    rw [after_of_error hrefused]
    exact h

/-- Storing changes a cell. -/
@[simp] theorem store_undisturbed (a : Addr) (v : Cell) :
    Preserves x.Undisturbed (store a v) := by
  intro ⟨processor, memory⟩ h
  have hstored := h.stored a v
  unfold after store onMemory
  cases hstore : Memory.store a v memory with
  | ok _ memory' =>
    rw [after_of_ok hstore] at hstored
    simp only [hstore]
    exact hstored
  | error failure memory' =>
    rw [after_of_error hstore] at hstored
    simp only [hstore]
    exact hstored

/-- Adding to a cell changes it. -/
@[simp] theorem addTo_undisturbed (a : Addr) (delta : Cell) :
    Preserves x.Undisturbed (addTo a delta) :=
  .bind (load_undisturbed a) fun v => store_undisturbed a (v + delta)

/-- Finding a frame offset changes nothing. -/
@[simp] theorem frameAddr_undisturbed (offset : Cell) :
    Preserves x.Undisturbed (frameAddr offset) :=
  .bind getProcessor_undisturbed fun _ => .pure _

/-- Pushing changes a cell and the stack pointer. -/
@[simp] theorem push_undisturbed (v : Cell) : Preserves x.Undisturbed (push v) := by
  intro ⟨processor, memory⟩ h
  have hmoved : x.Undisturbed ⟨{ processor with sp := processor.sp - 1 }, memory⟩ :=
    ⟨h.memory, h.size, h.active⟩
  have hstored := hmoved.stored (processor.sp - 1) v
  unfold after push
  by_cases hfull : processor.sp - 1 < memory.limit
  · simpa only [if_pos hfull] using h
  · simp only [if_neg hfull]
    cases hstore : Memory.store (processor.sp - 1) v memory with
    | ok _ memory' =>
      rw [after_of_ok hstore] at hstored
      exact hstored
    | error failure memory' =>
      rw [after_of_error hstore] at hstored
      exact hstored

/-- Pushing cells is pushing one after the other. -/
theorem pushAll_undisturbed (vs : List Cell) : Preserves x.Undisturbed (pushAll vs) := by
  induction vs with
  | nil => exact .pure ()
  | cons v rest ih => exact .bind (push_undisturbed v) fun _ => ih

/-- Popping moves the stack pointer. -/
@[simp] theorem pop_undisturbed : Preserves x.Undisturbed pop := by
  refine .bind .get fun _ => .refuse (.bind (load_undisturbed _) fun v => .bind ?_ fun _ => .pure v)
  exact modifyProcessor_undisturbed fun _ => rfl

/-- Moving the stack pointer changes a register. -/
@[simp] theorem reserve_undisturbed (count : Cell) : Preserves x.Undisturbed (reserve count) := by
  refine .bind .get fun _ => .refuse (.refuse ?_)
  exact modifyProcessor_undisturbed fun _ => rfl

/-- Setting `P` changes a register. -/
@[simp] theorem setP_undisturbed (v : Cell) : Preserves x.Undisturbed (setP v) :=
  modifyProcessor_undisturbed fun _ => rfl

/-- Setting `S` changes a register. -/
@[simp] theorem setS_undisturbed (v : Cell) : Preserves x.Undisturbed (setS v) :=
  modifyProcessor_undisturbed fun _ => rfl

/-- Computing changes a register. -/
@[simp] theorem compute_undisturbed (f : Cell → Cell → Cell) :
    Preserves x.Undisturbed (compute f) := modifyProcessor_undisturbed fun _ => rfl

/-- Dividing changes a register. -/
@[simp] theorem divide_undisturbed (f : Cell → Cell → Cell) :
    Preserves x.Undisturbed (divide f) :=
  .bind getProcessor_undisturbed fun _ => .refuse (compute_undisturbed f)

/-- Jumping changes a register. -/
@[simp] theorem branch_undisturbed (pc : Addr) (distance : Cell) (f : Cell → Cell → Bool) :
    Preserves x.Undisturbed (branch pc distance f) := by
  refine modifyProcessor_undisturbed fun r => ?_
  split
  · rfl
  · rfl

/-- **Every instruction but the calls leaves the books alone.** The return is not executed here. -/
theorem execute_undisturbed {op : Op} (hcall : op ≠ .call) (hcalla : op ≠ .calla) (pc : Addr)
    (a b : Cell) : Preserves x.Undisturbed (execute pc a b op) := by
  have hregisters {f : Processor → Processor} (hf : ∀ r, (f r).active = r.active) :
      Preserves x.Undisturbed (modifyProcessor f) := modifyProcessor_undisturbed hf
  cases op
  case call => exact absurd rfl hcall
  case calla => exact absurd rfl hcalla
  all_goals simp [execute, compare, goto, Preserves.bind, hregisters]

end Undisturbed

/-! ### Steps -/

/-- The books of the memory are those of `m`, with the marks of the live activations. -/
def Booked (m : Memory) (x : Machine) : Prop := m.Books x.processor.active x.memory

variable {m : Memory}

/-- What does not disturb the books keeps them in order. -/
theorem Booked.undisturbed {x y : Machine} (hx : Booked m x) (h : x.Undisturbed y) :
    Booked m y := by
  unfold Booked
  rw [h.memory, h.active]
  exact Memory.Books.withCells hx h.size

/-- An action that does not disturb the books keeps them in order. -/
theorem booked_of_undisturbed {α : Type} {action : Action Machine α}
    (h : ∀ x : Machine, Preserves x.Undisturbed action) : Preserves (Booked m) action :=
  fun x hx => hx.undisturbed (h x x (.refl x))

/-- A call without room for its frame leaves the region that it has entered. -/
theorem call_of_full {x y : Machine} {target ret : Addr} {span? : Option Span} {memory : Memory}
    {failure : Failure} (henter : Memory.enter target x.memory = .ok span? memory)
    (hpush : pushAll [x.processor.codeBase, ret, x.processor.fp] ⟨x.processor, memory⟩ =
      .error failure y) :
    call target ret x =
      .error failure { y with memory := y.memory.leave (span?.map Span.id) } := by
  have hentered : onMemory (Memory.enter target) x = .ok span? ⟨x.processor, memory⟩ := by
    unfold onMemory
    simp only [henter]
  have hget : getProcessor ⟨x.processor, memory⟩ = .ok x.processor ⟨x.processor, memory⟩ := rfl
  refine (bind_of_ok hentered).trans ((bind_of_ok hget).trans ?_)
  simp only [hpush]

/-- **A call marks the region that it enters**, and takes the mark back if there is no room for the
frame. -/
theorem call_booked (target ret : Addr) : Preserves (Booked m) (call target ret) := by
  intro x hx
  cases henter : Memory.enter target x.memory with
  | error failure memory =>
    rw [Memory.enter_error henter] at henter
    rw [after_of_error (call_of_refused henter ret)]
    exact hx
  | ok span? memory =>
    -- the mark is set before the list of activations says so: the pushes happen in between
    have hbooks : m.Books (span?.map Span.id :: x.processor.active) memory :=
      Memory.Books.enter_ok hx henter
    have hpushes := pushAll_undisturbed (x := ⟨x.processor, memory⟩)
      [x.processor.codeBase, ret, x.processor.fp]
    have hafter {y : Machine} (hy : Undisturbed ⟨x.processor, memory⟩ y) :
        m.Books (span?.map Span.id :: y.processor.active) y.memory := by
      rw [hy.memory, hy.active]
      exact hbooks.withCells hy.size
    cases hpush : pushAll [x.processor.codeBase, ret, x.processor.fp] ⟨x.processor, memory⟩ with
    | ok _ y =>
      have hcall : call target ret x = .ok () (y.activated target span?) :=
        call_ok_iff.mpr ⟨span?, memory, y, henter, hpush, rfl⟩
      rw [after_of_ok hcall]
      exact hafter (hpushes.ok (.refl _) hpush)
    | error failure y =>
      rw [after_of_error (call_of_full henter hpush)]
      exact Memory.Books.leave (hafter (hpushes.error (.refl _) hpush))

/-- Leaving the innermost activation takes its mark back. -/
theorem Booked.leaveOne {x : Machine} (hx : Booked m x) : Booked m x.leaveOne := by
  obtain ⟨processor, memory⟩ := x
  unfold Machine.leaveOne
  change m.Books processor.active memory at hx
  cases hactive : processor.active with
  | nil =>
    simp only [hactive]
    exact hx
  | cons id? rest =>
    rw [hactive] at hx
    simp only [hactive]
    exact hx.leave

/-- **A return takes one mark back** together with its activation, wherever it goes. -/
theorem ret_booked : Preserves (Booked m) ret := by
  have hpop : Preserves (Booked m) pop := booked_of_undisturbed fun _ => pop_undisturbed
  have hregisters {f : Processor → Processor} (hf : ∀ r, (f r).active = r.active) :
      Preserves (Booked m) (modifyProcessor f) :=
    booked_of_undisturbed fun _ => modifyProcessor_undisturbed hf
  have hleave : Preserves (Booked m) (modify Machine.leaveOne : Action Machine Unit) :=
    .modify fun _ h => h.leaveOne
  refine .bind (hregisters fun _ => rfl) fun _ => .bind hpop fun _ => .bind hpop fun _ =>
    .bind hpop fun _ => .bind hpop fun _ => .bind .get fun _ => .refuse ?_
  exact .bind (hregisters fun _ => rfl) fun _ => .bind hleave fun _ => .pure _

/-- Every instruction keeps the books in order. -/
theorem perform_booked (pc : Addr) (ins : Fetched) : Preserves (Booked m) (perform pc ins) := by
  have hcall (target ret : Addr) : Preserves (Booked m) (call target ret) := call_booked target ret
  have hget : Preserves (Booked m) getProcessor :=
    booked_of_undisturbed fun _ => getProcessor_undisturbed
  unfold perform
  split
  · exact .pure true
  · exact ret_booked
  · refine .bind ?_ fun _ => .pure false
    by_cases hop : ins.op = .call
    · rw [hop]
      exact .bind hget fun r => hcall _ _
    by_cases hop' : ins.op = .calla
    · rw [hop']
      exact .bind hget fun r => hcall _ _
    exact booked_of_undisturbed fun _ => execute_undisturbed hop hop' pc _ _

/-- **One step keeps the books in order**, whichever instruction it executes and whether it fails or
not. -/
theorem step_booked : Preserves (Booked m) step := by
  have hregisters {f : Processor → Processor} (hf : ∀ r, (f r).active = r.active) :
      Preserves (Booked m) (modifyProcessor f) :=
    booked_of_undisturbed fun _ => modifyProcessor_undisturbed hf
  have hcount : Preserves (Booked m) countStep :=
    .bind (booked_of_undisturbed fun _ => getProcessor_undisturbed) fun _ =>
      .refuse (hregisters fun _ => rfl)
  refine .bind hcount fun _ => .bind .get fun y => .bind (.ofExcept _) fun ins =>
    .bind (hregisters fun _ => rfl) fun _ => ?_
  intro x hx
  have hperform := perform_booked (m := m) y.processor.pc ins
  unfold after
  cases hr : perform y.processor.pc ins x with
  | ok ended x' =>
    simp only [hr]
    exact hperform.ok hx hr
  | error cause x' =>
    simp only [hr]
    exact hperform.error hx hr

/-! ### Runs -/

/-- A call from outside begins with the books of its memory. -/
theorem entered_booked (entry : Addr) (args : List Cell) (x : Machine) :
    Booked x.memory ((entered entry args).after x) := by
  have hpushes : Preserves (Booked x.memory)
      (pushAll (args.reverse ++ [Int64.ofNat args.length])) :=
    booked_of_undisturbed fun _ => pushAll_undisturbed _
  have hready : Booked x.memory x.ready := Memory.Books.refl x.memory
  exact Preserves.bind hpushes (fun _ => call_booked entry returnSentinel) x.ready hready

/-- The books are in order all along a run. -/
theorem Visits.booked {entry : Addr} {args : List Cell} {x y : Machine}
    (h : Visits entry args x y) : Booked x.memory y := by
  induction h with
  | start hentered =>
    have hbooked := entered_booked entry args x
    rwa [after_of_ok hentered] at hbooked
  | step _ hstep ih => exact step_booked.ok ih hstep

/-- However a call from outside ends, its books are in order. -/
theorem start_booked (entry : Addr) (args : List Cell) (x : Machine) :
    Booked x.memory ((start entry args).after x) := by
  rcases start_cases entry args x with ⟨failure, y, hentered, hstart⟩ |
    ⟨z, hz, ⟨z', hstep, hstart⟩ | ⟨failure, z', hstep, hstart⟩ | hstart⟩
  · rw [after_of_error hstart, ← after_of_error hentered]
    exact entered_booked entry args x
  · rw [after_of_ok hstart]
    exact step_booked.ok hz.booked hstep
  · rw [after_of_error hstart]
    exact step_booked.error hz.booked hstep
  · rw [after_of_error hstart]
    exact hz.booked

/-- Leaving every activation takes all marks back. -/
theorem Booked.leaveAll {x : Machine} (hx : Booked m x) : m.Books [] x.leaveAll.memory :=
  Memory.Books.leaveAll x.processor.active hx

/-- **A call from outside leaves no trace in the books of its memory**: whatever is called, with
whichever program in memory, and however the call ends, only cells have changed — the regions with
their marks and leases, their names, the globals and the room that is left are as they were. On the
way, before and after every instruction, each region has one mark more for each time that it occurs
among the live activations, and nothing else of the books differs. -/
theorem invoke_leaves_no_trace (target? : Option Addr) (args : List Cell) (x : Machine) :
    (∃ cells : Array Cell, cells.size = x.memory.cells.size ∧
        ((invoke target? args).after x).memory = { x.memory with cells }) ∧
      ∀ entry y, Visits entry args x y → ∀ z, z = y ∨ z = step.after y →
        z.memory = { x.memory with
          cells := z.memory.cells
          spans := x.memory.spans.map fun s =>
            { s with running := s.running + z.processor.active.count (some s.id) } } := by
  refine ⟨?_, ?_⟩
  · have hbooks : x.memory.Books [] ((invoke target? args).after x).memory := by
      cases target? with
      | none => exact .refl x.memory
      | some entry =>
        have hstart := start_booked entry args x
        unfold after invoke
        cases hr : start entry args x with
        | ok v y =>
          rw [after_of_ok hr] at hstart
          simp only [hr]
          exact hstart.leaveAll
        | error failure y =>
          rw [after_of_error hr] at hstart
          simp only [hr]
          exact hstart.leaveAll
    refine ⟨_, hbooks.size, ?_⟩
    have hrest := hbooks.rest
    rwa [Memory.marked_nil] at hrest
  · intro entry y hy z hz
    have hbooked : Booked x.memory z := by
      rcases hz with rfl | rfl
      · exact hy.booked
      · exact step_booked y hy.booked
    exact hbooked.rest

/-- A call of the routine that jumps into a leased region: its own region has one mark before the
jump, and none afterwards. -/
theorem invoke_leaves_no_trace_sample :
    let x : Machine := { processor := {}, memory := Estate.sampleLeased.memory }
    Visits 0 [] x Estate.sampleJump ∧
      Estate.sampleJump.memory.spans.map Span.running = #[1, 0] ∧
      Estate.sampleJump.memory.leases = x.memory.leases ∧
      ((invoke (some 0) []).after x).memory.spans = x.memory.spans := by
  intro x
  have hentered : entered 0 [] x = .ok () Estate.sampleJump := of_result? (by decide +kernel)
  obtain ⟨⟨cells, -, hafter⟩, hway⟩ := invoke_leaves_no_trace (some 0) [] x
  have hbooks := hway 0 Estate.sampleJump (.start hentered) _ (.inl rfl)
  refine ⟨.start hentered, by decide +kernel, ?_, ?_⟩
  · rw [hbooks]
  · rw [hafter]

end Machine

end CellMachine
