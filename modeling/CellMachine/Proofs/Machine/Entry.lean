import CellMachine.Proofs.Machine.Stack
import CellMachine.Proofs.Machine.Transfer
import CellMachine.Proofs.Memory.Torn

/-!
# Who is let in

Code is called from outside, by an address or by a name, or by a call instruction. All of them enter
the region of their target first, and a region that is leased or poisoned refuses. The module
follows the refusal to the outcome of the call.

* `Span.Shut`, `Span.refusal` — a region that is leased or poisoned, and what it answers.
* `Machine.start_eq` — a call from outside as pushes on an empty stack, a call and a run.
* `Memory.Bars` — no call reaches an address.
* `Estate.Reachable.torn_never_called` — **a region that was torn is never called.**
-/

namespace CellMachine

open CellMachine.Action

/-! ### Regions that refuse -/

namespace Span

/-- A region that is leased or poisoned. -/
def Shut (s : Span) : Prop := s.lease?.isSome = true ∨ s.poisoned = true

/-- What a region answers that is leased or else poisoned. -/
def refusal (s : Span) : Failure :=
  if s.lease?.isSome then .regionBusy (.overwritten s.label) else .regionPoisoned s.label

end Span

namespace Memory

/-- A region that is leased or poisoned is not entered, at whichever address. -/
theorem enter_of_shut {m : Memory} (hm : m.Ordered) {s : Span} (hs : s ∈ m.spans) (hshut : s.Shut)
    {a : Addr} (ha : s.contains a = true) (hin : m.inBounds a = true) :
    enter a m = .error s.refusal m := by
  unfold enter Span.refusal
  simp only [hin, find?_of_contains hm hs ha, Bool.not_true, Bool.false_eq_true, if_false]
  by_cases hleased : s.lease?.isSome = true
  · rw [if_pos hleased, if_pos hleased]
  · rw [if_neg hleased, if_neg hleased, if_pos (hshut.resolve_left hleased)]

/-- A cell of a region is a cell of the memory. -/
theorem Encloses.inBounds {m : Memory} {s : Span} (h : m.Encloses s)
    (hsize : m.cells.size ≤ maxCells) {a : Addr} (ha : s.contains a = true) :
    m.inBounds a = true := by
  obtain ⟨hlow, hhigh⟩ := (h.contains_iff hsize).mp ha
  have hbase := h.base
  have hlimit := h.limit
  unfold Memory.inBounds
  rw [Bool.and_eq_true, decide_eq_true_iff, decide_eq_true_iff, Int64.le_iff_toInt_le]
  refine ⟨?_, by omega⟩
  show (0 : Int) ≤ a.toInt
  omega

end Memory

/-! ### Calls on an empty stack -/

namespace Machine

/-- A machine that is about to be called from outside: its stack is empty. -/
def ready (x : Machine) : Machine :=
  { x with processor :=
    { x.processor with
      sp := Int64.ofNat x.memory.size, fp := Int64.ofNat x.memory.size, codeBase := 0, steps := 0
      active := [] } }

/-- A call from outside pushes the arguments and their count, enters the code and runs it. -/
theorem start_eq (entry : Addr) (args : List Cell) (x : Machine) :
    start entry args x = (do
      pushAll (args.reverse ++ [Int64.ofNat args.length])
      call entry returnSentinel
      run) x.ready := by
  rw [pushAll_concat, bind_assoc]
  exact bind_of_ok rfl

/-- The stack pointer of an empty stack is the size of the memory. -/
theorem sp_ready {x : Machine} (hsize : x.memory.cells.size ≤ maxCells) :
    x.ready.processor.sp.toInt = x.memory.cells.size := by
  have hmax : (maxCells : Int) = 35184372088832 := by decide
  show (Int64.ofInt x.memory.cells.size).toInt = x.memory.cells.size
  exact Int64.toInt_ofInt_of_le (by omega) (by omega)

/-- An empty stack lies inside the memory. -/
theorem stacked_ready {x : Machine} (hlimit : 0 < x.memory.limit.toInt)
    (hstack : x.memory.limit.toInt < x.memory.cells.size)
    (hsize : x.memory.cells.size ≤ maxCells) : x.ready.Stacked := by
  have hsp := sp_ready hsize
  refine ⟨hlimit, ?_, Int.le_of_eq hsp, hsize⟩
  rw [hsp]
  exact Int.le_of_lt hstack

/-- A call into a region that refuses fails, and changes nothing. -/
theorem call_of_refused {x : Machine} {target : Addr} {failure : Failure}
    (henter : Memory.enter target x.memory = .error failure x.memory) (ret : Addr) :
    call target ret x = .error failure x := by
  refine bind_of_error ?_
  unfold onMemory
  simp only [henter]

/-- The address that a call instruction leads to. -/
def callTarget? (x : Machine) (ins : Fetched) : Option Addr :=
  match ins.op with
  | .call => some (x.processor.codeBase + ins.first)
  | .calla => some ins.first
  | _ => none

/-- **A call instruction whose target refuses fails.** The step ends the run. -/
theorem step_of_refused {x : Machine} {ins : Fetched} {target : Addr} {failure : Failure}
    (hsteps : ¬x.spent) (hfetch : x.memory.fetch x.processor.pc = .ok ins)
    (htarget : x.callTarget? ins = some target)
    (henter : Memory.enter target x.memory = .error failure x.memory) :
    step x = .error (.machineFault x.processor.pc ins.op.code failure) (x.advanced ins) := by
  have hcall (ret : Addr) : call target ret (x.advanced ins) = .error failure (x.advanced ins) :=
    call_of_refused (x := x.advanced ins) henter ret
  have hperform : perform x.processor.pc ins (x.advanced ins) =
      .error failure (x.advanced ins) := by
    obtain ⟨op, first, second⟩ := ins
    cases op
    case call =>
      cases htarget
      exact bind_of_error (hcall _)
    case calla =>
      cases htarget
      exact bind_of_error (hcall _)
    all_goals cases htarget
  rw [step_eq hsteps hfetch, hperform]

end Machine

/-! ### Calls from outside -/

namespace Memory

/-- How a call from outside fails that a region refuses: the arguments and their count are pushed
before the region is entered. -/
def entryFailure (m : Memory) (s : Span) (args : List Cell) : Failure :=
  if (m.cells.size : Int) < m.limit.toInt + (args.length + 1) then .stackOverflow else s.refusal

variable {m : Memory} {s : Span} {a : Addr}

/-- **A region that is leased or poisoned is not called from outside.** The call fails before the
first step. -/
theorem invoke_of_shut (hm : m.Ordered) (hlimit : 0 < m.limit.toInt)
    (hstack : m.limit.toInt < m.cells.size) (hsize : m.cells.size ≤ maxCells) (hs : s ∈ m.spans)
    (henc : m.Encloses s) (hshut : s.Shut) (ha : s.contains a = true) (processor : Processor)
    (args : List Cell) :
    ∃ x', Machine.invoke (some a) args { processor, memory := m } =
        .error (m.entryFailure s args) x' ∧ x'.processor.steps = 0 := by
  suffices hstart : ∃ x', Machine.start a args { processor, memory := m } =
      .error (m.entryFailure s args) x' ∧ x'.processor.steps = 0 by
    obtain ⟨x', hstart, hsteps⟩ := hstart
    refine ⟨x'.leaveAll, ?_, hsteps⟩
    unfold Machine.invoke
    simp only [hstart]
  have hx : (Machine.ready { processor, memory := m }).Stacked :=
    Machine.stacked_ready hlimit hstack hsize
  have hsp : (Machine.ready { processor, memory := m }).processor.sp.toInt = m.cells.size :=
    Machine.sp_ready hsize
  have hlength : (args.reverse ++ [Int64.ofNat args.length]).length = args.length + 1 := by simp
  rw [Machine.start_eq]
  unfold entryFailure
  by_cases hfull : (m.cells.size : Int) < m.limit.toInt + (args.length + 1)
  · obtain ⟨x', hpush, hsteps⟩ :=
      Machine.pushAll_of_full (args.reverse ++ [Int64.ofNat args.length]) hx (by
        rw [hlength, hsp]
        exact hfull)
    rw [if_pos hfull]
    exact ⟨x', bind_of_error hpush, hsteps⟩
  · obtain ⟨x', hpush, hcells⟩ :=
      Machine.pushAll_cells (args.reverse ++ [Int64.ofNat args.length]) hx (by
        rw [hlength, hsp]
        exact Int.not_lt.mp hfull)
    have hpushed := hcells.counted
    -- the regions are those of before
    have hordered : x'.memory.Ordered := by
      unfold Ordered entries
      rw [hpushed.spans]
      exact hm
    have hin : x'.memory.inBounds a = true := by
      have hin := henc.inBounds hsize ha
      unfold inBounds at hin ⊢
      rw [hpushed.size]
      exact hin
    have henter := enter_of_shut hordered (hpushed.spans ▸ hs) hshut ha hin
    rw [if_neg hfull]
    refine ⟨x', (bind_of_ok hpush).trans (bind_of_error ?_), hpushed.steps⟩
    exact Machine.call_of_refused henter returnSentinel

/-- No call reaches an address: not from outside, by the address or by the name of a region that
begins there, and not by a call instruction. -/
structure Bars (m : Memory) (s : Span) (a : Addr) : Prop where
  invoke : ∀ (processor : Processor) (args : List Cell), ∃ x',
    Machine.invoke (some a) args { processor, memory := m } =
      .error (m.entryFailure s args) x' ∧ x'.processor.steps = 0
  callNamed : ∀ (name : String) (t : Span), m.spanNamed? name = some t → t.base = a →
    ∀ (processor : Processor) (args : List Cell), ∃ x',
      Machine.callNamed name args { processor, memory := m } =
        .error (m.entryFailure s args) x' ∧ x'.processor.steps = 0
  step : ∀ (processor : Processor) (ins : Fetched),
    ¬(Machine.mk processor m).spent → m.fetch processor.pc = .ok ins →
    (Machine.mk processor m).callTarget? ins = some a →
    Machine.step (Machine.mk processor m) =
      .error (.machineFault processor.pc ins.op.code s.refusal)
        ((Machine.mk processor m).advanced ins)

end Memory

/-- **A region that was torn is never called.** In every estate that can come about a region into
which something was written since it was sealed last is leased or poisoned, and no call reaches an
address in a region that is leased or poisoned. A call from outside takes no step at all, and a call
instruction is the last step of its run. -/
theorem Estate.Reachable.torn_never_called {w : Estate} (hw : w.Reachable) :
    (∀ s ∈ w.memory.spans, Dirty w.history s.id → s.Shut) ∧
      ∀ s ∈ w.memory.spans, w.memory.Encloses s → s.Shut →
        ∀ a, s.contains a = true → w.memory.Bars s a := by
  obtain ⟨size, stack, m₀, hnew, hpath⟩ := hw.path
  obtain ⟨-, hlimit, hstack, hsize⟩ := hpath.bounds hnew
  refine ⟨fun s hs hdirty => hw.guarded hs hdirty, ?_⟩
  intro s hs henc hshut a ha
  have hinvoke := Memory.invoke_of_shut hpath.ordered hlimit hstack hsize hs henc hshut ha
  refine ⟨hinvoke, ?_, ?_⟩
  · rintro name t hname rfl processor args
    unfold Machine.callNamed
    simp only [hname]
    exact hinvoke processor args
  · intro processor ins hsteps hfetch htarget
    have henter := Memory.enter_of_shut hpath.ordered hs hshut ha (henc.inBounds hsize ha)
    exact Machine.step_of_refused hsteps hfetch htarget henter

namespace Estate

/-- A rewrite that was given up after its first instruction. -/
def sampleTorn : Estate :=
  run { memory := { cells := Array.replicate 16 0, limit := 8 } }
    [.memory (.reserve "hook" 4), .memory (.leaseNamed "hook"), .occupy .dynamic 0,
      .tenant 0 (.add (.emitOp none .nop [])), .lease 0 .release]

/-- The region of the rewrite. -/
def sampleTornSpan : Span :=
  { id := 0, name := "hook", base := 0, capacity := 4, length := 3, poisoned := true }

/-- The region is dirty, and a call of it fails before the first step. -/
theorem torn_never_called_sample :
    sampleTorn.Reachable ∧ Dirty sampleTorn.history 0 ∧ ∃ x',
      Machine.callNamed "hook" [] { processor := {}, memory := sampleTorn.memory } =
        .error (.regionPoisoned "region hook") x' ∧ x'.processor.steps = 0 := by
  have hnew : Memory.new 16 8 = .ok { cells := Array.replicate 16 0, limit := 8 } := rfl
  have hreach : sampleTorn.Reachable := Reachable.run (.new hnew) _
  have hhistory : sampleTorn.history = [(0, .stored)] := by decide +kernel
  have hspans : sampleTorn.memory.spans = #[sampleTornSpan] := by decide +kernel
  have hname : sampleTorn.memory.spanNamed? "hook" = some sampleTornSpan := by decide +kernel
  have hsize : sampleTorn.memory.cells.size = 16 := by decide +kernel
  have hlimit : sampleTorn.memory.limit = 8 := by decide +kernel
  have hs : sampleTornSpan ∈ sampleTorn.memory.spans := by simp [hspans]
  have hdirty : Dirty sampleTorn.history sampleTornSpan.id := by
    rw [hhistory]
    exact ⟨[], [], rfl, by simp⟩
  have henc : sampleTorn.memory.Encloses sampleTornSpan := by
    refine ⟨by decide, by decide, ?_⟩
    rw [hsize]
    decide
  obtain ⟨hshut, hbars⟩ := hreach.torn_never_called
  have hbar := hbars sampleTornSpan hs henc (hshut sampleTornSpan hs hdirty) 0 (by decide)
  have hfailure : sampleTorn.memory.entryFailure sampleTornSpan [] =
      .regionPoisoned "region hook" := by
    unfold Memory.entryFailure
    rw [hsize, hlimit]
    decide
  rw [← hfailure]
  exact ⟨hreach, hdirty, hbar.callNamed "hook" sampleTornSpan hname rfl {} []⟩

end Estate

end CellMachine
