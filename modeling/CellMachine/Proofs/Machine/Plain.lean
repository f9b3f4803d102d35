import CellMachine.Proofs.Machine.Unseen

/-!
# What a machine does not look at

A memory keeps a record of the leases that were granted on it, and each region the number of cells
that were sealed in it last. A machine looks at neither of them: a run in a memory without the
record and without these numbers goes the same way, step by step.

* `Memory.plain` — a memory without its record of leases and without the lengths of its regions;
  `Machine.unseen_plain` — no instruction looks at them.
* `Machine.step_commutes` — **one step does not look at them**, whichever instruction it executes.
* `Machine.callNamed_commutes` — **a call of a region does not look at them**, from its start to its
  end.
-/

namespace CellMachine

open CellMachine.Action

/-! ### Memories -/

/-- A region without the number of cells that were sealed in it last. -/
def Span.plain (s : Span) : Span := { s with length := 0 }

namespace Memory

/-- A memory without its record of leases and without the lengths of its regions. -/
def plain (m : Memory) : Memory := { m with spans := m.spans.map Span.plain, leases := #[] }

/-- A change of a region that has nothing to do with its length. -/
theorem updateSpan_plain (m : Memory) (id : Nat) {f : Span → Span}
    (hf : ∀ s : Span, f s.plain = (f s).plain) :
    m.plain.updateSpan id f = (m.updateSpan id f).plain := by
  unfold updateSpan plain
  congr 1
  rw [Array.map_map, Array.map_map]
  refine Array.map_congr_left fun s _ => ?_
  rw [Function.comp_apply, Function.comp_apply]
  show (if s.id = id then f s.plain else s.plain) = (if s.id = id then f s else s).plain
  by_cases hid : s.id = id
  · rw [if_pos hid, if_pos hid]
    exact hf s
  · rw [if_neg hid, if_neg hid]

/-- The place of a base among the regions does not depend on their lengths. -/
theorem searchSpans_plain (m : Memory) (p : Addr → Bool) :
    m.plain.searchSpans p = m.searchSpans p := by
  have hsize : m.plain.spans.size = m.spans.size := Array.size_map
  have hspan (i : Nat) : m.plain.spans[i]? = m.spans[i]?.map Span.plain := Array.getElem?_map
  unfold searchSpans
  rw [hsize]
  congr 1
  funext i
  rw [hspan]
  cases m.spans[i]? with
  | none => rfl
  | some s => rfl

/-- The region of an address is the same without its length. -/
theorem find?_plain (m : Memory) (a : Addr) : m.plain.find? a = (m.find? a).map Span.plain := by
  have hspan (i : Nat) : m.plain.spans[i]? = m.spans[i]?.map Span.plain := Array.getElem?_map
  unfold find?
  rw [searchSpans_plain]
  cases m.searchSpans fun base => a < base with
  | zero => rfl
  | succ i =>
    dsimp only
    rw [hspan]
    cases m.spans[i]? with
    | none => rfl
    | some s =>
      show (if s.contains a then some s.plain else none) =
        (if s.contains a then some s else none).map Span.plain
      by_cases ha : s.contains a
      · rw [if_pos ha, if_pos ha]
        rfl
      · rw [if_neg ha, if_neg ha]
        rfl

/-- The region of a name is the same without its length. -/
theorem spanNamed?_plain (m : Memory) (name : String) :
    m.plain.spanNamed? name = (m.spanNamed? name).map Span.plain := by
  unfold spanNamed?
  rw [Option.map_bind]
  refine congrArg (m.names.lookup name).bind (funext fun id => ?_)
  show (m.spans.map Span.plain).find? (fun s => s.id == id) = _
  rw [Array.find?_map]
  rfl

/-- Storing a cell does not look at leases and lengths. -/
theorem store_commutes (a : Addr) (v : Cell) : Commutes plain (store a v) := by
  intro m
  have hbounds : m.plain.inBounds a = m.inBounds a := rfl
  unfold store put
  rw [hbounds]
  by_cases hin : m.inBounds a
  · rw [if_pos hin, if_pos hin, if_pos hin, if_pos hin]
    rfl
  · rw [if_neg hin, if_neg hin]
    rfl

/-- Entering a region does not look at leases and lengths. -/
theorem enter_plain (a : Addr) (m : Memory) :
    enter a m.plain =
      match enter a m with
      | .ok span? m' => .ok (span?.map Span.plain) m'.plain
      | .error failure m' => .error failure m'.plain := by
  have hbounds : m.plain.inBounds a = m.inBounds a := rfl
  have hupdate (id : Nat) :=
    m.updateSpan_plain id (f := fun s => { s with running := s.running + 1 }) fun _ => rfl
  unfold enter
  rw [hbounds, find?_plain]
  by_cases hin : !m.inBounds a
  · rw [if_pos hin, if_pos hin]
  · rw [if_neg hin, if_neg hin]
    cases m.find? a with
    | none => rfl
    | some s =>
      show (if s.lease?.isSome then _ else if s.poisoned then _ else _) = _
      by_cases hleased : s.lease?.isSome
      · simp only [if_pos hleased]
        rfl
      · by_cases hpoisoned : s.poisoned
        · simp only [if_neg hleased, if_pos hpoisoned]
          rfl
        · simp only [if_neg hleased, if_neg hpoisoned]
          exact congrArg _ (hupdate s.id)

/-- Leaving a region does not look at leases and lengths. -/
theorem leave_plain (m : Memory) (id? : Option Nat) : m.plain.leave id? = (m.leave id?).plain := by
  cases id? with
  | none => rfl
  | some id => exact m.updateSpan_plain id fun _ => rfl

end Memory

/-! ### Machines -/

namespace Machine

/-- A machine in a memory without its record of leases and without the lengths of its regions. -/
def plain (x : Machine) : Machine := { x with memory := x.memory.plain }

/-- A change of the processor does not look at the memory. -/
theorem modifyProcessor_plain (f : Processor → Processor) :
    Commutes plain (modifyProcessor f) := fun _ => rfl

/-- Looking at the processor is not looking at the memory. -/
theorem getProcessor_plain : Commutes plain getProcessor := fun _ => rfl

/-- Reading a cell does not look at leases and lengths. -/
theorem load_plain (a : Addr) : Commutes plain (load a) := by
  intro x
  have hload : x.plain.memory.load a = x.memory.load a := rfl
  unfold load
  rw [hload]
  cases x.memory.load a with
  | ok v => rfl
  | error failure => rfl

/-- Storing a cell does not look at leases and lengths. -/
theorem store_plain (a : Addr) (v : Cell) : Commutes plain (store a v) := by
  intro ⟨processor, memory⟩
  have hstore := Memory.store_commutes a v memory
  unfold store onMemory plain
  dsimp only
  rw [hstore]
  cases Memory.store a v memory with
  | ok _ memory' => rfl
  | error failure memory' => rfl

/-- Pushing does not look at leases and lengths. -/
theorem push_plain (v : Cell) : Commutes plain (push v) := by
  intro ⟨processor, memory⟩
  have hstore := Memory.store_commutes (processor.sp - 1) v memory
  unfold push plain
  dsimp only
  have hlimit : memory.plain.limit = memory.limit := rfl
  rw [hlimit, hstore]
  by_cases hfull : processor.sp - 1 < memory.limit
  · rw [if_pos hfull, if_pos hfull]
    rfl
  · rw [if_neg hfull, if_neg hfull]
    cases Memory.store (processor.sp - 1) v memory with
    | ok _ memory' => rfl
    | error failure memory' => rfl

/-- The frame of a call, and the jump to its target: what follows once a region was entered. -/
def enterFrame (id? : Option Nat) (codeBase target ret : Addr) : Action Machine Unit := do
  let r ← getProcessor
  fun x =>
    match pushAll [r.codeBase, ret, r.fp] x with
    | .error failure x => .error failure { x with memory := x.memory.leave id? }
    | .ok () x =>
      .ok () { x with processor :=
        { x.processor with
          fp := x.processor.sp, active := id? :: x.processor.active, pc := target, codeBase } }

/-- The frame of a call does not look at leases and lengths. -/
theorem enterFrame_plain (id? : Option Nat) (codeBase target ret : Addr) :
    Commutes plain (enterFrame id? codeBase target ret) := by
  refine .bind getProcessor_plain fun r => ?_
  intro x
  dsimp only
  rw [pushAll_commutes push_plain [r.codeBase, ret, r.fp] x]
  cases pushAll [r.codeBase, ret, r.fp] x with
  | ok _ y => rfl
  | error failure y =>
    have hleave : y.plain.memory.leave id? = (y.memory.leave id?).plain := y.memory.leave_plain id?
    show EStateM.Result.error failure { y.plain with memory := y.plain.memory.leave id? } = _
    rw [hleave]
    rfl

/-- A call enters a region, of which it keeps the number and the base. -/
theorem call_eq_enterFrame (target ret : Addr) :
    call target ret = onMemory (Memory.enter target) >>= fun span? =>
      enterFrame (span?.map Span.id) ((span?.map Span.base).getD target) target ret := by
  unfold call enterFrame
  congr 1
  funext span?
  cases span? with
  | none => rfl
  | some span => rfl

/-- A call does not look at leases and lengths. -/
theorem call_plain (target ret : Addr) : Commutes plain (call target ret) := by
  intro ⟨processor, memory⟩
  have henter := Memory.enter_plain target memory
  rw [call_eq_enterFrame]
  cases hr : Memory.enter target memory with
  | error failure memory' =>
    rw [hr] at henter
    have hleft : onMemory (Memory.enter target) ⟨processor, memory⟩ =
        .error failure ⟨processor, memory'⟩ := by simp [onMemory, hr]
    have hright : onMemory (Memory.enter target) ⟨processor, memory.plain⟩ =
        .error failure ⟨processor, memory'.plain⟩ := by simp [onMemory, henter]
    rw [bind_of_error hleft]
    exact bind_of_error hright
  | ok span? memory' =>
    rw [hr] at henter
    have hleft : onMemory (Memory.enter target) ⟨processor, memory⟩ =
        .ok span? ⟨processor, memory'⟩ := by simp [onMemory, hr]
    have hright : onMemory (Memory.enter target) ⟨processor, memory.plain⟩ =
        .ok (span?.map Span.plain) ⟨processor, memory'.plain⟩ := by simp [onMemory, henter]
    have hframe := enterFrame_plain (span?.map Span.id) ((span?.map Span.base).getD target)
      target ret ⟨processor, memory'⟩
    rw [bind_of_ok hleft, ← hframe]
    refine (bind_of_ok hright).trans ?_
    cases span? with
    | none => rfl
    | some span => rfl

/-- Leaving an activation does not look at leases and lengths. -/
theorem leaveOne_plain (x : Machine) : x.plain.leaveOne = x.leaveOne.plain := by
  obtain ⟨processor, memory⟩ := x
  unfold leaveOne plain
  dsimp only
  cases processor.active with
  | nil => rfl
  | cons id? rest =>
    dsimp only
    rw [Memory.leave_plain]

/-- **No instruction looks at leases and lengths.** -/
instance unseen_plain : Unseen plain where
  look _ hg := .bind getProcessor_plain hg
  update _ := modifyProcessor_plain _
  load := load_plain
  store := store_plain
  push := push_plain
  call := call_plain
  leaveOne := leaveOne_plain
  sp _ := rfl
  size _ := rfl
  limit _ := rfl

/-- Leaving every activation does not look at leases and lengths. -/
theorem leaveAll_plain (x : Machine) : x.plain.leaveAll = x.leaveAll.plain := by
  obtain ⟨processor, memory⟩ := x
  have hleave : processor.active.foldl Memory.leave memory.plain =
      (processor.active.foldl Memory.leave memory).plain := by
    induction processor.active generalizing memory with
    | nil => rfl
    | cons id? rest ih =>
      rw [List.foldl_cons, List.foldl_cons, Memory.leave_plain]
      exact ih (memory.leave id?)
  unfold leaveAll plain
  dsimp only
  rw [hleave]

/-- **One step does not look at leases and lengths**, whichever instruction it executes. -/
theorem step_commutes : Commutes plain step := by
  have hcount : Commutes plain countStep :=
    .bind getProcessor_plain fun _ => .refuse (modifyProcessor_plain _)
  refine .bind hcount fun _ => .get_bind (fun _ => rfl) fun x => .bind (.ofExcept _) fun ins =>
    .bind (modifyProcessor_plain _) fun _ => ?_
  intro y
  have hperform := perform_commutes (f := plain) x.processor.pc ins y
  dsimp only
  rw [hperform]
  cases perform x.processor.pc ins y with
  | ok ended z => rfl
  | error cause z => rfl

/-- Any number of steps does not look at leases and lengths. -/
theorem runFor_commutes (fuel : Nat) : Commutes plain (runFor fuel) := by
  induction fuel with
  | zero => exact .throw _
  | succ fuel ih =>
    refine .bind step_commutes fun ended => ?_
    exact .ite (.bind getProcessor_plain fun _ => .pure _) ih

/-- A call from outside does not look at leases and lengths. -/
theorem start_commutes (entry : Addr) (args : List Cell) : Commutes plain (start entry args) := by
  refine .bind (.modify fun _ => rfl) fun _ => .bind (pushAll_commutes push_plain _) fun _ =>
    .bind (push_plain _) fun _ => .bind (call_plain _ _) fun _ => ?_
  exact .bind getProcessor_plain fun _ => runFor_commutes _

/-- A call of an address does not look at leases and lengths. -/
theorem invoke_commutes (target? : Option Addr) (args : List Cell) :
    Commutes plain (invoke target? args) := by
  intro x
  unfold invoke
  cases target? with
  | none => rfl
  | some entry =>
    dsimp only
    rw [start_commutes entry args x]
    cases start entry args x with
    | ok v y => exact congrArg (EStateM.Result.ok v) y.leaveAll_plain
    | error failure y => exact congrArg (EStateM.Result.error failure) y.leaveAll_plain

/-- **A call of a region does not look at leases and lengths**, from its start to its end. -/
theorem callNamed_commutes (name : String) (args : List Cell) :
    Commutes plain (callNamed name args) := by
  intro x
  have hspan := x.memory.spanNamed?_plain name
  change x.plain.memory.spanNamed? name = _ at hspan
  unfold callNamed
  rw [hspan]
  cases x.memory.spanNamed? name with
  | none => rfl
  | some s => exact invoke_commutes (some s.base) args x

end Machine

end CellMachine
