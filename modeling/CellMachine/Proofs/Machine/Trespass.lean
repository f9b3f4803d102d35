import CellMachine.Proofs.Machine.Entry
import CellMachine.Proofs.Machine.Registers

/-!
# Ways into a region

A region that is leased or poisoned refuses to be called. It does not refuse to be executed: the
program counter gets into it by a jump, by a return to an address that was rewritten, or by falling
through from the cell before. The module says that there is no other way.

* `Machine.Visits` — the machines that a call from outside steps through; `Machine.start_cases` —
  the call comes to what the last of them comes to.
* `Machine.call_of_step`, `Machine.quiet_of_step` — what a step does that calls, and what a step
  does that neither calls nor returns.
* `Machine.Way` — how the program counter gets on without a call.
* `Machine.Trespass` — a step from outside a region to an instruction inside.
* `Estate.Reachable.executes_iff_trespass` — **an instruction of a leased or poisoned region is
  executed exactly if the run trespasses**: never by the call from outside or a call instruction.
-/

namespace CellMachine

open CellMachine.Action

/-! ### Regions during a run -/

namespace Memory

/-- The regions without the numbers of their activations. -/
def idleSpans (m : Memory) : Array Span := m.spans.map fun s => { s with running := 0 }

/-- The same regions as in another memory, up to activations. -/
def SameRegions (m m' : Memory) : Prop := m'.idleSpans = m.idleSpans

/-- Activations do not show. -/
theorem idleSpans_updateSpan (m : Memory) (id : Nat) (f : Nat → Nat) :
    (m.updateSpan id fun s => { s with running := f s.running }).idleSpans = m.idleSpans := by
  unfold idleSpans updateSpan
  rw [Array.map_map]
  refine Array.map_congr_left fun s _ => ?_
  rw [Function.comp_apply]
  split
  · rfl
  · rfl

/-- What a machine does to its memory leaves the regions alone, up to activations. -/
theorem upheld_sameRegions (m : Memory) : Upheld m.SameRegions where
  store a v m' h := by
    unfold after store put
    by_cases hin : m'.inBounds a
    · simp only [if_pos hin]
      exact h
    · simp only [if_neg hin]
      exact h
  enter a m' h := by
    unfold after enter
    by_cases hbounds : !m'.inBounds a
    · simp only [if_pos hbounds]
      exact h
    · simp only [if_neg hbounds]
      cases m'.find? a with
      | none => exact h
      | some s =>
        by_cases hleased : s.lease?.isSome
        · simp only [if_pos hleased]
          exact h
        · by_cases hpoisoned : s.poisoned
          · simp only [if_neg hleased, if_pos hpoisoned]
            exact h
          · simp only [if_neg hleased, if_neg hpoisoned]
            exact (idleSpans_updateSpan m' s.id (· + 1)).trans h
  leave id? m' h := by
    cases id? with
    | none => exact h
    | some id => exact (idleSpans_updateSpan m' id (· - 1)).trans h

/-- The regions of a memory are found again in another one that has the same regions. -/
theorem SameRegions.mem {m m' : Memory} (h : m.SameRegions m') {s : Span} (hs : s ∈ m.spans) :
    ∃ running, { s with running } ∈ m'.spans := by
  have hidle : { s with running := 0 } ∈ m'.idleSpans := by
    rw [h]
    exact Array.mem_map.mpr ⟨s, hs, rfl⟩
  obtain ⟨t, ht, heq⟩ := Array.mem_map.mp hidle
  refine ⟨t.running, ?_⟩
  have hst : { s with running := t.running } = t := by
    obtain ⟨id, name, base, capacity, length, lease?, running, poisoned⟩ := t
    cases s
    cases heq
    rfl
  rwa [hst]

/-- The same regions stand in the same order. -/
theorem SameRegions.ordered {m m' : Memory} (h : m.SameRegions m') (hm : m.Ordered) :
    m'.Ordered := by
  have hentries (m : Memory) : m.entries = m.idleSpans.toList.map Span.entry := by
    unfold entries idleSpans
    rw [Array.toList_map, List.map_map]
    rfl
  unfold Ordered
  rw [hentries, h, ← hentries]
  exact hm

/-- A region that was leased or poisoned when a run began is not entered during the run. -/
theorem SameRegions.not_entered {m m' : Memory} (h : m.SameRegions m') (hm : m.Ordered) {s : Span}
    (hs : s ∈ m.spans) (hshut : s.Shut) {a : Addr} (ha : s.contains a = true) :
    ∃ failure, enter a m' = .error failure m' := by
  obtain ⟨running, hs'⟩ := h.mem hs
  by_cases hin : m'.inBounds a = true
  · exact ⟨_, enter_of_shut (h.ordered hm) hs' hshut ha hin⟩
  · refine ⟨.outOfBounds (.enter a), ?_⟩
    unfold enter
    simp [hin]

end Memory

namespace Machine

/-! ### The machines of a run -/

/-- A call from outside up to its first step. -/
def entered (entry : Addr) (args : List Cell) : Action Machine Unit := fun x =>
  (do
    pushAll (args.reverse ++ [Int64.ofNat args.length])
    call entry returnSentinel) x.ready

/-- A call from outside enters the code and runs it. -/
theorem start_eq_entered (entry : Addr) (args : List Cell) :
    start entry args = (do entered entry args; run) := by
  funext x
  rw [start_eq, ← bind_assoc]
  rfl

/-- The machines that a call from outside steps through, each as it is before its step. -/
inductive Visits (entry : Addr) (args : List Cell) (x : Machine) : Machine → Prop
  | start {y : Machine} : entered entry args x = .ok () y → Visits entry args x y
  | step {y z : Machine} : Visits entry args x y → Machine.step y = .ok false z →
    Visits entry args x z

/-- **A run is made of the steps of the machines that it visits**: it ends with the last of them,
well or with a failure, or has no fuel for the next one. -/
theorem Visits.runFor {entry : Addr} {args : List Cell} {x : Machine} (fuel : Nat) :
    ∀ {y : Machine}, Visits entry args x y → ∃ z, Visits entry args x z ∧
      ((∃ z', Machine.step z = .ok true z' ∧ Machine.runFor fuel y = .ok z'.processor.p z') ∨
        (∃ failure z', Machine.step z = .error failure z' ∧
          Machine.runFor fuel y = .error failure z') ∨
        Machine.runFor fuel y = .error .outOfFuel z) := by
  induction fuel with
  | zero =>
    intro y hy
    exact ⟨y, hy, .inr (.inr rfl)⟩
  | succ fuel ih =>
    intro y hy
    obtain ⟨failure, z', hstep, hrun⟩ | ⟨z', hstep, hrun⟩ | ⟨z', hstep, hrun⟩ :=
      runFor_cases fuel y
    · exact ⟨y, hy, .inr (.inl ⟨failure, z', hstep, hrun⟩)⟩
    · exact ⟨y, hy, .inl ⟨z', hstep, hrun⟩⟩
    · rw [hrun]
      exact ih (hy.step hstep)

/-- **A call from outside is made of the machines that it visits**: it fails before its first step,
or it ends as the run from there ends. -/
theorem start_cases (entry : Addr) (args : List Cell) (x : Machine) :
    (∃ failure y, entered entry args x = .error failure y ∧
        start entry args x = .error failure y) ∨
      ∃ z, Visits entry args x z ∧
        ((∃ z', step z = .ok true z' ∧ start entry args x = .ok z'.processor.p z') ∨
          (∃ failure z', step z = .error failure z' ∧ start entry args x = .error failure z') ∨
          start entry args x = .error .outOfFuel z) := by
  rw [start_eq_entered]
  cases hentered : entered entry args x with
  | error failure y => exact .inl ⟨failure, y, rfl, bind_of_error hentered⟩
  | ok _ y =>
    rw [bind_of_ok hentered]
    exact .inr (Visits.runFor _ (.start hentered))

/-- What a machine upholds of its memory holds all along a run. -/
theorem Visits.upheld {P : Memory → Prop} (hP : Upheld P) {entry : Addr} {args : List Cell}
    {x y : Machine} (h : Visits entry args x y) (hx : P x.memory) : P y.memory := by
  induction h with
  | start hentered =>
    have hpreserves : Preserves (Over P) (do
        pushAll (args.reverse ++ [Int64.ofNat args.length])
        call entry returnSentinel) :=
      .bind (pushAll_preserves hP _) fun _ => call_preserves hP _ _
    exact hpreserves.ok (s := x.ready) hx hentered
  | step _ hstep ih => exact (step_preserves hP).ok ih hstep

/-- The regions are the same all along a run, up to activations. -/
theorem Visits.sameRegions {entry : Addr} {args : List Cell} {x y : Machine}
    (h : Visits entry args x y) : x.memory.SameRegions y.memory :=
  h.upheld x.memory.upheld_sameRegions rfl

/-! ### How the program counter gets on -/

/-- The program counter stands at an address. -/
def At (a : Addr) (x : Machine) : Prop := x.processor.pc = a

/-- An instruction that is neither a jump nor a call keeps the program counter, which is behind it
already. -/
theorem execute_at {a : Addr} {op : Op} (hlabel : Kind.label ∉ op.slots) (hcalla : op ≠ .calla)
    (pc : Addr) (first second : Cell) : Preserves (At a) (execute pc first second op) :=
  execute_shows (fun _ _ _ _ => rfl) hlabel hcalla pc first second

/-- How the program counter gets from one machine to the next without a call. -/
inductive Way (y : Machine) (ins : Fetched) (z : Machine) : Prop
  /-- A jump is taken. -/
  | jump : Kind.label ∈ ins.op.slots → ins.op ≠ .call →
    ins.op.takes y.processor.p y.processor.s →
    z.processor.pc = ins.op.destination y.processor.codeBase y.processor.pc ins.first → Way y ins z
  /-- The next instruction stands behind this one. -/
  | fall : z.processor.pc = y.processor.pc + Int64.ofNat ins.op.width → Way y ins z
  /-- A frame is taken down, and its return address is gone to. -/
  | ret : ins.op = .ret → Way y ins z

/-- All instructions but two go on with the run. -/
theorem perform_eq {op : Op} (hhalt : op ≠ .halt) (hret : op ≠ .ret) (pc : Addr)
    (first second : Cell) :
    perform pc ⟨op, first, second⟩ = (do execute pc first second op; return false) := by
  cases op
  case halt => exact absurd rfl hhalt
  case ret => exact absurd rfl hret
  all_goals rfl

/-- An instruction with a label slot has one operand. -/
theorem perform_of_label {op : Op} (hlabel : Kind.label ∈ op.slots) (pc : Addr)
    (first second : Cell) : perform pc ⟨op, first, second⟩ = perform pc { op, first } := by
  rcases Op.cases_of_label hlabel with rfl | rfl | rfl | rfl | rfl | rfl | rfl <;> rfl

/-- A step that ends well performs an instruction. -/
theorem perform_of_step {y z : Machine} {ins : Fetched} {ended : Bool}
    (hfetch : y.memory.fetch y.processor.pc = .ok ins) (hstep : step y = .ok ended z) :
    perform y.processor.pc ins (y.advanced ins) = .ok ended z := by
  rw [step_eq (not_spent_of_step hstep) hfetch] at hstep
  split at hstep
  · next hperform =>
    cases hstep
    exact hperform
  · cases hstep

/-- A call instruction that performs well calls its target. -/
theorem call_of_step {y z : Machine} {ins : Fetched} {ended : Bool} {target : Addr}
    (hfetch : y.memory.fetch y.processor.pc = .ok ins) (hstep : step y = .ok ended z)
    (htarget : y.callTarget? ins = some target) :
    ∃ ret, call target ret (y.advanced ins) = .ok () z := by
  have hperform := perform_of_step hfetch hstep
  obtain ⟨op, first, second⟩ := ins
  cases op
  case call | calla =>
    cases htarget
    obtain ⟨⟨⟩, z', hexecute, hanswer⟩ := ok_of_bind hperform
    cases hanswer
    obtain ⟨r, y', hget, hcall⟩ := ok_of_bind hexecute
    cases hget
    exact ⟨_, hcall⟩
  all_goals cases htarget

/-- A step that neither calls nor returns is a jump, which sets the program counter and nothing
else, or it executes an instruction without a label slot. -/
theorem quiet_of_step {y z : Machine} {ins : Fetched}
    (hfetch : y.memory.fetch y.processor.pc = .ok ins) (hstep : step y = .ok false z)
    (hcall : y.callTarget? ins = none) (hret : ins.op ≠ .ret) :
    (Kind.label ∈ ins.op.slots ∧ ins.op ≠ .call ∧ z = { y.advanced ins with processor :=
      { (y.advanced ins).processor with
        pc := if ins.op.takes y.processor.p y.processor.s then
            ins.op.destination y.processor.codeBase y.processor.pc ins.first
          else y.processor.pc + Int64.ofNat ins.op.width } }) ∨
    (Kind.label ∉ ins.op.slots ∧ ins.op ≠ .calla ∧
      execute y.processor.pc ins.first ins.second ins.op (y.advanced ins) = .ok () z) := by
  have hperform := perform_of_step hfetch hstep
  obtain ⟨op, first, second⟩ := ins
  by_cases hlabel : Kind.label ∈ op.slots
  · have hop : op ≠ .call := by
      rintro rfl
      cases hcall
    rw [perform_of_label hlabel, perform_of_jump hlabel hop] at hperform
    cases hperform
    exact .inl ⟨hlabel, hop, rfl⟩
  · have hcalla : op ≠ .calla := by
      rintro rfl
      cases hcall
    have hhalt : op ≠ .halt := by
      rintro rfl
      cases hperform
    rw [perform_eq hhalt hret] at hperform
    obtain ⟨⟨⟩, w, hexecute, hanswer⟩ := ok_of_bind hperform
    cases hanswer
    exact .inr ⟨hlabel, hcalla, hexecute⟩

/-- A call instruction that performs well leads to its target. -/
theorem pc_of_callTarget {y z : Machine} {ins : Fetched} {ended : Bool} {target : Addr}
    (hfetch : y.memory.fetch y.processor.pc = .ok ins) (hstep : step y = .ok ended z)
    (htarget : y.callTarget? ins = some target) : z.processor.pc = target := by
  obtain ⟨ret, hcall⟩ := call_of_step hfetch hstep htarget
  exact pc_of_call hcall

/-- **Without a call the program counter gets on by a jump, a return or falling through.** -/
theorem way_of_step {y z : Machine} {ins : Fetched}
    (hfetch : y.memory.fetch y.processor.pc = .ok ins) (hstep : step y = .ok false z)
    (hcall : y.callTarget? ins = none) : y.Way ins z := by
  by_cases hret : ins.op = .ret
  · exact .ret hret
  rcases quiet_of_step hfetch hstep hcall hret with
    ⟨hlabel, hop, rfl⟩ | ⟨hlabel, hcalla, hexecute⟩
  · by_cases htakes : ins.op.takes y.processor.p y.processor.s = true
    · exact .jump hlabel hop htakes (if_pos htakes)
    · exact .fall (if_neg htakes)
  · exact .fall ((execute_at hlabel hcalla _ _ _).ok (s := y.advanced ins) rfl hexecute)

/-! ### Trespassing -/

/-- An instruction of a region is executed: the run has steps left, and there is an instruction at
the program counter, which stands in the region. -/
def Executes (x : Machine) (s : Span) : Prop :=
  ¬x.spent ∧ (∃ ins, x.memory.fetch x.processor.pc = .ok ins) ∧
    s.contains x.processor.pc = true

/-- A step that ends well executes an instruction. -/
theorem fetch_of_step {x x' : Machine} {ended : Bool} (h : step x = .ok ended x') :
    ∃ ins, x.memory.fetch x.processor.pc = .ok ins := by
  have hcount : countStep x = .ok () { x with processor :=
      { x.processor with steps := x.processor.steps + 1 } } := by
    rw [countStep_eq, if_neg (not_spent_of_step h)]
  unfold step at h
  rw [bind_of_ok hcount] at h
  obtain ⟨y, y', hget, h⟩ := ok_of_bind h
  cases hget
  obtain ⟨ins, y'', hfetch, -⟩ := ok_of_bind h
  cases hload : x.memory.fetch x.processor.pc with
  | ok ins => exact ⟨ins, rfl⟩
  | error failure =>
    simp only [hload] at hfetch
    cases hfetch

/-- A step from outside a region to an instruction inside, without a call. -/
structure Trespass (s : Span) (y z : Machine) : Prop where
  outside : s.contains y.processor.pc = false
  step : Machine.step y = .ok false z
  inside : z.Executes s
  way : ∃ ins, y.memory.fetch y.processor.pc = .ok ins ∧ y.callTarget? ins = none ∧ y.Way ins z

variable {entry : Addr} {args : List Cell} {x : Machine}

/-- A call from outside does not enter a region that is leased or poisoned. -/
theorem not_contains_of_entered (hm : x.memory.Ordered) {s : Span} (hs : s ∈ x.memory.spans)
    (hshut : s.Shut) {y : Machine} (h : entered entry args x = .ok () y) :
    s.contains y.processor.pc = false := by
  obtain ⟨⟨⟩, x₁, hpush, hcall⟩ := ok_of_bind h
  have hsame : x.memory.SameRegions x₁.memory :=
    (pushAll_preserves x.memory.upheld_sameRegions _).ok (s := x.ready) rfl hpush
  rw [pc_of_call hcall]
  cases ha : s.contains entry with
  | false => rfl
  | true =>
    obtain ⟨failure, henter⟩ := hsame.not_entered hm hs hshut ha
    rw [call_of_refused henter] at hcall
    cases hcall

/-- A call instruction does not lead into a region that is leased or poisoned. -/
theorem callTarget?_of_step (hm : x.memory.Ordered) {s : Span} (hs : s ∈ x.memory.spans)
    (hshut : s.Shut) {y z : Machine} (hsame : x.memory.SameRegions y.memory)
    (hstep : step y = .ok false z) (hz : s.contains z.processor.pc = true) {ins : Fetched}
    (hfetch : y.memory.fetch y.processor.pc = .ok ins) : y.callTarget? ins = none := by
  cases htarget : y.callTarget? ins with
  | none => rfl
  | some target =>
    rw [pc_of_callTarget hfetch hstep htarget] at hz
    obtain ⟨failure, henter⟩ := hsame.not_entered hm hs hshut hz
    rw [step_of_refused (not_spent_of_step hstep) hfetch htarget henter] at hstep
    cases hstep

/-- **An instruction of a region that was leased or poisoned when a run began is executed exactly if
the run trespasses.** -/
theorem executes_iff_of_shut (hm : x.memory.Ordered) {s : Span} (hs : s ∈ x.memory.spans)
    (hshut : s.Shut) :
    (∃ y, Visits entry args x y ∧ y.Executes s) ↔
      ∃ y z, Visits entry args x y ∧ Trespass s y z := by
  constructor
  · rintro ⟨z, hvisits, hexecutes⟩
    induction hvisits with
    | start hentered =>
      have hinside := hexecutes.2.2
      rw [not_contains_of_entered hm hs hshut hentered] at hinside
      cases hinside
    | @step y z hy hstep ih =>
      cases hinside : s.contains y.processor.pc with
      | true => exact ih ⟨not_spent_of_step hstep, fetch_of_step hstep, hinside⟩
      | false =>
        obtain ⟨ins, hfetch⟩ := fetch_of_step hstep
        have hcall := callTarget?_of_step hm hs hshut hy.sameRegions hstep hexecutes.2.2 hfetch
        have hway := way_of_step hfetch hstep hcall
        exact ⟨y, z, hy, hinside, hstep, hexecutes, ins, hfetch, hcall, hway⟩
  · rintro ⟨y, z, hvisits, htrespass⟩
    exact ⟨z, hvisits.step htrespass.step, htrespass.inside⟩

end Machine

/-- **A leased or poisoned region is executed exactly if a run trespasses.** In every memory that
can come about, whatever is called and with whichever program, the only ways into such a region are
a jump, a return and falling through; the call from outside and the call instructions are
refused. -/
theorem Estate.Reachable.executes_iff_trespass {w : Estate} (hw : w.Reachable) {s : Span}
    (hs : s ∈ w.memory.spans) (hshut : s.Shut) (processor : Processor) (entry : Addr)
    (args : List Cell) :
    (∃ y, Machine.Visits entry args { processor, memory := w.memory } y ∧ y.Executes s) ↔
      ∃ y z, Machine.Visits entry args { processor, memory := w.memory } y ∧
        Machine.Trespass s y z :=
  Machine.executes_iff_of_shut (x := { processor, memory := w.memory }) hw.sound.ordered hs hshut

namespace Estate

/-- A routine that begins with a jump to the end of the routine, where another region begins, which
is leased. -/
def sampleLeased : Estate :=
  run { memory := { cells := Array.replicate 32 0, limit := 16 } }
    [.memory (.reserve "main" 3), .memory (.reserve "hook" 3), .memory (.store 0 Op.jrel.cell),
      .memory (.store 1 2), .memory (.leaseNamed "hook")]

/-- The region that is leased. -/
def sampleLeasedSpan : Span :=
  { id := 1, name := "hook", base := 3, capacity := 3, length := 3, lease? := some 0 }

/-- The machine before the jump. -/
def sampleJump : Machine :=
  (Machine.entered 0 []).after { processor := {}, memory := sampleLeased.memory }

/-- The jump trespasses, and the leased region is executed. -/
theorem executes_iff_trespass_sample :
    sampleLeased.Reachable ∧ sampleLeasedSpan ∈ sampleLeased.memory.spans ∧
      ∃ y, Machine.Visits 0 [] { processor := {}, memory := sampleLeased.memory } y ∧
        y.Executes sampleLeasedSpan := by
  have hnew : Memory.new 32 16 = .ok { cells := Array.replicate 32 0, limit := 16 } := rfl
  have hreach : sampleLeased.Reachable := Reachable.run (.new hnew) _
  have hs : sampleLeasedSpan ∈ sampleLeased.memory.spans := by decide +kernel
  have hentered : Machine.entered 0 [] { processor := {}, memory := sampleLeased.memory } =
      .ok () sampleJump := of_result? (by decide +kernel)
  have hstep : Machine.step sampleJump = .ok false (Machine.step.after sampleJump) :=
    of_result? (by decide +kernel)
  have hjump : sampleJump.memory.fetch sampleJump.processor.pc =
      .ok { op := .jrel, first := 2 } := by decide +kernel
  have hproc : (Machine.step.after sampleJump).memory.fetch
      (Machine.step.after sampleJump).processor.pc = .ok { op := .proc } := by decide +kernel
  have htrespass :
      Machine.Trespass sampleLeasedSpan sampleJump (Machine.step.after sampleJump) := by
    refine ⟨by decide +kernel, hstep, ⟨by decide +kernel, ⟨_, hproc⟩, by decide +kernel⟩,
      _, hjump, rfl, ?_⟩
    exact .jump (by decide) (by decide) rfl (by decide +kernel)
  refine ⟨hreach, hs, ?_⟩
  exact (hreach.executes_iff_trespass hs (.inl rfl) {} 0 []).mpr
    ⟨sampleJump, _, .start hentered, htrespass⟩

end Estate

end CellMachine
