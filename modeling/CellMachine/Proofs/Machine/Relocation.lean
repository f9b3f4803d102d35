import CellMachine.Proofs.Machine.Shifted

/-!
# Code that may stand anywhere

A region can be overwritten with any code, and the same code can be put into different regions. It
does the same in each of them, as long as it keeps to itself: it fetches its instructions from the
region and its data from elsewhere, and it does not call, since a call saves the program counter and
the start of the routine on the stack.

* `Memory.fetches` — the cells from which an instruction is fetched; `Machine.Confined` — a step
  that keeps to its code.
* `Memory.Twin.fetch` — the same instruction is fetched at both places.
* `Machine.step_inStep`, `Machine.runFor_inStep` — **one step goes the same way at both places, and
  so does a run.**
* `Machine.invoke_relocated` — **code is position independent.**
-/

namespace CellMachine

open CellMachine.Action

variable {b b' : Addr} {code : List Cell}

/-! ### Fetching -/

/-- A failure as it is reported of an instruction that stands elsewhere. -/
def Failure.shifted (δ : Addr) : Failure → Failure
  | .machineFault pc code cause => .machineFault (pc + δ) code cause
  | failure => failure

/-- The cells from which the instruction at an address is fetched: the opcode, and a cell for each
operand if there is an instruction. -/
def Memory.fetches (m : Memory) (pc : Addr) : List Addr :=
  match m.load pc with
  | .ok word =>
    (List.range ((Op.ofCell? word).elim 1 Op.width)).map fun i => pc + Int64.ofNat i
  | .error _ => [pc]

/-- The first cell is fetched in any case. -/
theorem Memory.mem_fetches (m : Memory) (pc : Addr) : pc ∈ m.fetches pc := by
  unfold fetches
  split
  · next word _ =>
    refine List.mem_map.mpr ⟨0, List.mem_range.mpr ?_, Int64.add_zero pc⟩
    cases Op.ofCell? word with
    | none => exact Nat.one_pos
    | some op =>
      show 0 < 1 + op.slots.length
      omega
  · exact List.mem_singleton_self pc

namespace Memory.Twin

variable {m m' : Memory}

/-- **The same instruction is fetched in both ranges**, or the same cell is refused. -/
theorem fetch (h : Twin b b' code m m') {pc : Addr}
    (hpc : ∀ a ∈ m.fetches pc, Covers b code.length a) :
    m'.fetch (pc + (b' - b)) = (m.fetch pc).mapError (Failure.shifted (b' - b)) := by
  obtain ⟨i, hi, rfl⟩ := (hpc pc (m.mem_fetches pc)).exists_offset h.short
  have hshift : b + Int64.ofNat i + (b' - b) = b' + Int64.ofNat i := by grind
  have hword : code[i]? = some code[i] := List.getElem?_eq_getElem hi
  have hload := h.held i _ hword
  have hload' := h.held' i _ hword
  rw [hshift]
  cases hcell : Op.ofCell? code[i] with
  | none =>
    rw [fetch_of_lone hload hcell, fetch_of_lone hload' hcell, ← hshift]
    rfl
  | some op =>
    have hlast : i + op.slots.length < code.length := by
      have hmem : b + Int64.ofNat i + Int64.ofNat op.slots.length ∈
          m.fetches (b + Int64.ofNat i) := by
        unfold fetches
        rw [hload]
        simp only [hcell]
        exact List.mem_map.mpr ⟨_, List.mem_range.mpr (by show _ < 1 + _; omega), rfl⟩
      exact h.held.offset_lt h.short hi op.length_slots_le (hpc _ hmem)
    have hlength : ((code.drop (i + 1)).take op.slots.length).length = op.slots.length := by
      rw [List.length_take, List.length_drop]
      omega
    have hoperands {m : Memory} {base : Addr} (h : m.Holds base code) :
        m.Holds (base + Int64.ofNat i + 1) ((code.drop (i + 1)).take op.slots.length) := by
      have hdrop := (h.drop (i + 1)).take op.slots.length
      rwa [Int64.ofNat_add, ← Int64.add_assoc] at hdrop
    rw [fetch_of_op hload hcell hlength (hoperands h.held),
      fetch_of_op hload' hcell hlength (hoperands h.held')]
    rfl

end Memory.Twin

namespace Machine

variable {δ : Addr} {x x' : Machine}

/-! ### Steps -/

/-- The step of a machine stays in the range of its code: it fetches there, it does not call, it
accesses data outside both ranges only, and if it is a return it ends the run. -/
structure Confined (b b' : Addr) (n : Nat) (x : Machine) : Prop where
  fetches : ∀ a ∈ x.memory.fetches x.processor.pc, Covers b n a
  plain : ∀ ins, x.memory.fetch x.processor.pc = .ok ins → ins.op ≠ .call ∧ ins.op ≠ .calla
  accesses : ∀ ins, x.memory.fetch x.processor.pc = .ok ins →
    ∀ c ∈ x.accesses ins, Elsewhere b b' n c
  ends : ∀ ins, x.memory.fetch x.processor.pc = .ok ins → ins.op = .ret →
    ∀ y, step x ≠ .ok false y

/-- **A step that stays in its code is taken in the same way elsewhere.** -/
theorem step_inStep (hx : Shifted b b' code (b' - b) (b' - b) x x')
    (hconfined : ¬x.spent → x.Confined b b' code.length) :
    Matches (fun ended y y' => Alike b b' code y y' ∧
        (ended = false → Shifted b b' code (b' - b) (b' - b) y y'))
      (fun f g y y' => g = f.shifted (b' - b) ∧ Alike b b' code y y') (step x) (step x') := by
  cases hx with
  | @mk r active m m' hm =>
    have hx := Shifted.mk (δ := b' - b) (Δ := b' - b) r active hm
    by_cases hspent : spent ⟨r, m⟩
    · have hspent' : spent ⟨r.shifted (b' - b) (b' - b) active, m'⟩ := hspent
      rw [step_of_spent hspent, step_of_spent hspent']
      exact .error ⟨rfl, _, _, hx⟩
    have hspent' : ¬spent ⟨r.shifted (b' - b) (b' - b) active, m'⟩ := hspent
    have hc := hconfined hspent
    have hfetch' := hm.fetch hc.fetches
    cases hfetch : m.fetch r.pc with
    | error failure =>
      rw [hfetch] at hfetch'
      rw [step_of_unfetched hspent hfetch, step_of_unfetched hspent' hfetch']
      exact .error ⟨rfl, _, _, .mk { r with steps := r.steps + 1 } active hm⟩
    | ok ins =>
      rw [hfetch] at hfetch'
      have hadvanced : Shifted b b' code (b' - b) (b' - b) (advanced ⟨r, m⟩ ins)
          (advanced ⟨r.shifted (b' - b) (b' - b) active, m'⟩ ins) := by
        have hpc : r.pc + (b' - b) + Int64.ofNat ins.op.width =
            r.pc + Int64.ofNat ins.op.width + (b' - b) := by grind
        have hmk := Shifted.mk (δ := b' - b) (Δ := b' - b)
          { r with steps := r.steps + 1, pc := r.pc + Int64.ofNat ins.op.width } active hm
        unfold Processor.shifted at hmk
        rw [← hpc] at hmk
        exact hmk
      have hstep := step_eq hspent hfetch
      have hends (hop : ins.op = .ret) (y : Machine) :
          perform r.pc ins (advanced ⟨r, m⟩ ins) ≠ .ok false y := by
        intro hperform
        rw [hperform] at hstep
        exact hc.ends ins hfetch hop y hstep
      have hperform := perform_inStep hadvanced (hc.plain ins hfetch).1 (hc.plain ins hfetch).2
        (hc.accesses ins hfetch) hends
      have hpc : (r.shifted (b' - b) (b' - b) active).pc = r.pc + (b' - b) := rfl
      rw [hstep, step_eq hspent' hfetch']
      dsimp only
      rw [hpc]
      generalize perform r.pc ins _ = o at hperform ⊢
      generalize perform (r.pc + (b' - b)) ins _ = o' at hperform ⊢
      cases hperform with
      | ok h => exact .ok h
      | error h =>
        obtain ⟨rfl, halike⟩ := h
        exact .error ⟨rfl, halike⟩

/-! ### Runs -/

variable {args : List Cell}

/-- **A run that stays in its code goes the same way elsewhere.** -/
theorem runFor_inStep
    (hconfined : ∀ y, Visits b args x y → ¬y.spent → y.Confined b b' code.length) (fuel : Nat) :
    ∀ {y y' : Machine}, Visits b args x y → Shifted b b' code (b' - b) (b' - b) y y' →
      Matches (fun _ => Alike b b' code)
        (fun f g z z' => g = f.shifted (b' - b) ∧ Alike b b' code z z') (runFor fuel y)
        (runFor fuel y') := by
  induction fuel with
  | zero =>
    intro y y' _ hy
    exact .error ⟨rfl, _, _, hy⟩
  | succ fuel ih =>
    intro y y' hvisits hy
    refine (step_inStep hy (hconfined y hvisits)).bind_of_ok fun ended z z' hstep _ hz => ?_
    cases ended with
    | true =>
      obtain ⟨⟨δ, Δ, hz⟩, -⟩ := hz
      cases hz with
      | mk r active hm => exact .ok ⟨_, _, .mk r active hm⟩
    | false => exact ih (hvisits.step hstep) (hz.2 rfl)

/-- The same number of steps is allowed. -/
theorem run_inStep
    (hconfined : ∀ y, Visits b args x y → ¬y.spent → y.Confined b b' code.length)
    {y y' : Machine} (hvisits : Visits b args x y)
    (hy : Shifted b b' code (b' - b) (b' - b) y y') :
    Matches (fun _ => Alike b b' code)
      (fun f g z z' => g = f.shifted (b' - b) ∧ Alike b b' code z z') (run y) (run y') := by
  have hrun := runFor_inStep hconfined
    (if 0 < y.processor.stepLimit then y.processor.stepLimit.toNat + 1 else endless) hvisits hy
  cases hy with
  | mk r active hm => exact hrun

/-! ### Calls from outside -/

/-- A call enters the code in both memories, if there is a region in each that lets it in; from then
on the processors are shifted by the distance of the two. -/
theorem call_inStep (hx : Shifted b b' code δ 0 x x') {s s' : Span} {m₁ m₁' : Memory}
    (henter : Memory.enter b x.memory = .ok (some s) m₁)
    (henter' : Memory.enter b' x'.memory = .ok (some s') m₁') (hs : s.base = b)
    (hs' : s'.base = b')
    (hcells : ∀ c ∈ x.memory.pushes x.processor.sp 3, Elsewhere b b' code.length c) (ret : Addr) :
    Matches (fun _ => Shifted b b' code (b' - b) (b' - b))
      (fun f g y y' => f = g ∧ Alike b b' code y y') (call b ret x) (call b' ret x') := by
  cases hx with
  | @mk r active m m' hm =>
    have hentered : Memory.Twin b b' code m₁ m₁' := by
      rw [Memory.enter_ok henter, Memory.enter_ok henter']
      exact hm.withSpans _ _
    have hcells₁ : ∀ c ∈ m₁.pushes r.sp 3, Elsewhere b b' code.length c := by
      rw [Memory.enter_ok henter]
      exact hcells
    have hpushes := pushAll_inStep (k := 0) [r.codeBase, ret, r.fp]
      (Shifted.mk (δ := δ) (Δ := 0) r active hentered) hcells₁
    generalize hpush : pushAll [r.codeBase, ret, r.fp] ⟨r, m₁⟩ = o at hpushes
    generalize hpush' : pushAll [r.codeBase, ret, r.fp] ⟨r.shifted δ 0 active, m₁'⟩ = o' at hpushes
    have hbase : (r.shifted δ 0 active).codeBase = r.codeBase := Int64.add_zero _
    cases hpushes with
    | @ok _ y y' h =>
      have hcall : call b ret ⟨r, m⟩ = .ok () (y.activated b (some s)) :=
        call_ok_iff.mpr ⟨_, _, y, henter, hpush, rfl⟩
      have hcall' : call b' ret ⟨r.shifted δ 0 active, m'⟩ =
          .ok () (y'.activated b' (some s')) :=
        call_ok_iff.mpr ⟨_, _, y', henter', by rw [hbase]; exact hpush', rfl⟩
      rw [hcall, hcall']
      obtain ⟨hy, -⟩ := h
      cases hy with
      | mk r₁ active₁ hm₁ =>
        have hmk := Shifted.mk (δ := b' - b) (Δ := b' - b)
          { r₁ with fp := r₁.sp, active := some s.id :: r₁.active, pc := b, codeBase := b }
          (some s'.id :: active₁) hm₁
        have hdistance : b + (b' - b) = b' := by grind
        unfold Processor.shifted at hmk
        simp only [hdistance] at hmk
        refine .ok ?_
        unfold activated
        simp only [hs, hs']
        exact hmk
    | @error f g y y' h =>
      rw [call_of_full henter hpush, call_of_full henter' (by rw [hbase]; exact hpush')]
      refine .error ⟨h.1, δ, 0, ?_⟩
      obtain ⟨-, hy⟩ := h
      cases hy with
      | mk r₁ active₁ hm₁ =>
        dsimp only
        rw [Memory.leave_eq, Memory.leave_eq]
        exact .mk r₁ active₁ (hm₁.withSpans _ _)

end Machine

/-- The same failure, or the same fault of an instruction that stands elsewhere. -/
inductive Failure.Moved (δ : Addr) : Failure → Failure → Prop
  | same (failure : Failure) : Moved δ failure failure
  | fault (pc : Addr) (code : UInt16) (cause : Failure) :
    Moved δ (.machineFault pc code cause) (.machineFault (pc + δ) code cause)

/-- A failure is moved with its instruction. -/
theorem Failure.moved_shifted (δ : Addr) (failure : Failure) :
    Moved δ failure (failure.shifted δ) := by
  unfold shifted
  split
  · exact .fault _ _ _
  · exact .same _

/-- A failure that was moved is of the same kinds. -/
theorem Failure.Moved.kinds {δ : Addr} {f g : Failure} (h : Moved δ f g) : g.kinds = f.kinds := by
  cases h with
  | same => rfl
  | fault => rfl

/-- There is a region of `n` cells at an address, and it lets calls in. -/
def Memory.LetsIn (m : Memory) (b : Addr) (n : Nat) : Prop :=
  ∃ s m₁, enter b m = .ok (some s) m₁ ∧ s.base = b ∧ s.capacity.toInt = n

namespace Machine

/-- The registers that a program can see, the number of steps and the cells outside two ranges are
the same. -/
structure SameResult (b b' : Addr) (n : Nat) (x x' : Machine) : Prop where
  p : x'.processor.p = x.processor.p
  s : x'.processor.s = x.processor.s
  steps : x'.processor.steps = x.processor.steps
  outside : ∀ a, Elsewhere b b' n a → x'.memory.load a = x.memory.load a

variable {x x' : Machine} {args : List Cell}

/-- Machines that are alike still have the same result after all regions were left. -/
theorem Alike.leaveAll (h : Alike b b' code x x') :
    SameResult b b' code.length x.leaveAll x'.leaveAll := by
  obtain ⟨δ, Δ, hx⟩ := h
  cases hx with
  | mk r active hm =>
    refine ⟨rfl, rfl, rfl, fun a ha => ?_⟩
    show Memory.load (List.foldl Memory.leave _ _) a = Memory.load (List.foldl Memory.leave _ _) a
    rw [Memory.load_foldl_leave, Memory.load_foldl_leave]
    exact hm.outside a ha

/-- The call from outside, up to the end of the run. -/
theorem start_inStep (hm : Memory.Twin b b' code x.memory x'.memory)
    (hregion : x.memory.LetsIn b code.length) (hregion' : x'.memory.LetsIn b' code.length)
    (hp : x'.processor.p = x.processor.p) (hs : x'.processor.s = x.processor.s)
    (hlimit : x'.processor.stepLimit = x.processor.stepLimit)
    (hframe : ∀ c ∈ x.memory.pushes (Int64.ofNat x.memory.size) (args.length + 4),
      Elsewhere b b' code.length c)
    (hconfined : ∀ y, Visits b args x y → ¬y.spent → y.Confined b b' code.length) :
    Matches (fun _ => Alike b b' code)
      (fun f g z z' => f.Moved (b' - b) g ∧ Alike b b' code z z') (start b args x)
      (start b' args x') := by
  obtain ⟨s, m₁, henter, hbase, -⟩ := hregion
  obtain ⟨s', m₁', henter', hbase', -⟩ := hregion'
  have hpc : x.processor.pc + (x'.processor.pc - x.processor.pc) = x'.processor.pc := by grind
  have hprocessor : x'.ready.processor =
      x.ready.processor.shifted (x'.processor.pc - x.processor.pc) 0 [] := by
    unfold ready Processor.shifted Memory.size
    simp only [hp, hs, hlimit, hm.size, hpc, Int64.add_zero]
  have hready : Shifted b b' code (x'.processor.pc - x.processor.pc) 0 x.ready x'.ready := by
    have hmk := Shifted.mk (δ := x'.processor.pc - x.processor.pc) (Δ := 0) x.ready.processor [] hm
    rw [← hprocessor] at hmk
    exact hmk
  have hlength : (args.reverse ++ [Int64.ofNat args.length]).length + 3 = args.length + 4 := by
    simp
  have hpushes := pushAll_inStep (k := 3) (args.reverse ++ [Int64.ofNat args.length]) hready
    (by rw [hlength]; exact hframe)
  have hsame {f g : Failure} (h : f = g) : f.Moved (b' - b) g := h ▸ .same f
  rw [start_eq, start_eq]
  refine (hpushes.mono (fun _ _ _ h => h) fun f g _ _ h =>
    ⟨hsame h.1, _, _, h.2⟩).bind_of_ok fun _ y y' hpush hpush' ⟨hy, hcells⟩ => ?_
  -- the pushes change cells alone, so the regions still let the call in
  have hentered {x y : Machine} {vs : List Cell} {b : Addr} {s : Span} {m₁ : Memory}
      (hpush : pushAll vs x.ready = .ok () y) (henter : Memory.enter b x.memory = .ok (some s) m₁) :
      Memory.enter b y.memory = .ok (some s) { m₁ with cells := y.memory.cells } := by
    have hpushed := (pushAll_undisturbed (x := x.ready) vs).ok (.refl _) hpush
    rw [hpushed.memory]
    exact Memory.enter_withCells henter hpushed.size
  have hcall := call_inStep hy (hentered hpush henter) (hentered hpush' henter') hbase hbase'
    hcells returnSentinel
  refine (hcall.mono (fun _ _ _ h => h) fun f g _ _ h => ⟨hsame h.1, h.2⟩).bind_of_ok
    fun _ z z' hcall _ hz => ?_
  have hvisits : Visits b args x z := .start ((bind_of_ok hpush).trans hcall)
  exact (run_inStep hconfined hvisits hz).mono (fun _ _ _ h => h) fun f g _ _ h =>
    ⟨h.1 ▸ f.moved_shifted (b' - b), h.2⟩

/-- **Code is position independent.** Two memories of the same size and with the same stack agree
outside two ranges of `n` cells; the first has a region at the first range and the second one at the
second range, both let calls in, and they hold the same cells. Two processors have the same `P`, `S`
and step limit. If the call of the first region keeps its frame and its data out of both ranges, and
its run fetches inside the region, does not call, and returns to the outside if it returns, then the
call of the second region ends in the same way: with the same answer, or with a failure of the same
kinds, which names the place that corresponds. `P`, `S`, the number of steps and all cells outside
the two ranges are the same. -/
theorem invoke_relocated
    (hsize : x'.memory.cells.size = x.memory.cells.size)
    (hstack : x'.memory.limit = x.memory.limit)
    (hagree : ∀ a, Elsewhere b b' code.length a → x'.memory.load a = x.memory.load a)
    (hregion : x.memory.LetsIn b code.length) (hheld : x.memory.Holds b code)
    (hregion' : x'.memory.LetsIn b' code.length) (hheld' : x'.memory.Holds b' code)
    (hp : x'.processor.p = x.processor.p) (hs : x'.processor.s = x.processor.s)
    (hlimit : x'.processor.stepLimit = x.processor.stepLimit)
    (hframe : ∀ c ∈ x.memory.pushes (Int64.ofNat x.memory.size) (args.length + 4),
      Elsewhere b b' code.length c)
    (hconfined : ∀ y, Visits b args x y → ¬y.spent → y.Confined b b' code.length) :
    Matches (fun _ => SameResult b b' code.length)
      (fun f g z z' => f.Moved (b' - b) g ∧ g.kinds = f.kinds ∧
        SameResult b b' code.length z z')
      (invoke (some b) args x) (invoke (some b') args x') := by
  have hshort : code.length < 2 ^ 63 := by
    obtain ⟨s, -, -, -, hcapacity⟩ := hregion
    have hrange := s.capacity.toInt_lt
    omega
  have hstart := start_inStep ⟨hsize, hstack, hagree, hshort, hheld, hheld'⟩ hregion hregion' hp hs
    hlimit hframe hconfined
  unfold invoke
  dsimp only
  generalize start b args x = o at hstart ⊢
  generalize start b' args x' = o' at hstart ⊢
  cases hstart with
  | ok h => exact .ok h.leaveAll
  | error h => exact .error ⟨h.1, h.1.kinds, h.2.leaveAll⟩

/-- A step stays in its code if the instruction that it fetches does. -/
theorem Confined.of_fetch {n : Nat} {ins : Fetched}
    (hfetch : x.memory.fetch x.processor.pc = .ok ins)
    (hfetches : ∀ a ∈ x.memory.fetches x.processor.pc, Covers b n a)
    (hplain : ins.op ≠ .call ∧ ins.op ≠ .calla)
    (haccesses : ∀ c ∈ x.accesses ins, Elsewhere b b' n c)
    (hends : ins.op = .ret → ∀ y, step x ≠ .ok false y) : x.Confined b b' n := by
  have hsame {ins' : Fetched} (h : x.memory.fetch x.processor.pc = .ok ins') : ins' = ins :=
    (Except.ok.inj (hfetch.symm.trans h)).symm
  exact ⟨hfetches, fun _ h => hsame h ▸ hplain, fun _ h => hsame h ▸ haccesses,
    fun _ h => hsame h ▸ hends⟩

/-- A routine of five cells: it jumps over a trap, adds one to `P` and returns. -/
def sampleRoutine : List Cell :=
  [Op.jump.cell, 3, Op.trap.cell, Op.incP.cell, Op.ret.cell]

/-- A machine whose memory has the routine at an address. -/
def sampleSeated (b : Addr) (before after : List Cell) : Machine where
  processor := { p := 41 }
  memory :=
    { cells := (before ++ sampleRoutine ++ after).toArray, limit := 12
      spans := #[{ id := 0, name := "roam", base := b, capacity := 5 }]
      names := ⟨[("roam", 0)]⟩ }

/-- The routine at the start of the memory. -/
def sampleNear : Machine := sampleSeated 0 [] (List.replicate 11 0)

/-- The routine further on; where it stood before there are other cells. -/
def sampleFar : Machine := sampleSeated 6 [7, 7, 7, 7, 7, 0] (List.replicate 5 0)

/-- The machine before the jump of the routine. -/
def sampleEntered : Machine := (entered 0 []).after sampleNear

/-- The third step of the routine is the return, which ends the run. -/
theorem step_sampleEntered : step (step.after (step.after sampleEntered)) =
    .ok true (step.after (step.after (step.after sampleEntered))) := of_result? (by decide +kernel)

/-- The machines that the call of the routine visits: before the jump, before the addition and
before the return. -/
theorem visits_sampleNear {y : Machine} (h : Visits 0 [] sampleNear y) :
    y = sampleEntered ∨ y = step.after sampleEntered ∨
      y = step.after (step.after sampleEntered) := by
  induction h with
  | start hentered => exact .inl (after_of_ok hentered).symm
  | step _ hstep ih =>
    rcases ih with rfl | rfl | rfl
    · exact .inr (.inl (after_of_ok hstep).symm)
    · exact .inr (.inr (after_of_ok hstep).symm)
    · rw [step_sampleEntered] at hstep
      cases hstep

/-- The two memories agree outside the two places. -/
theorem sampleFar_load {a : Addr} (ha : Elsewhere 0 6 5 a) :
    sampleFar.memory.load a = sampleNear.memory.load a := by
  have hcells : ∀ k < 16, Elsewhere 0 6 5 (Int64.ofNat k) →
      sampleFar.memory.load (Int64.ofNat k) = sampleNear.memory.load (Int64.ofNat k) := by
    decide +kernel
  have hbounds : sampleFar.memory.inBounds a = sampleNear.memory.inBounds a := rfl
  by_cases hin : sampleNear.memory.inBounds a
  · obtain ⟨hlow, hhigh⟩ := Memory.inBounds_iff.mp hin
    change a.toInt < 16 at hhigh
    have hindex : Int64.ofNat a.toInt.toNat = a := by
      rw [← Int64.toInt_inj, Int64.toInt_ofNat_of_lt (by omega)]
      omega
    have hcell := hcells a.toInt.toNat (by omega)
    rw [hindex] at hcell
    exact hcell ha
  · unfold Memory.load
    rw [hbounds, if_neg hin, if_neg hin]

/-- The routine gives the same answer at both places. -/
theorem invoke_relocated_sample :
    ∃ z z', invoke (some 0) [] sampleNear = .ok 42 z ∧ invoke (some 6) [] sampleFar = .ok 42 z' ∧
      SameResult 0 6 5 z z' := by
  have hregion : sampleNear.memory.LetsIn 0 5 :=
    ⟨{ id := 0, name := "roam", base := 0, capacity := 5 },
      (Memory.enter 0).after sampleNear.memory, of_result? (by decide +kernel), rfl, rfl⟩
  have hregion' : sampleFar.memory.LetsIn 6 5 :=
    ⟨{ id := 0, name := "roam", base := 6, capacity := 5 },
      (Memory.enter 6).after sampleFar.memory, of_result? (by decide +kernel), rfl, rfl⟩
  have hslice : sampleNear.memory.slice 0 5 = .ok sampleRoutine.toArray := by decide +kernel
  have hslice' : sampleFar.memory.slice 6 5 = .ok sampleRoutine.toArray := by decide +kernel
  have hheld : sampleNear.memory.Holds 0 sampleRoutine := Memory.holds_of_slice hslice
  have hheld' : sampleFar.memory.Holds 6 sampleRoutine := Memory.holds_of_slice hslice'
  -- the addresses are looked through as a list; there are too many of them to try them all
  have hall {p : Addr → Prop} [DecidablePred p] {l : List Addr}
      (h : (l.all fun a => decide (p a)) = true) : ∀ a ∈ l, p a :=
    fun a ha => of_decide_eq_true (List.all_eq_true.mp h a ha)
  have hconfined (y : Machine) (hy : Visits 0 [] sampleNear y) : y.Confined 0 6 5 := by
    rcases visits_sampleNear hy with rfl | rfl | rfl
    · exact @Confined.of_fetch _ _ _ _ { op := .jump, first := 3 } (by decide +kernel)
        (hall (by decide +kernel)) (by decide) (hall (by decide +kernel)) (fun h => (nomatch h))
    · exact @Confined.of_fetch _ _ _ _ { op := .incP } (by decide +kernel)
        (hall (by decide +kernel)) (by decide) (hall (by decide +kernel)) (fun h => (nomatch h))
    · refine @Confined.of_fetch _ _ _ _ { op := .ret } (by decide +kernel)
        (hall (by decide +kernel)) (by decide) (hall (by decide +kernel)) fun _ z hz => ?_
      rw [step_sampleEntered] at hz
      cases hz
  have hsize : sampleFar.memory.cells.size = sampleNear.memory.cells.size := rfl
  have hmatches : Matches (fun _ => SameResult 0 6 5) _
      (invoke (some 0) [] sampleNear) (invoke (some 6) [] sampleFar) :=
    invoke_relocated hsize rfl (fun _ => sampleFar_load) hregion hheld hregion' hheld' rfl rfl rfl
      (hall (by decide +kernel)) (fun y hy _ => hconfined y hy)
  have hnear : invoke (some 0) [] sampleNear =
      .ok 42 ((invoke (some 0) []).after sampleNear) := of_result? (by decide +kernel)
  rw [hnear] at hmatches
  generalize hfar : invoke (some 6) [] sampleFar = o at hmatches
  cases hmatches with
  | ok h => exact ⟨_, _, hnear, rfl, h⟩

end Machine

end CellMachine
