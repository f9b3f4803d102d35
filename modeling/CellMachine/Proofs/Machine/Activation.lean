import Mathlib.Data.List.Chain
import CellMachine.Proofs.Machine.Frame
import CellMachine.Proofs.Machine.Trespass

/-!
# Activations

Between a call and the return that ends it other routines are called and return. Each of them leaves
a frame and takes it down again, so the frame pointers that are saved in the live frames lead from
the innermost one back to the frame of the call. A return relies on the four cells of linkage in its
frame and on nothing else: `STACK` and the `POP` instructions may move the stack pointer as they
like.

* `Memory.LinkageKept` — the linkage of some frames is left alone.
* `Machine.Nested` — a run inside an activation, with the frames that are live on top of it.
* `Machine.Nested.chained` — **the live frames are linked**, each to the next one.
* `Machine.calling_returns` — **a call builds its frame, and the return that ends the activation
  restores what was there before the arguments were pushed.**
-/

namespace CellMachine

open CellMachine.Action

namespace Memory

/-- The four cells of linkage of each frame hold what they held before. -/
def LinkageKept (frames : List Addr) (m m' : Memory) : Prop :=
  ∀ f ∈ frames, ∀ k < 4, m'.load (f + Int64.ofNat k) = m.load (f + Int64.ofNat k)

-- The frames are gone through; there are too many addresses to go through them.
instance (frames : List Addr) (m m' : Memory) : Decidable (LinkageKept frames m m') :=
  List.decidableBAll (fun f => ∀ k < 4, m'.load (f + Int64.ofNat k) = m.load (f + Int64.ofNat k))
    frames

/-- The saved frame pointer belongs to the linkage. -/
theorem LinkageKept.saved {frames : List Addr} {m m' : Memory} (h : LinkageKept frames m m')
    {f : Addr} (hf : f ∈ frames) : m'.load f = m.load f := by
  have hzero : f + Int64.ofNat 0 = f := Int64.add_zero f
  have hfirst := h f hf 0 (by decide)
  rwa [hzero] at hfirst

/-- Linkage that is kept for longer. -/
theorem LinkageKept.trans {frames : List Addr} {m₁ m₂ m₃ : Memory}
    (h₁ : LinkageKept frames m₁ m₂) (h₂ : LinkageKept frames m₂ m₃) : LinkageKept frames m₁ m₃ :=
  fun f hf k hk => (h₂ f hf k hk).trans (h₁ f hf k hk)

/-- The linkage of fewer frames. -/
theorem LinkageKept.mono {frames frames' : List Addr} {m m' : Memory} (h : LinkageKept frames m m')
    (hsub : frames' ⊆ frames) : LinkageKept frames' m m' := fun f hf => h f (hsub hf)

/-- A machine does not change the size of its memory. -/
theorem upheld_size (n : Nat) : Upheld fun m => m.cells.size = n where
  store a v m h := by
    unfold after store put
    by_cases hin : m.inBounds a
    · simp only [if_pos hin]
      exact Array.size_setIfInBounds.trans h
    · simp only [if_neg hin]
      exact h
  enter a m h := by
    cases henter : enter a m with
    | ok span? m' =>
      rw [after_of_ok henter, enter_ok henter]
      exact h
    | error failure m' =>
      rw [after_of_error henter, enter_error henter]
      exact h
  leave id? m h := by
    cases id? with
    | none => exact h
    | some id => exact h

end Memory

namespace Machine

/-! ### Steps and the frame pointer -/

/-- What was pushed is the cell at the stack pointer. -/
theorem push_ok {x y : Machine} {v : Cell} (h : push v x = .ok () y) :
    y.memory.load y.processor.sp = .ok v := by
  obtain ⟨processor, memory⟩ := x
  unfold push at h
  dsimp only at h
  split at h
  · cases h
  · split at h
    · next hstore =>
      obtain ⟨hin, rfl⟩ := Memory.store_ok hstore
      cases h
      exact (Memory.load_set hin v _).trans (if_pos rfl)
    · cases h

/-- A call that ends well saves the frame pointer in the cell at the new one. -/
theorem saved_of_call {x z : Machine} {target ret : Addr} (h : call target ret x = .ok () z) :
    z.memory.load z.processor.fp = .ok x.processor.fp := by
  obtain ⟨span?, memory, y, -, hpush, rfl⟩ := call_ok_iff.mp h
  obtain ⟨⟨⟩, y₁, -, hpush⟩ := ok_of_bind hpush
  obtain ⟨⟨⟩, y₂, -, hpush⟩ := ok_of_bind hpush
  obtain ⟨⟨⟩, y₃, hlast, hpush⟩ := ok_of_bind hpush
  cases hpush
  exact push_ok (y := y) hlast

variable {z z' : Machine} {ins : Fetched} {ended : Bool}

/-- A call instruction that performs well saves the frame pointer. -/
theorem saved_of_step (hfetch : z.memory.fetch z.processor.pc = .ok ins)
    (hcall : (z.callTarget? ins).isSome) (hstep : step z = .ok ended z') :
    z'.memory.load z'.processor.fp = .ok z.processor.fp := by
  obtain ⟨target, htarget⟩ := Option.isSome_iff_exists.mp hcall
  obtain ⟨ret, hcalled⟩ := call_of_step hfetch hstep htarget
  exact saved_of_call (x := z.advanced ins) hcalled

/-- A step that neither calls nor returns keeps the frame pointer. -/
theorem fp_of_step (hfetch : z.memory.fetch z.processor.pc = .ok ins)
    (hcall : z.callTarget? ins = none) (hret : ins.op ≠ .ret) (hstep : step z = .ok false z') :
    z'.processor.fp = z.processor.fp := by
  rcases quiet_of_step hfetch hstep hcall hret with ⟨-, -, rfl⟩ | ⟨hlabel, hcalla, hexecute⟩
  · rfl
  · exact (execute_shows (g := Processor.fp) (fun _ _ _ _ => rfl) hlabel hcalla _ _ _).ok
      (s := z.advanced ins) rfl hexecute

/-- A step of a return goes back to the frame pointer that was saved, and writes no cell. -/
theorem ret_of_step (hfetch : z.memory.fetch z.processor.pc = .ok ins) (hret : ins.op = .ret)
    (hstep : step z = .ok ended z') :
    z.memory.load z.processor.fp = .ok z'.processor.fp ∧
      z'.memory.cells = z.memory.cells := by
  have hperform := perform_of_step hfetch hstep
  obtain ⟨op, first, second⟩ := ins
  cases hret
  exact ret_ok (x := z.advanced _) hperform

/-! ### Runs inside an activation -/

/-- The machine `y` has just called, and the run has come to `z`: the calls that have not returned
yet have the frames of the list, innermost first. No step has changed the linkage of a frame that
was live at the time, the one of `y` included. -/
inductive Nested (y : Machine) : Machine → List Addr → Prop
  | start : Nested y y []
  /-- An instruction of the routine that is running. -/
  | inside {z z' : Machine} {frames : List Addr} {ins : Fetched} : Nested y z frames →
    z.memory.fetch z.processor.pc = .ok ins → z.callTarget? ins = none → ins.op ≠ .ret →
    step z = .ok false z' →
    Memory.LinkageKept (frames ++ [y.processor.fp]) z.memory z'.memory → Nested y z' frames
  /-- One more call. -/
  | call {z z' : Machine} {frames : List Addr} {ins : Fetched} : Nested y z frames →
    z.memory.fetch z.processor.pc = .ok ins → (z.callTarget? ins).isSome → step z = .ok false z' →
    Memory.LinkageKept (frames ++ [y.processor.fp]) z.memory z'.memory →
    Nested y z' (z'.processor.fp :: frames)
  /-- The innermost call returns. -/
  | ret {z z' : Machine} {f : Addr} {frames : List Addr} {ins : Fetched} :
    Nested y z (f :: frames) → z.memory.fetch z.processor.pc = .ok ins → ins.op = .ret →
    step z = .ok false z' → Nested y z' frames

/-- A frame is linked to the next one: it holds its address. -/
def Linked (m : Memory) (f g : Addr) : Prop := m.load f = .ok g

/-- Frames stay linked if their linkage is kept. -/
theorem isChain_linked_of_kept {m m' : Memory} {frames : List Addr}
    (hkept : Memory.LinkageKept frames m m') (h : frames.IsChain (Linked m)) :
    frames.IsChain (Linked m') := by
  refine List.IsChain.imp_of_mem_imp (fun f g hf _ hlink => ?_) h
  exact (hkept.saved hf).trans hlink

/-- What the steps inside an activation keep: the frame pointer is that of the innermost frame, the
frames are linked down to the one of the activation, and the linkage there is what it was. -/
structure Chained (y z : Machine) (frames : List Addr) : Prop where
  fp : (frames ++ [y.processor.fp]).head? = some z.processor.fp
  links : (frames ++ [y.processor.fp]).IsChain (Linked z.memory)
  kept : Memory.LinkageKept [y.processor.fp] y.memory z.memory
  size : z.memory.cells.size = y.memory.cells.size

/-- **The live frames are linked**, each to the next one, and the frame of the activation is as the
call left it. -/
theorem Nested.chained {y z : Machine} {frames : List Addr} (h : y.Nested z frames) :
    y.Chained z frames := by
  have hsize {z z' : Machine} {ended : Bool} (hstep : step z = .ok ended z')
      (hz : z.memory.cells.size = y.memory.cells.size) :
      z'.memory.cells.size = y.memory.cells.size :=
    (step_preserves (Memory.upheld_size _)).ok hz hstep
  have hbase (frames : List Addr) : [y.processor.fp] ⊆ frames ++ [y.processor.fp] :=
    List.subset_append_right frames _
  induction h with
  | start => exact ⟨rfl, List.isChain_singleton _, fun _ _ _ _ => rfl, rfl⟩
  | inside _ hfetch hcall hret hstep hkept ih =>
    refine ⟨?_, isChain_linked_of_kept hkept ih.links, ih.kept.trans (hkept.mono (hbase _)),
      hsize hstep ih.size⟩
    rw [fp_of_step hfetch hcall hret hstep]
    exact ih.fp
  | @call z z' frames _ _ hfetch hcall hstep hkept ih =>
    refine ⟨rfl, ?_, ih.kept.trans (hkept.mono (hbase _)), hsize hstep ih.size⟩
    refine List.isChain_cons.mpr ⟨?_, isChain_linked_of_kept hkept ih.links⟩
    intro g hg
    have hsame : z.processor.fp = g := Option.some.inj (ih.fp.symm.trans hg)
    exact (saved_of_step hfetch hcall hstep).trans (congrArg Except.ok hsame)
  | @ret z z' f frames _ _ hfetch hret hstep ih =>
    obtain ⟨hsaved, hcells⟩ := ret_of_step hfetch hret hstep
    obtain ⟨hlink, hrest⟩ := List.isChain_cons.mp ih.links
    have hload (a : Addr) : z'.memory.load a = z.memory.load a := by
      unfold Memory.load Memory.inBounds Memory.get
      rw [hcells]
    have htop : f = z.processor.fp := Option.some.inj ih.fp
    refine ⟨?_, isChain_linked_of_kept (fun _ _ _ _ => hload _) hrest,
      ih.kept.trans fun _ _ _ _ => hload _, hsize hstep ih.size⟩
    obtain ⟨g, hg⟩ : ∃ g, (frames ++ [y.processor.fp]).head? = some g :=
      Option.isSome_iff_exists.mp (by simp)
    have hback : z.memory.load f = .ok g := hlink g hg
    rw [htop, hsaved] at hback
    cases hback
    exact hg

/-- **A call builds its frame, and the return that ends the activation restores what was there
before the arguments were pushed**, whatever is called in between: the run goes on at the return
address, or is over if that is the address which ends it. -/
theorem calling_returns {x : Machine} (hx : x.Stacked) {args : List Cell}
    (hroom : x.memory.limit.toInt + (args.length + 4) ≤ x.processor.sp.toInt) {target : Addr}
    {span? : Option Span} {memory : Memory}
    (henter : Memory.enter target x.memory = .ok span? memory) (ret : Addr) :
    ∃ y, calling target ret args x = .ok () y ∧ x.Framed target ret args y ∧
      ∀ z ins, y.Nested z [] → ¬z.spent → z.memory.fetch z.processor.pc = .ok ins →
        ins.op = .ret → ∃ z', step z = .ok (ret == returnSentinel) z' ∧
          z'.processor.sp = x.processor.sp ∧ z'.processor.fp = x.processor.fp ∧
          z'.processor.codeBase = x.processor.codeBase ∧ z'.processor.pc = ret := by
  obtain ⟨y, hcalling, hframed⟩ := calling_of_room hx hroom henter ret
  refine ⟨y, hcalling, hframed, ?_⟩
  intro z ins hnested hsteps hfetch hret
  have hmax : (maxCells : Int) = 35184372088832 := by decide
  have hlimit := hx.limit
  have hhigh := hx.high
  have hsize := hx.size
  have hchained := hnested.chained
  have hfp : y.processor.fp = z.processor.fp := Option.some.inj hchained.fp
  have hsp : z.processor.fp.toInt = x.processor.sp.toInt - args.length - 4 := by
    rw [← hfp, hframed.fp]
    exact hframed.sp
  have hcells : z.memory.cells.size = x.memory.cells.size := hchained.size.trans hframed.size
  have hcount : (Int64.ofNat args.length).toInt = args.length :=
    Int64.toInt_ofNat_of_lt (by omega)
  -- the linkage is still the one that the call has pushed
  have hload (k : Nat) (hk : k < 4) : z.memory.load (z.processor.fp + Int64.ofNat k) =
      y.memory.load (y.processor.fp + Int64.ofNat k) := by
    rw [← hfp]
    exact hchained.kept _ List.mem_cons_self k hk
  have hsaved : z.memory.load z.processor.fp = .ok x.processor.fp := by
    rw [← hfp]
    exact (hchained.kept.saved List.mem_cons_self).trans hframed.savedFp
  obtain ⟨z', hreturn, hsp', hfp', hpc', hbase'⟩ := ret_of_linkage (x := z.advanced ins)
    (by rw [← hcells] at hsize; exact hsize) (by show 0 ≤ z.processor.fp.toInt; omega)
    (by rw [hcount]; omega)
    (by
      show z.processor.fp.toInt + 4 + (Int64.ofNat args.length).toInt ≤ z.memory.cells.size
      omega)
    hsaved ((hload 1 (by decide)).trans hframed.savedPc)
    ((hload 2 (by decide)).trans hframed.savedBase) ((hload 3 (by decide)).trans hframed.count)
  refine ⟨z', ?_, ?_, hfp', hbase', hpc'⟩
  · obtain ⟨op, first, second⟩ := ins
    cases hret
    rw [step_eq hsteps hfetch]
    have hperform :
        perform z.processor.pc ⟨.ret, first, second⟩ (z.advanced ⟨.ret, first, second⟩) =
          .ok (ret == returnSentinel) z' := hreturn
    rw [hperform]
  · rw [← Int64.toInt_inj, hsp']
    show z.processor.fp.toInt + 4 + (Int64.ofNat args.length).toInt = x.processor.sp.toInt
    omega

/-- A machine with a routine at 0 that calls the one at 5 without arguments. Both return. -/
def sampleCaller : Machine where
  processor := { sp := 32, fp := 32, codeBase := 9 }
  memory :=
    { cells := #[Op.pushC.cell, 0, Op.calla.cell, 5, Op.ret.cell, Op.ret.cell] ++
        Array.replicate 26 0
      limit := 16 }

/-- The first routine was called with two arguments, and will go on at 7. -/
def sampleCalled : Machine := (calling 0 7 [41, 42]).after sampleCaller

/-- The first routine has pushed the count of the second one. -/
def samplePushed : Machine := step.after sampleCalled

/-- The second routine is about to return. -/
def sampleInner : Machine := step.after samplePushed

/-- The first routine is about to return. -/
def sampleOuter : Machine := step.after sampleInner

/-- The second routine returns to the first one, which returns to its caller. -/
theorem calling_returns_sample :
    sampleCaller.Stacked ∧ sampleCalled.Nested sampleOuter [] ∧ ∃ z,
      step sampleOuter = .ok false z ∧ z.processor.sp = 32 ∧ z.processor.fp = 32 ∧
        z.processor.codeBase = 9 ∧ z.processor.pc = 7 := by
  have hx : sampleCaller.Stacked := by constructor <;> decide
  have hpush : sampleCalled.memory.fetch sampleCalled.processor.pc =
      .ok { op := .pushC, first := 0 } := by decide +kernel
  have hcall : samplePushed.memory.fetch samplePushed.processor.pc =
      .ok { op := .calla, first := 5 } := by decide +kernel
  have hinner : sampleInner.memory.fetch sampleInner.processor.pc = .ok { op := .ret } := by
    decide +kernel
  have houter : sampleOuter.memory.fetch sampleOuter.processor.pc = .ok { op := .ret } := by
    decide +kernel
  have hnested₁ : sampleCalled.Nested samplePushed [] :=
    .inside .start hpush rfl (by decide) (of_result? (by decide +kernel)) (by decide +kernel)
  have hnested₂ : sampleCalled.Nested sampleInner [sampleInner.processor.fp] :=
    .call hnested₁ hcall rfl (of_result? (by decide +kernel)) (by decide +kernel)
  have hnested : sampleCalled.Nested sampleOuter [] :=
    .ret hnested₂ hinner rfl (of_result? (by decide +kernel))
  have henter : Memory.enter 0 sampleCaller.memory = .ok none sampleCaller.memory :=
    of_result? (by decide +kernel)
  have hcalling : calling 0 7 [41, 42] sampleCaller = .ok () sampleCalled :=
    of_result? (by decide +kernel)
  have hroom : sampleCaller.memory.limit.toInt + (([41, 42] : List Cell).length + 4) ≤
      sampleCaller.processor.sp.toInt := by decide
  obtain ⟨y, hy, -, hreturns⟩ := calling_returns hx hroom henter 7
  rw [hcalling] at hy
  cases hy
  refine ⟨hx, hnested, ?_⟩
  exact hreturns sampleOuter { op := .ret } hnested (by decide +kernel) houter rfl

end Machine

end CellMachine
