import CellMachine.Proofs.Machine.Entry

/-!
# Frames on the stack

A call leaves a frame behind: from the arguments down their count, the base of the calling routine,
the return address and the old frame pointer, at which the new one points. A return reads the four
cells at the frame pointer back.

* `Machine.calling` — the arguments, their count and the call; `Machine.Framed` — the frame.
* `Machine.calling_of_room` — **a call for which there is room leaves its frame.**
* `Machine.ret_of_linkage` — **a return restores what the four cells at the frame pointer hold.**
-/

namespace CellMachine

open CellMachine.Action

namespace Memory

/-- Entering a region changes its number of activations, and nothing else. -/
theorem enter_ok {m m' : Memory} {a : Addr} {span? : Option Span}
    (h : enter a m = .ok span? m') : m' = { m with spans := m'.spans } := by
  unfold enter at h
  split at h
  · cases h
  · split at h
    · cases h
      rfl
    · split at h
      · cases h
      · split at h
        · cases h
        · cases h
          rfl

/-- A region that refuses is left as it is. -/
theorem enter_error {m m' : Memory} {a : Addr} {failure : Failure}
    (h : enter a m = .error failure m') : m' = m := by
  unfold enter at h
  split at h
  · cases h
    rfl
  · split at h
    · cases h
    · split at h
      · cases h
        rfl
      · split at h
        · cases h
          rfl
        · cases h

/-- Leaving a region changes the regions alone. -/
theorem leave_eq (m : Memory) (id? : Option Nat) :
    m.leave id? = { m with spans := (m.leave id?).spans } := by
  cases id? with
  | none => rfl
  | some id => rfl

/-- Leaving regions changes no cell. -/
theorem load_foldl_leave (active : List (Option Nat)) (a : Addr) : ∀ m : Memory,
    (active.foldl leave m).load a = m.load a := by
  induction active with
  | nil =>
    intro m
    rfl
  | cons id? rest ih =>
    intro m
    rw [List.foldl_cons, ih, leave_eq]
    rfl

/-- Which region is entered does not depend on what the cells hold. -/
theorem enter_withCells {m m' : Memory} {a : Addr} {span? : Option Span}
    (h : enter a m = .ok span? m') {cells : Array Cell} (hsize : cells.size = m.cells.size) :
    enter a { m with cells } = .ok span? { m' with cells } := by
  have hbounds : inBounds { m with cells } a = m.inBounds a := by
    unfold inBounds
    rw [hsize]
  have hfind : find? { m with cells } a = m.find? a := rfl
  unfold enter at h ⊢
  rw [hbounds, hfind]
  by_cases hin : !m.inBounds a
  · rw [if_pos hin] at h
    cases h
  rw [if_neg hin] at h ⊢
  cases hspan : m.find? a with
  | none =>
    simp only [hspan] at h ⊢
    cases h
    rfl
  | some s =>
    simp only [hspan] at h ⊢
    by_cases hleased : s.lease?.isSome
    · rw [if_pos hleased] at h
      cases h
    rw [if_neg hleased] at h ⊢
    by_cases hpoisoned : s.poisoned
    · rw [if_pos hpoisoned] at h
      cases h
    rw [if_neg hpoisoned] at h ⊢
    cases h
    rfl

end Memory

namespace Machine

/-! ### Building a frame -/

/-- Pushes the arguments of a call, the last one first, and their number, and calls. -/
def calling (target ret : Addr) (args : List Cell) : Action Machine Unit := do
  pushAll args.reverse
  push (Int64.ofNat args.length)
  call target ret

/-- A call from outside is such a call on an empty stack, and a run. -/
theorem start_eq_calling (entry : Addr) (args : List Cell) (x : Machine) :
    start entry args x = (do calling entry returnSentinel args; run) x.ready := by
  rw [start_eq, pushAll_concat]
  unfold calling
  simp only [bind_assoc]

/-- The frame of a call: the machine `y` is as the call of `target` with `args` leaves the
machine `x`. -/
structure Framed (x : Machine) (target ret : Addr) (args : List Cell) (y : Machine) : Prop where
  sp : y.processor.sp.toInt = x.processor.sp.toInt - args.length - 4
  fp : y.processor.fp = y.processor.sp
  pc : y.processor.pc = target
  savedFp : y.memory.load y.processor.fp = .ok x.processor.fp
  savedPc : y.memory.load (y.processor.fp + 1) = .ok ret
  savedBase : y.memory.load (y.processor.fp + 2) = .ok x.processor.codeBase
  count : y.memory.load (y.processor.fp + 3) = .ok (Int64.ofNat args.length)
  args : ∀ (i : Nat) v, args[i]? = some v →
    y.memory.load (y.processor.fp + 4 + Int64.ofNat i) = .ok v
  /-- No other cell has changed. -/
  others : ∀ a : Addr, a.toInt < y.processor.fp.toInt ∨ x.processor.sp.toInt ≤ a.toInt →
    y.memory.load a = x.memory.load a
  size : y.memory.cells.size = x.memory.cells.size

/-- The machine that is about to run the code at `target`, with its linkage on the stack. -/
def activated (y : Machine) (target : Addr) (span? : Option Span) : Machine :=
  { y with processor :=
    { y.processor with
      fp := y.processor.sp, active := span?.map Span.id :: y.processor.active, pc := target
      codeBase := match span? with
        | some span => span.base
        | none => target } }

/-- **A call enters the region of its target and pushes the linkage.** -/
theorem call_ok_iff {x z : Machine} {target ret : Addr} :
    call target ret x = .ok () z ↔ ∃ span? memory y,
      Memory.enter target x.memory = .ok span? memory ∧
      pushAll [x.processor.codeBase, ret, x.processor.fp] ⟨x.processor, memory⟩ = .ok () y ∧
      z = y.activated target span? := by
  constructor
  · intro h
    unfold call at h
    obtain ⟨span?, x₁, henter, h⟩ := ok_of_bind h
    obtain ⟨r, x₂, hget, h⟩ := ok_of_bind h
    cases hget
    obtain ⟨processor, memory⟩ := x
    unfold onMemory at henter
    dsimp only at henter
    split at henter
    · next span memory' hentered =>
      cases henter
      dsimp only at h
      split at h
      · cases h
      · next y hpush =>
        cases h
        exact ⟨span?, memory', y, hentered, hpush, rfl⟩
    · cases henter
  · rintro ⟨span?, memory, y, henter, hpush, rfl⟩
    have hentered : onMemory (Memory.enter target) x = .ok span? ⟨x.processor, memory⟩ := by
      unfold onMemory
      simp only [henter]
    have hget : getProcessor ⟨x.processor, memory⟩ = .ok x.processor ⟨x.processor, memory⟩ := rfl
    refine (bind_of_ok hentered).trans ((bind_of_ok hget).trans ?_)
    simp only [hpush]
    rfl

/-- A memory that was entered has the same stack. -/
theorem Stacked.entered {x : Machine} (hx : x.Stacked) {a : Addr} {span? : Option Span}
    {memory : Memory} (henter : Memory.enter a x.memory = .ok span? memory) :
    Stacked ⟨x.processor, memory⟩ := by
  rw [Memory.enter_ok henter]
  exact ⟨hx.limit, hx.low, hx.high, hx.size⟩

/-- The address of a cell above the frame pointer. -/
theorem toInt_above {fp : Addr} {size : Nat} (hsize : size ≤ maxCells) (hfp : 0 ≤ fp.toInt)
    {k : Nat} (hk : fp.toInt + k ≤ size) : (fp + Int64.ofNat k).toInt = fp.toInt + k := by
  have hmax : (maxCells : Int) = 35184372088832 := by decide
  have hofNat : (Int64.ofNat k).toInt = k := Int64.toInt_ofNat_of_lt (by omega)
  rw [Memory.toInt_add_of_le hfp (by omega) (by omega), hofNat]

/-- **A call pushes its linkage** if there is room for it and its target can be entered. -/
theorem call_of_room {x : Machine} (hx : x.Stacked)
    (hroom : x.memory.limit.toInt + 3 ≤ x.processor.sp.toInt) {target : Addr}
    {span? : Option Span} {memory : Memory}
    (henter : Memory.enter target x.memory = .ok span? memory) (ret : Addr) :
    ∃ y, call target ret x = .ok () (y.activated target span?) ∧
      PushedCells ⟨x.processor, memory⟩ [x.processor.codeBase, ret, x.processor.fp] y := by
  have hlimit : memory.limit = x.memory.limit := by rw [Memory.enter_ok henter]
  obtain ⟨y, hlinkage, hpushed⟩ :=
    pushAll_cells [x.processor.codeBase, ret, x.processor.fp] (hx.entered henter) (by
      show memory.limit.toInt + 3 ≤ x.processor.sp.toInt
      rw [hlimit]
      exact hroom)
  exact ⟨y, call_ok_iff.mpr ⟨_, _, y, henter, hlinkage, rfl⟩, hpushed⟩

/-- The arguments and their count were pushed, and then the linkage: this is a frame. -/
theorem framed_of_pushed {x y z : Machine} {target ret : Addr} {args : List Cell}
    {span? : Option Span} {memory : Memory} (hx : x.Stacked)
    (hroom : x.memory.limit.toInt + (args.length + 4) ≤ x.processor.sp.toInt)
    (hargs : x.PushedCells (args.reverse ++ [Int64.ofNat args.length]) y)
    (henter : Memory.enter target y.memory = .ok span? memory)
    (hlinkage : PushedCells ⟨y.processor, memory⟩
      [y.processor.codeBase, ret, y.processor.fp] z) :
    x.Framed target ret args (z.activated target span?) := by
  have hlimit := hx.limit
  have hhigh := hx.high
  have hsize := hx.size
  have hspArgs : y.processor.sp.toInt = x.processor.sp.toInt - (args.length + 1) := by
    simpa using hargs.sp
  have hsp : z.processor.sp.toInt = y.processor.sp.toInt - 3 := hlinkage.sp
  have hplace (k : Nat) (hk : k ≤ args.length + 4) :
      (z.processor.sp + Int64.ofNat k).toInt = z.processor.sp.toInt + k :=
    toInt_above hsize (by omega) (by omega)
  -- entering the target changes no cell, and the linkage stands below the arguments
  have hentered (a : Addr) : memory.load a = y.memory.load a := by
    rw [Memory.enter_ok henter]
    rfl
  have hkept (a : Addr) (ha : y.processor.sp.toInt ≤ a.toInt) :
      z.memory.load a = y.memory.load a := (hlinkage.others a (.inr ha)).trans (hentered a)
  constructor
  case sp =>
    show z.processor.sp.toInt = _
    omega
  case fp => rfl
  case pc => rfl
  case savedFp =>
    have hfp : y.processor.fp = x.processor.fp := by rw [hargs.processor]
    rw [← hfp]
    exact hlinkage.above (k := 0) rfl (Int.add_zero _).symm
  case savedPc => exact hlinkage.above (k := 1) rfl (hplace 1 (by omega))
  case savedBase =>
    have hbase : y.processor.codeBase = x.processor.codeBase := by rw [hargs.processor]
    rw [← hbase]
    exact hlinkage.above (k := 2) rfl (hplace 2 (by omega))
  case count =>
    have hthree := hplace 3 (by omega)
    refine (hkept (z.processor.sp + Int64.ofNat 3) (by omega)).trans ?_
    exact hargs.above (k := 0) (by simp) (by omega)
  case args =>
    intro i v hv
    have hi : i < args.length := (List.getElem?_eq_some_iff.mp hv).1
    have haddr : z.processor.sp + 4 + Int64.ofNat i = z.processor.sp + Int64.ofNat (4 + i) := by
      rw [Int64.add_assoc, Int64.ofNat_add]
      rfl
    have hfour := hplace (4 + i) (by omega)
    show z.memory.load (z.processor.sp + 4 + Int64.ofNat i) = .ok v
    rw [haddr, hkept _ (by omega)]
    exact hargs.above (k := i + 1) (by simpa using hv) (by omega)
  case others =>
    intro a ha
    change a.toInt < z.processor.sp.toInt ∨ _ at ha
    have hbeside : a.toInt < z.processor.sp.toInt ∨ y.processor.sp.toInt ≤ a.toInt := by omega
    calc z.memory.load a = memory.load a := hlinkage.others a hbeside
      _ = y.memory.load a := hentered a
      _ = x.memory.load a := hargs.others a (by omega)
  case size =>
    have hsame : z.memory.cells.size = memory.cells.size := hlinkage.size
    show z.memory.cells.size = _
    rw [hsame, Memory.enter_ok henter]
    exact hargs.size

/-- **A call for which there is room leaves its frame**, if its target can be entered. -/
theorem calling_of_room {x : Machine} (hx : x.Stacked) {args : List Cell}
    (hroom : x.memory.limit.toInt + (args.length + 4) ≤ x.processor.sp.toInt) {target : Addr}
    {span? : Option Span} {memory : Memory}
    (henter : Memory.enter target x.memory = .ok span? memory) (ret : Addr) :
    ∃ y, calling target ret args x = .ok () y ∧ x.Framed target ret args y := by
  have hlength : (args.reverse ++ [Int64.ofNat args.length]).length = args.length + 1 := by simp
  obtain ⟨y, hpush, hargs⟩ :=
    pushAll_cells (args.reverse ++ [Int64.ofNat args.length]) hx (by rw [hlength]; omega)
  have hspArgs := hargs.sp
  rw [hlength] at hspArgs
  have hy : y.Stacked := hx.pushed hargs.counted (by rw [hlength]; omega)
  have henterArgs : Memory.enter target y.memory =
      .ok span? { memory with cells := y.memory.cells } := by
    rw [hargs.memory]
    exact Memory.enter_withCells henter hargs.size
  obtain ⟨z, hcall, hlinkage⟩ :=
    call_of_room hy (by rw [hargs.counted.limit]; omega) henterArgs ret
  refine ⟨_, ?_, framed_of_pushed hx hroom hargs henterArgs hlinkage⟩
  unfold calling
  rw [pushAll_concat] at hpush
  obtain ⟨⟨⟩, y₁, hfirst, hsecond⟩ := ok_of_bind hpush
  rw [bind_of_ok hfirst, bind_of_ok hsecond]
  exact hcall

/-! ### Taking a frame down -/

/-- Leaving an activation changes the list of activations and the marks of regions alone. -/
theorem leaveOne_eq (x : Machine) :
    x.leaveOne.processor = { x.processor with active := x.leaveOne.processor.active } ∧
      x.leaveOne.memory.cells = x.memory.cells := by
  obtain ⟨processor, memory⟩ := x
  unfold leaveOne
  cases hactive : processor.active with
  | nil =>
    simp only [hactive]
    exact ⟨by rw [← hactive], trivial⟩
  | cons id? active =>
    simp only [hactive]
    refine ⟨trivial, ?_⟩
    cases id? with
    | none => rfl
    | some id => rfl

/-- A return that ends well goes back to the frame pointer that was saved, and writes no cell. -/
theorem ret_ok {x y : Machine} {ended : Bool} (h : ret x = .ok ended y) :
    x.memory.load x.processor.fp = .ok y.processor.fp ∧ y.memory.cells = x.memory.cells := by
  unfold ret at h
  obtain ⟨⟨⟩, x₀, hstart, h⟩ := ok_of_bind h
  cases hstart
  obtain ⟨fp, x₁, hfp, h⟩ := ok_of_bind h
  obtain ⟨hsaved, rfl⟩ := pop_ok hfp
  obtain ⟨pc, x₂, hpc, h⟩ := ok_of_bind h
  obtain ⟨-, rfl⟩ := pop_ok hpc
  obtain ⟨base, x₃, hbase, h⟩ := ok_of_bind h
  obtain ⟨-, rfl⟩ := pop_ok hbase
  obtain ⟨count, x₄, hcount, h⟩ := ok_of_bind h
  obtain ⟨-, rfl⟩ := pop_ok hcount
  obtain ⟨m, x₅, hget, h⟩ := ok_of_bind h
  cases hget
  split at h
  · cases h
  · obtain ⟨⟨⟩, x₆, hmove, h⟩ := ok_of_bind h
    cases hmove
    obtain ⟨⟨⟩, x₇, hleave, h⟩ := ok_of_bind h
    cases hleave
    cases h
    obtain ⟨hprocessor, hcells⟩ := leaveOne_eq
      ⟨{ x.processor with
        sp := x.processor.fp + 1 + 1 + 1 + 1 + count, fp, pc, codeBase := base }, x.memory⟩
    exact ⟨hsaved.trans (congrArg Except.ok (by rw [hprocessor])), hcells⟩

/-- The machine with its stack pointer `k` cells above the frame pointer. -/
def unwound (x : Machine) (k : Nat) : Machine :=
  { x with processor := { x.processor with sp := x.processor.fp + Int64.ofNat k } }

/-- The next cell above the frame pointer is popped. -/
theorem pop_unwound {x : Machine} (hsize : x.memory.cells.size ≤ maxCells)
    (hlow : 0 ≤ x.processor.fp.toInt) {k : Nat}
    (hk : x.processor.fp.toInt + k < x.memory.cells.size) {v : Cell}
    (hload : x.memory.load (x.processor.fp + Int64.ofNat k) = .ok v) :
    pop (x.unwound k) = .ok v (x.unwound (k + 1)) := by
  have hplace : (x.unwound k).processor.sp.toInt < (x.unwound k).memory.size := by
    show (x.processor.fp + Int64.ofNat k).toInt < x.memory.cells.size
    rw [toInt_above hsize hlow (by omega)]
    exact hk
  have hnext : x.processor.fp + Int64.ofNat (k + 1) = x.processor.fp + Int64.ofNat k + 1 := by
    rw [Int64.ofNat_add, ← Int64.add_assoc]
    rfl
  rw [pop_eq (x.unwound k) hplace hload]
  unfold unwound
  rw [hnext]

/-- **A return reads the four cells at the frame pointer** and then checks the count of arguments,
which it adds to the stack pointer. -/
theorem ret_eq_of_linkage {x : Machine} {fp pc base count : Cell}
    (hsize : x.memory.cells.size ≤ maxCells) (hlow : 0 ≤ x.processor.fp.toInt)
    (hfp : x.memory.load x.processor.fp = .ok fp)
    (hpc : x.memory.load (x.processor.fp + 1) = .ok pc)
    (hbase : x.memory.load (x.processor.fp + 2) = .ok base)
    (hargs : x.memory.load (x.processor.fp + 3) = .ok count) :
    ret x =
      if count < 0 ∨ (x.memory.size : Int) < (x.processor.fp + 4 + count).toInt then
        .error (.argumentUnderflow count) (x.unwound 4)
      else .ok (pc == returnSentinel) (leaveOne
        ⟨{ x.processor with sp := x.processor.fp + 4 + count, fp, pc, codeBase := base },
          x.memory⟩) := by
  have hzero : x.processor.fp + Int64.ofNat 0 = x.processor.fp := Int64.add_zero _
  have hstart : modifyProcessor (fun r => { r with sp := r.fp }) x = .ok () (x.unwound 0) := by
    unfold unwound
    rw [hzero]
    rfl
  have hhigh : x.processor.fp.toInt + 3 < x.memory.cells.size := by
    have hmax : (maxCells : Int) = 35184372088832 := by decide
    have hfirst := (Memory.inBounds_iff.mp (Memory.inBounds_of_load hfp)).2
    have hlast := (Memory.inBounds_iff.mp (Memory.inBounds_of_load hargs)).2
    have hthree : (3 : Int64).toInt = 3 := by decide
    rwa [Int64.toInt_add, hthree, Int.bmod_eq_of_le (by omega) (by omega)] at hlast
  have hpop (k : Nat) (hk : k < 4) {v : Cell}
      (h : x.memory.load (x.processor.fp + Int64.ofNat k) = .ok v) :
      pop (x.unwound k) = .ok v (x.unwound (k + 1)) := pop_unwound hsize hlow (by omega) h
  refine (bind_of_ok hstart).trans ?_
  refine (bind_of_ok (hpop 0 (by decide) (hzero ▸ hfp))).trans ?_
  refine (bind_of_ok (hpop 1 (by decide) hpc)).trans ?_
  refine (bind_of_ok (hpop 2 (by decide) hbase)).trans ?_
  refine (bind_of_ok (hpop 3 (by decide) hargs)).trans ?_
  refine (bind_of_ok rfl).trans ?_
  by_cases hcheck : count < 0 ∨ (x.memory.size : Int) < (x.processor.fp + 4 + count).toInt
  · rw [if_pos hcheck]
    exact congrFun (if_pos hcheck) _
  · rw [if_neg hcheck]
    exact congrFun (if_neg hcheck) _

/-- **A return restores what the four cells at the frame pointer hold**, if they lie in the memory
and the arguments that they count do so too. -/
theorem ret_of_linkage {x : Machine} {fp pc base count : Cell}
    (hsize : x.memory.cells.size ≤ maxCells) (hlow : 0 ≤ x.processor.fp.toInt)
    (hcount : 0 ≤ count.toInt)
    (hhigh : x.processor.fp.toInt + 4 + count.toInt ≤ x.memory.cells.size)
    (hfp : x.memory.load x.processor.fp = .ok fp)
    (hpc : x.memory.load (x.processor.fp + 1) = .ok pc)
    (hbase : x.memory.load (x.processor.fp + 2) = .ok base)
    (hargs : x.memory.load (x.processor.fp + 3) = .ok count) :
    ∃ y, ret x = .ok (pc == returnSentinel) y ∧
      y.processor.sp.toInt = x.processor.fp.toInt + 4 + count.toInt ∧ y.processor.fp = fp ∧
      y.processor.pc = pc ∧ y.processor.codeBase = base := by
  have hmax : (maxCells : Int) = 35184372088832 := by decide
  have hfour : (x.processor.fp + 4).toInt = x.processor.fp.toInt + 4 :=
    toInt_above hsize hlow (k := 4) (by omega)
  have htop : (x.processor.fp + 4 + count).toInt =
      x.processor.fp.toInt + 4 + count.toInt := by
    rw [Memory.toInt_add_of_le (by omega) hcount (by omega), hfour]
  have hfits : ¬(count < 0 ∨
      (x.memory.size : Int) < (x.processor.fp + 4 + count).toInt) := by
    rintro (hneg | hover)
    · rw [Int64.lt_iff_toInt_lt] at hneg
      exact absurd hcount (Int.not_le.mpr hneg)
    · rw [htop] at hover
      exact absurd hhigh (Int.not_le.mpr hover)
  obtain ⟨hprocessor, -⟩ := leaveOne_eq
    ⟨{ x.processor with sp := x.processor.fp + 4 + count, fp, pc, codeBase := base }, x.memory⟩
  have hret := (ret_eq_of_linkage hsize hlow hfp hpc hbase hargs).trans (if_neg hfits)
  refine ⟨_, hret, ?_, ?_, ?_, ?_⟩
  · rw [hprocessor]
    exact htop
  · rw [hprocessor]
  · rw [hprocessor]
  · rw [hprocessor]

end Machine

end CellMachine
