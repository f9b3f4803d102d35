import CellMachine.Proofs.Memory.Reloading
import CellMachine.Proofs.Machine.Return
import CellMachine.Proofs.Machine.StepLimit
import CellMachine.Proofs.Machine.Decoders

/-!
# Regions that are reserved

A region is reserved in three moves: cells are handed out, a routine that returns zero is written
into them, and the region is registered. The last move can be refused, by a region that begins at
the first cell that is not handed out; an empty routine at the end of an image is one. Then the
cells stay handed out and written.

* `Memory.filled` — the memory before the last move.
* `Memory.reserve_of_clear`, `Memory.reserve_of_blocked` — the last move.
* `Machine.callNamed_of_stub` — **a region with the routine in it returns zero after three steps.**
* `Estate.Reachable.reserve_yields_stub_iff` — **a region that there is room for is reserved and can
  be called exactly if nothing is in its way**, and what is left if it is not reserved.
-/

namespace CellMachine

open CellMachine.Action

namespace Memory

/-! ### Reserving -/

/-- The place of the next region that is reserved. -/
def site (m : Memory) (name : String) (c : Int64) : RoutineEntry where
  name
  base := m.next
  capacity := c

/-- The memory with the next cells handed out and filled, and no region there yet. -/
def filled (m : Memory) (c : Int64) : Memory :=
  { m with next := m.next + c, cells := overlaid m.cells m.next (stubCells c.toInt) }

/-- The region that holds nothing but the routine that returns zero. -/
def stubSpan (m : Memory) (name : String) (c : Int64) : Span :=
  { m.newSpan (m.site name c) with length := stub.size }

/-- The memory with the new region between two parts of the others. -/
def withStub (m : Memory) (name : String) (c : Int64) (low high : List Span) : Memory :=
  { m.filled c with
    spans := (low ++ m.stubSpan name c :: high).toArray
    names := m.namesWith (m.stubSpan name c) }

/-- There is room for a new region: it is large enough and lies below the stack, as a range of
integers. -/
structure HasRoom (m : Memory) (c : Int64) : Prop where
  low : 0 ≤ m.next.toInt
  large : 3 ≤ c.toInt
  high : m.next.toInt + c.toInt ≤ m.limit.toInt
  stack : m.limit.toInt < m.cells.size
  storage : m.cells.size ≤ maxCells

variable {m : Memory} {name : String} {c : Int64}

namespace HasRoom

/-- A region is large enough. -/
theorem not_small (h : m.HasRoom c) : ¬c.toInt < minRegionCells := by
  have hmin : (minRegionCells : Int) = 3 := rfl
  have hlarge := h.large
  omega

/-- The end of the place does not wrap around. -/
theorem toInt_next (h : m.HasRoom c) : (m.next + c).toInt = m.next.toInt + c.toInt := by
  have hlarge := h.large
  have hhigh := h.high
  have hstack := h.stack
  have hstorage := h.storage
  exact toInt_add_of_le h.low (by omega) (by omega)

/-- The cells are handed out. -/
theorem alloc (h : m.HasRoom c) : alloc c m = .ok m.next { m with next := m.next + c } := by
  have hlarge := h.large
  have hfits : ¬(c < 0 ∨ m.limit < m.next + c) := by
    rw [toInt_neg_iff, Int64.lt_iff_toInt_lt, h.toInt_next]
    have hhigh := h.high
    omega
  exact if_neg hfits

/-- The cells are filled. -/
theorem fillStub (h : m.HasRoom c) :
    fillStub m.next c { m with next := m.next + c } = .ok () (m.filled c) := by
  have hhigh := h.high
  have hstack := h.stack
  refine fillStub_eq (m := { m with next := m.next + c }) h.low h.not_small ?_
  show m.next.toInt + c.toInt ≤ m.cells.size
  omega

/-- **A region that there is room for is handed out and filled**; what is left is to register
it. -/
theorem reserve_eq (h : m.HasRoom c) (hnew : m.names.lookup name = none) :
    reserve name c m = (do
      let span ← register name m.next c
      modify fun m' : Memory => m'.updateSpan span.id fun s => { s with length := stub.size }
      return { span with length := stub.size }) (m.filled c) := by
  have hget : (EStateM.get : Action Memory Memory) m = .ok m m := rfl
  have hfree : ¬m.names.contains name := Option.not_isSome_iff_eq_none.mpr hnew
  unfold reserve
  rw [if_neg h.not_small]
  refine (bind_of_ok hget).trans ?_
  rw [if_neg hfree]
  exact (bind_of_ok h.alloc).trans (bind_of_ok h.fillStub)

end HasRoom

/-- A region that another one is in the way of is not reserved. Its cells are handed out and filled
all the same. -/
theorem reserve_of_blocked (hm : m.Ordered) (h : m.HasRoom c) (hnew : m.names.lookup name = none)
    (hblocked : m.Blocked (m.site name c)) :
    ∃ other, reserve name c m = .error (.regionOverlap other) (m.filled c) := by
  obtain ⟨other, hregister⟩ :=
    register_of_blocked (m := m.filled c) (r := m.site name c) hm (fun _ => hnew) hblocked
  refine ⟨other, ?_⟩
  rw [h.reserve_eq hnew]
  exact bind_of_error hregister

/-- A change of the region with a number that the others do not have. -/
theorem map_of_ids_ne {low high : List Span} {t : Span} {f : Span → Span}
    (hothers : ∀ s ∈ low ++ high, s.id ≠ t.id) :
    (low ++ t :: high).map (fun s => if s.id = t.id then f s else s) =
      low ++ f t :: high := by
  have hkept (l : List Span) (hl : ∀ s ∈ l, s.id ≠ t.id) :
      l.map (fun s => if s.id = t.id then f s else s) = l :=
    (List.map_congr_left fun s hs => if_neg (hl s hs)).trans (List.map_id l)
  rw [List.map_append, List.map_cons, if_pos rfl,
    hkept low fun s hs => hothers s (List.mem_append_left _ hs),
    hkept high fun s hs => hothers s (List.mem_append_right _ hs)]

/-- **A region that nothing is in the way of is reserved.** It takes its place among the other
regions, which stay as they are. -/
theorem reserve_of_clear (hm : m.Ordered) (hsound : m.Sound) (hindexed : m.Indexed)
    (h : m.HasRoom c) (hnew : m.names.lookup name = none)
    (hclear : ¬m.Blocked (m.site name c)) :
    ∃ low high, m.spans.toList = low ++ high ∧
      reserve name c m = .ok (m.stubSpan name c) (m.withStub name c low high) ∧
      (m.withStub name c low high).Ordered ∧ (m.withStub name c low high).Sound ∧
      (m.withStub name c low high).Indexed := by
  have hfresh : m.Fresh name := fun _ => hnew
  obtain ⟨low, high, hs, hlow, hhigh, hregister⟩ :=
    register_of_clear (m := m.filled c) (r := m.site name c) hm hfresh hclear
  let note : Span → Span := fun s => { s with length := stub.size }
  -- the numbers of the other regions are smaller
  have hothers (s : Span) (hmem : s ∈ low ++ high) : s.id ≠ m.spans.size :=
    Nat.ne_of_lt (hsound.below s (Array.mem_toList_iff.mp (hs ▸ hmem)))
  have hspans : (low ++ m.newSpan (m.site name c) :: high).toArray.map
      (fun s => if s.id = m.spans.size then note s else s) =
        (low ++ m.stubSpan name c :: high).toArray := by
    rw [List.map_toArray]
    exact congrArg List.toArray (map_of_ids_ne (t := m.newSpan (m.site name c)) hothers)
  have hnoted : ((m.filled c).registered (m.site name c) low high).updateSpan m.spans.size note =
      m.withStub name c low high := by
    unfold withStub
    rw [← hspans]
    rfl
  have hsound' : (m.filled c).Sound := hsound.of_tables rfl rfl
  have hindexed' : (m.filled c).Indexed := hindexed.of_tags rfl rfl
  refine ⟨low, high, hs, ?_, ?_⟩
  · rw [h.reserve_eq hnew, ← hnoted]
    exact bind_of_ok hregister
  · rw [← hnoted]
    exact ⟨(ordered_of_split (m := m.filled c) hm hs hlow hhigh).updateSpan _ fun _ => rfl,
      (hsound'.register hs).updateSpan _ (fun _ => rfl) fun _ => rfl,
      (hindexed'.registered (r := m.site name c) hs hfresh).of_tags rfl
        (tags_updateSpan _ _ fun _ => ⟨rfl, rfl⟩)⟩

/-- What is read at an address depends on the cell there. -/
theorem load_congr {m m' : Memory} {a : Addr} (hsize : m'.cells.size = m.cells.size)
    (hcell : m'.cells[a.toInt.toNat]? = m.cells[a.toInt.toNat]?) : m'.load a = m.load a := by
  have hbounds : m'.inBounds a = m.inBounds a := by
    unfold inBounds
    rw [hsize]
  unfold load get
  rw [hbounds, hcell]

namespace HasRoom

/-- The cells of the place. -/
theorem getElem?_filled (h : m.HasRoom c) (i : Nat) :
    (m.filled c).cells[i]? =
      if m.next.toInt ≤ i ∧ i < m.next.toInt + c.toInt then
        (stubCells c.toInt)[i - m.next.toInt.toNat]?
      else m.cells[i]? := by
  have hhigh := h.high
  have hstack := h.stack
  have hsize := size_stubCells h.not_small
  have hfits : m.next.toInt + ((stubCells c.toInt).size : Int) ≤ m.cells.size := by omega
  have hcell := getElem?_overlaid h.low hfits i
  rwa [hsize] at hcell

/-- A cell outside the place is as it was. -/
theorem load_filled (h : m.HasRoom c) {a : Addr}
    (ha : a.toInt < m.next.toInt ∨ m.next.toInt + c.toInt ≤ a.toInt) :
    (m.filled c).load a = m.load a := by
  by_cases hneg : a.toInt < 0
  · have hout (m : Memory) : m.inBounds a = false := by
      rw [Bool.eq_false_iff]
      intro hin
      have hlow := (inBounds_iff.mp hin).1
      omega
    unfold load
    rw [hout, hout]
    rfl
  · refine load_congr size_overlaid ?_
    rw [h.getElem?_filled, if_neg (by omega)]

/-- The routine that returns zero stands at the start of the place. -/
theorem holds_stub (h : m.HasRoom c) : (m.filled c).Holds m.next stub.toList := by
  intro i v hv
  have hlarge := h.large
  have hhigh := h.high
  have hstack := h.stack
  have hlow := h.low
  have hi : i < stub.size := (List.getElem?_eq_some_iff.mp hv).1
  have hthree : stub.size = 3 := rfl
  have hplace : (m.next + Int64.ofNat i).toInt = ((m.next.toInt.toNat + i : Nat) : Int) := by
    rw [Machine.toInt_above h.storage hlow (by omega)]
    omega
  refine load_of_getElem? hplace ?_
  rw [h.getElem?_filled, if_pos (by omega), Nat.add_sub_cancel_left]
  unfold stubCells
  rw [Array.getElem?_append_left hi]
  exact (Array.getElem?_toList).symm.trans hv

end HasRoom

/-- An instruction without operands is fetched by its opcode. -/
theorem fetch_of_bare {pc : Addr} {op : Op} (hslots : op.slots = [])
    (hop : m.load pc = .ok op.cell) : m.fetch pc = .ok { op } := by
  have hlength : ([] : List Cell).length = op.slots.length := by
    rw [hslots]
    rfl
  exact fetch_of_op hop op.ofCell?_cell hlength fun i v hv => by cases hv

end Memory

namespace Machine

/-! ### The routine that returns zero -/

variable {x y : Machine}

/-- The start of a routine does nothing. -/
theorem step_proc (hsteps : ¬y.spent) (hop : y.memory.load y.processor.pc = .ok Op.proc.cell) :
    step y = .ok false (y.advanced { op := .proc }) := by
  rw [step_eq hsteps (Memory.fetch_of_bare rfl hop)]
  rfl

/-- The machine with zero in `P`. -/
def zeroed (y : Machine) : Machine := { y with processor := { y.processor with p := 0 } }

/-- Zero is put into `P`. -/
theorem step_zeroP (hsteps : ¬y.spent) (hop : y.memory.load y.processor.pc = .ok Op.zeroP.cell) :
    step y = .ok false (y.advanced { op := .zeroP }).zeroed := by
  rw [step_eq hsteps (Memory.fetch_of_bare rfl hop)]
  rfl

/-- A return to the caller from outside ends the run. -/
theorem step_ret (hsize : y.memory.cells.size ≤ maxCells) {fp base count : Cell}
    (hlinkage : y.Linkage fp returnSentinel base count) (hpos : 0 ≤ count.toInt)
    (hhigh : y.processor.fp.toInt + 4 + count.toInt ≤ y.memory.cells.size) (hsteps : ¬y.spent)
    (hop : y.memory.load y.processor.pc = .ok Op.ret.cell) :
    ∃ z, step y = .ok true z ∧ z.processor.p = y.processor.p ∧
      z.processor.steps = y.processor.steps + 1 ∧ z.memory.cells = y.memory.cells := by
  have hlinkage' : (y.advanced { op := .ret }).Linkage fp returnSentinel base count :=
    ⟨hlinkage.low, hlinkage.fp, hlinkage.pc, hlinkage.base, hlinkage.count⟩
  have hend := (hlinkage.toInt_end hsize).2
  have hlow := hlinkage.low
  obtain ⟨z, hret, -, hp, hcount, hcells⟩ := hlinkage'.ret_passes hsize hpos (by
    show (y.processor.fp + 4 + count).toInt ≤ y.memory.cells.size
    rw [Memory.toInt_add_of_le (by omega) hpos (by omega), hend]
    exact hhigh)
  refine ⟨z, ?_, hp, hcount, hcells⟩
  rw [step_eq_ret hsteps (Memory.fetch_of_bare rfl hop) rfl, hret]
  rfl

/-- **A run of the routine that returns zero takes three steps.** It writes no cell. -/
theorem run_stub (hsize : y.memory.cells.size ≤ maxCells) {fp base count : Cell}
    (hlinkage : y.Linkage fp returnSentinel base count) (hpos : 0 ≤ count.toInt)
    (hhigh : y.processor.fp.toInt + 4 + count.toInt ≤ y.memory.cells.size)
    (hstub : y.memory.Holds y.processor.pc Memory.stub.toList) (hsteps : y.processor.steps = 0)
    (hlimit : y.processor.stepLimit ≤ 0 ∨ 3 ≤ y.processor.stepLimit) :
    ∃ z, run y = .ok 0 z ∧ z.processor.steps = 3 ∧ z.memory.cells = y.memory.cells := by
  have hallowed (k : Nat) (hk : k < 3) : ¬(0 < y.processor.stepLimit ∧
      y.processor.stepLimit ≤ (y.processor.steps + k : Nat)) := by
    rintro ⟨hlimited, hspent⟩
    omega
  have hproc := hstub.head
  have hzeroP := hstub.tail.head
  have hop := hstub.tail.tail.head
  have hfirst : step y = .ok false (y.advanced { op := .proc }) :=
    step_proc (hallowed 0 (by decide)) hproc
  have hsecond : step (y.advanced { op := .proc }) =
      .ok false ((y.advanced { op := .proc }).advanced { op := .zeroP }).zeroed :=
    step_zeroP (hallowed 1 (by decide)) hzeroP
  obtain ⟨z, hthird, hp, hcount, hcells⟩ :=
    step_ret (y := ((y.advanced { op := .proc }).advanced { op := .zeroP }).zeroed) hsize
      ⟨hlinkage.low, hlinkage.fp, hlinkage.pc, hlinkage.base, hlinkage.count⟩ hpos hhigh
      (hallowed 2 (by decide)) hop
  have hresult : z.processor.p = 0 := hp
  -- there is fuel for three steps
  obtain ⟨n, hfuel⟩ : ∃ n,
      (if 0 < y.processor.stepLimit then y.processor.stepLimit.toNat + 1 else endless) = n + 3 := by
    by_cases hlimited : 0 < y.processor.stepLimit
    · rw [if_pos hlimited]
      exact ⟨y.processor.stepLimit.toNat - 2, by omega⟩
    · rw [if_neg hlimited]
      exact ⟨endless - 3, by decide⟩
  refine ⟨z, ?_, ?_, hcells⟩
  · rw [run_eq, hfuel, ← hresult]
    exact (bind_of_ok hfirst).trans ((bind_of_ok hsecond).trans (bind_of_ok hthird))
  · rw [hcount]
    show y.processor.steps + 1 + 1 + 1 = 3
    omega

/-! ### Calls from outside -/

/-- A call gets to its first step by way of its frame. -/
theorem entered_eq_calling (entry : Addr) (args : List Cell) (x : Machine) :
    entered entry args x = calling entry returnSentinel args x.ready := by
  unfold entered calling
  rw [pushAll_concat, bind_assoc]

/-- A region that is ready to be called by its name: it is registered and open, it lies below the
stack, and it begins with the routine that returns zero. -/
structure Callable (m : Memory) (name : String) (s : Span) : Prop where
  ordered : m.Ordered
  limit : 0 < m.limit.toInt
  stack : m.limit.toInt < m.cells.size
  storage : m.cells.size ≤ maxCells
  named : m.spanNamed? name = some s
  leased : s.lease? = none
  poisoned : s.poisoned = false
  low : 0 ≤ s.base.toInt
  large : 3 ≤ s.capacity.toInt
  high : s.base.toInt + s.capacity.toInt ≤ m.limit.toInt
  stub : m.Holds s.base Memory.stub.toList

variable {m : Memory} {name : String} {s : Span}

/-- A region that is ready to be called is entered. -/
theorem Callable.enter (h : Callable m name s) :
    ∃ m', Memory.enter s.base m = .ok (some s) m' := by
  have hlarge := h.large
  have hhigh := h.high
  have hstack := h.stack
  have hin : m.inBounds s.base = true := Memory.inBounds_iff.mpr ⟨h.low, by omega⟩
  have henc : m.Encloses s := ⟨h.low, by omega, by omega⟩
  have hcontains : s.contains s.base = true :=
    (henc.contains_iff h.storage).mpr ⟨Int.le_refl _, by omega⟩
  have hfind := Memory.find?_of_contains h.ordered (Memory.mem_of_spanNamed? h.named) hcontains
  refine ⟨m.updateSpan s.id fun t => { t with running := t.running + 1 }, ?_⟩
  unfold Memory.enter
  simp [hin, hfind, h.leased, h.poisoned]

/-- **A region with the routine in it returns zero after three steps**, if there is room for the
arguments and the frame. The call changes the stack alone. -/
theorem Callable.callNamed (h : Callable m name s) (processor : Processor) {args : List Cell}
    (hroom : m.limit.toInt + (args.length + 4) ≤ m.cells.size)
    (hlimit : processor.stepLimit ≤ 0 ∨ 3 ≤ processor.stepLimit) :
    ∃ z, Machine.callNamed name args { processor, memory := m } = .ok 0 z ∧
      z.processor.steps = 3 ∧
      ∀ a : Addr, a.toInt < m.limit.toInt → z.memory.load a = m.load a := by
  have hmax : (maxCells : Int) = 35184372088832 := by decide
  have hlimit₀ := h.limit
  have hstorage := h.storage
  have hx : (ready { processor, memory := m }).Stacked := stacked_ready hlimit₀ h.stack hstorage
  have hsp : (ready { processor, memory := m }).processor.sp.toInt = m.cells.size :=
    sp_ready hstorage
  obtain ⟨m', henter⟩ := h.enter
  obtain ⟨y, hcalling, hframed⟩ :=
    calling_of_room hx (by rw [hsp]; exact hroom) henter returnSentinel
  have hentered : entered s.base args { processor, memory := m } = .ok () y :=
    (entered_eq_calling s.base args _).trans hcalling
  have hclock := clock_entered s.base args { processor, memory := m }
  rw [after_of_ok hentered] at hclock
  have hfp : y.processor.fp.toInt = m.cells.size - args.length - 4 := by
    rw [hframed.fp, hframed.sp, hsp]
  -- the frame stands above everything that is handed out
  have hbelow (a : Addr) (ha : a.toInt < m.limit.toInt) : y.memory.load a = m.load a :=
    hframed.others a (.inl (by omega))
  have hstub : y.memory.Holds y.processor.pc Memory.stub.toList := by
    intro i v hv
    have hi : i < 3 := (List.getElem?_eq_some_iff.mp hv).1
    have hlarge := h.large
    have hhigh := h.high
    have hstack := h.stack
    rw [hframed.pc, hbelow _ (by rw [toInt_above hstorage h.low (by omega)]; omega)]
    exact h.stub i v hv
  have hcount : (Int64.ofNat args.length).toInt = args.length :=
    Int64.toInt_ofNat_of_lt (by omega)
  have hsize : y.memory.cells.size = m.cells.size := hframed.size
  have hlinkage : y.Linkage _ returnSentinel _ (Int64.ofNat args.length) :=
    ⟨by omega, hframed.savedFp, hframed.savedPc, hframed.savedBase, hframed.count⟩
  obtain ⟨z, hrun, hsteps, hcells⟩ := run_stub (by rw [hsize]; exact hstorage) hlinkage (by omega)
    (by omega) hstub hclock.2 (by rw [hclock.1]; exact hlimit)
  refine ⟨z.leaveAll, ?_, hsteps, ?_⟩
  · unfold Machine.callNamed
    simp only [h.named]
    rw [invoke_of_entered hentered, hrun]
    rfl
  · intro a ha
    have hload : z.memory.load a = y.memory.load a :=
      Memory.load_congr (by rw [hcells]) (by rw [hcells])
    exact (Memory.load_foldl_leave z.processor.active a z.memory).trans (hload.trans (hbelow a ha))

end Machine

namespace Memory

/-! ### Regions that can be called -/

/-- What reserving a region promises: the region `s` takes the next cells, and nothing else has
changed. It can be called at once and returns zero. -/
structure Stubbed (m : Memory) (name : String) (c : Int64) (s : Span) (m' : Memory) : Prop where
  named : s.name = name
  base : s.base = m.next
  capacity : s.capacity = c
  next : m'.next.toInt = m.next.toInt + c.toInt
  /-- The other regions are as they were. -/
  spans : ∃ low high, m.spans.toList = low ++ high ∧ m'.spans.toList = low ++ s :: high
  limit : m'.limit = m.limit
  leases : m'.leases = m.leases
  globals : m'.globals = m.globals
  /-- The other cells are as they were. -/
  cells : ∀ a : Addr, a.toInt < m.next.toInt ∨ m.next.toInt + c.toInt ≤ a.toInt →
    m'.load a = m.load a
  /-- A call that has room on the stack, and is allowed three steps, changes the stack alone. -/
  called : ∀ (processor : Processor) (args : List Cell),
    m'.limit.toInt + (args.length + 4) ≤ m'.cells.size →
    (processor.stepLimit ≤ 0 ∨ 3 ≤ processor.stepLimit) →
    ∃ z, Machine.callNamed name args { processor, memory := m' } = .ok 0 z ∧
      z.processor.steps = 3 ∧
      ∀ a : Addr, a.toInt < m'.limit.toInt → z.memory.load a = m'.load a

/-- Reserving a region keeps its promise. -/
def YieldsStub (m : Memory) (name : String) (c : Int64) : Prop :=
  ∃ s m', reserve name c m = .ok s m' ∧ m.Stubbed name c s m'

variable {m m' : Memory} {name : String} {c : Int64}

/-- **A region that nothing is in the way of can be called.** -/
theorem yieldsStub_of_clear (hm : m.Ordered) (hsound : m.Sound) (hindexed : m.Indexed)
    (hlimit : 0 < m.limit.toInt) (hroom : m.HasRoom c) (hname : name ≠ "")
    (hnew : m.names.lookup name = none) (hclear : ¬m.Blocked (m.site name c)) :
    m.YieldsStub name c := by
  obtain ⟨low, high, hs, hreserve, hordered, hsound', hindexed'⟩ :=
    reserve_of_clear hm hsound hindexed hroom hnew hclear
  have hcallable :
      Machine.Callable (m.withStub name c low high) name (m.stubSpan name c) := by
    constructor
    case ordered => exact hordered
    case limit => exact hlimit
    case stack =>
      show m.limit.toInt < (overlaid m.cells m.next (stubCells c.toInt)).size
      rw [size_overlaid]
      exact hroom.stack
    case storage =>
      show (overlaid m.cells m.next (stubCells c.toInt)).size ≤ maxCells
      rw [size_overlaid]
      exact hroom.storage
    case named =>
      refine (hindexed'.spanNamed?_eq_some_iff hsound').mpr ⟨hname, ?_, rfl⟩
      show m.stubSpan name c ∈ (low ++ m.stubSpan name c :: high).toArray
      simp
    case leased => rfl
    case poisoned => rfl
    case low => exact hroom.low
    case large => exact hroom.large
    case high => exact hroom.high
    case stub => exact hroom.holds_stub
  refine ⟨_, _, hreserve, ?_⟩
  constructor
  case named | base | capacity | limit | leases | globals => rfl
  case next => exact hroom.toInt_next
  case spans => exact ⟨low, high, hs, rfl⟩
  case cells => exact fun a ha => hroom.load_filled ha
  case called =>
    intro processor args hstack hsteps
    exact hcallable.callNamed processor hstack hsteps

/-- Where the first cell that is not handed out is an address, what is free is the distance to the
stack. -/
theorem hasRoom_of_free (hlow : 0 ≤ m.next.toInt) (hnext : m.next ≤ m.limit)
    (hstack : m.limit.toInt < m.cells.size) (hstorage : m.cells.size ≤ maxCells)
    (hlarge : 3 ≤ c.toInt) (hfree : c.toInt ≤ m.free) : m.HasRoom c := by
  have hmax : (maxCells : Int) = 35184372088832 := by decide
  have hdistance : m.free = m.limit.toInt - m.next.toInt := by
    rw [Int64.le_iff_toInt_le] at hnext
    unfold free
    rw [Int64.toInt_sub]
    exact Int.bmod_eq_of_le (by omega) (by omega)
  exact ⟨hlow, hlarge, by omega, hstack, hstorage⟩

/-- In a memory in which no sum wrapped around only an empty region can be in the way, at the first
cell that is not handed out. -/
theorem Tidy.blocked_site_iff (h : m.Tidy) (hroom : m.HasRoom c) :
    m.Blocked (m.site name c) ↔ ∃ s ∈ m.spans, s.base = m.next ∧ s.capacity = 0 := by
  have hstack := h.stack
  have hstorage := h.storage
  have hhigh := h.high
  constructor
  · rintro ⟨e, he, hblocks⟩
    obtain ⟨s, hs, rfl⟩ := List.mem_map.mp he
    obtain ⟨hbase, hcapacity, hlimit⟩ := h.places s.entry he
    change 0 ≤ s.base.toInt at hbase
    change 0 ≤ s.capacity.toInt at hcapacity
    change s.base.toInt + s.capacity.toInt ≤ m.next.toInt at hlimit
    have hend : s.limit.toInt = s.base.toInt + s.capacity.toInt :=
      toInt_add_of_le hbase hcapacity (by omega)
    refine ⟨s, Array.mem_toList_iff.mp hs, ?_⟩
    rcases hblocks with ⟨-, hover⟩ | ⟨hfrom, -⟩
    · have hreaches : m.next.toInt < s.limit.toInt := Int64.lt_iff_toInt_lt.mp hover
      omega
    · have hbegins : m.next.toInt ≤ s.base.toInt := Int64.le_iff_toInt_le.mp hfrom
      have hzero : (0 : Int64).toInt = 0 := rfl
      exact ⟨Int64.toInt_inj.mp (by omega), Int64.toInt_inj.mp (by omega)⟩
  · rintro ⟨s, hs, hbase, -⟩
    have hlarge := hroom.large
    have hless : s.base < m.next + c := by
      rw [hbase, Int64.lt_iff_toInt_lt, hroom.toInt_next]
      omega
    have hentry : s.entry ∈ m.entries := mem_entries_of_mem hs
    exact ⟨s.entry, hentry, .inr ⟨Int64.le_of_eq hbase.symm, hless⟩⟩

/-- A region that cannot be filled is a crash. -/
theorem fillStub_error {base : Addr} {failure : Failure}
    (h : fillStub base c m = .error failure m') : failure = .crash := by
  rcases fillStub_cases base c m with ⟨m₁, hcrash⟩ | ⟨hlow, hstart, -, hcopy⟩
  · rw [hcrash] at h
    cases h
    rfl
  · obtain ⟨cells', hfilled⟩ := copy_of_inside (toInt_nonneg_iff.mpr hlow) hstart
      (stubCells (min c.toInt (m.size - base.toInt)))
    rw [hcopy, hfilled] at h
    cases h

/-- **A failure to reserve a region leaves the memory alone**, unless cells were handed out before
it: if they cannot be filled, or another region is in the way. -/
theorem reserve_error {failure : Failure} (h : reserve name c m = .error failure m') :
    m' = m ↔ failure ≠ .crash ∧ ∀ other, failure ≠ .regionOverlap other := by
  have hget : (EStateM.get : Action Memory Memory) m = .ok m m := rfl
  unfold reserve at h
  by_cases hsmall : c.toInt < minRegionCells
  · rw [if_pos hsmall] at h
    cases h
    simp
  rw [if_neg hsmall] at h
  replace h := (bind_of_ok hget).symm.trans h
  by_cases htaken : m.names.contains name
  · rw [if_pos htaken] at h
    cases h
    simp
  rw [if_neg htaken] at h
  -- from here on the first cell that is not handed out has moved
  have hmoved (m' : Memory) (hnext : m'.next = m.next + c) : m' ≠ m := by
    rintro rfl
    have hmin : (minRegionCells : Int) = 3 := rfl
    have hzero : c = 0 := by grind
    rw [hzero] at hsmall
    exact hsmall (by decide)
  obtain halloc | ⟨base, m₁, halloc, h⟩ := error_of_bind h
  · unfold alloc at halloc
    split at halloc
    · cases halloc
      simp
    · cases halloc
  obtain ⟨rfl, -, -, rfl⟩ := alloc_ok halloc
  obtain ⟨cells, hfilled, -⟩ := exists_fillStub m.next c { m with next := m.next + c }
  obtain hfill | ⟨⟨⟩, m₂, hfill, h⟩ := error_of_bind h
  · have hcrash : failure = .crash := fillStub_error hfill
    obtain rfl := (after_of_error hfill).symm.trans hfilled
    exact iff_of_false (hmoved _ rfl) fun hno => hno.1 hcrash
  obtain rfl := (after_of_ok hfill).symm.trans hfilled
  obtain hregister | ⟨span, m₃, -, h⟩ := error_of_bind h
  · unfold register at hregister
    split at hregister
    · next htaken' => exact absurd htaken'.2 htaken
    · dsimp only at hregister
      split at hregister
      · next other _ =>
        cases hregister
        exact iff_of_false (hmoved _ rfl) fun hno => hno.2 other.name rfl
      · cases hregister
  · cases h

end Memory

/-- **A region that there is room for is reserved and can be called exactly if its place begins at
an address and nothing is in the way**, in every memory that can come about. In a memory in which no
sum wrapped around that is so unless an empty region stands at the first cell that is not handed
out. A failure leaves the memory alone unless cells were handed out before it. -/
theorem Estate.Reachable.reserve_yields_stub_iff {w : Estate} (hw : w.Reachable) (name : String)
    (c : Int64) :
    (name ≠ "" → w.memory.spanNamed? name = none → 3 ≤ c.toInt → c.toInt ≤ w.memory.free →
      (w.memory.YieldsStub name c ↔
        0 ≤ w.memory.next.toInt ∧ ¬w.memory.Blocked (w.memory.site name c)) ∧
      (w.memory.Tidy →
        (w.memory.YieldsStub name c ↔
          ∀ s ∈ w.memory.spans, s.base = w.memory.next → s.capacity ≠ 0))) ∧
    ∀ failure m', Memory.reserve name c w.memory = .error failure m' →
      (m' = w.memory ↔ failure ≠ .crash ∧ ∀ other, failure ≠ .regionOverlap other) := by
  obtain ⟨size, stack, m₀, hnew, hpath⟩ := hw.path
  obtain ⟨hnext, hlimit, hstack, hstorage⟩ := hpath.bounds hnew
  refine ⟨fun hname hfresh hlarge hfree => ?_, fun failure m' h => Memory.reserve_error h⟩
  have hnew : w.memory.names.lookup name = none :=
    hw.tables.1.spanNamed?_eq_none_iff.mp hfresh
  have hyields : w.memory.YieldsStub name c ↔
      0 ≤ w.memory.next.toInt ∧ ¬w.memory.Blocked (w.memory.site name c) := by
    constructor
    · rintro ⟨s, m', hreserve, -⟩
      have hlow := (Memory.reserve_of_ok (Int.le_of_lt hstack) hstorage hreserve).low
      have hroom := Memory.hasRoom_of_free hlow hnext hstack hstorage hlarge hfree
      refine ⟨hlow, fun hblocked => ?_⟩
      obtain ⟨other, hrefused⟩ :=
        Memory.reserve_of_blocked hw.sound.ordered hroom hnew hblocked
      rw [hrefused] at hreserve
      cases hreserve
    · rintro ⟨hlow, hclear⟩
      have hroom := Memory.hasRoom_of_free hlow hnext hstack hstorage hlarge hfree
      exact Memory.yieldsStub_of_clear hw.sound.ordered hw.sound.tables hw.tables.1 hlimit hroom
        hname hnew hclear
  refine ⟨hyields, fun htidy => ?_⟩
  have hroom := Memory.hasRoom_of_free htidy.low hnext hstack hstorage hlarge hfree
  rw [hyields, htidy.blocked_site_iff hroom]
  constructor
  · rintro ⟨-, hclear⟩ s hs hbase hempty
    exact hclear ⟨s, hs, hbase, hempty⟩
  · intro hnone
    refine ⟨htidy.low, ?_⟩
    rintro ⟨s, hs, hbase, hempty⟩
    exact hnone s hs hbase hempty

namespace Estate

/-- A program whose last routine is empty. -/
def sampleEmptyLast : Image where
  version := imageVersion
  base := 0
  cells? := some #[Op.proc.cell, Op.ret.cell]
  globals := []
  routines :=
    [{ name := "main", base := 0, capacity := 2 }, { name := "hook", base := 2, capacity := 0 }]

/-- A memory without regions. -/
def sampleBlank : Memory := { cells := Array.replicate 32 0, limit := 16 }

/-- A memory into which the program was loaded. -/
def sampleLoaded : Estate :=
  run { memory := sampleBlank } [.memory (.loadImage .stable sampleEmptyLast)]

/-- What loading the program comes to. -/
theorem memory_sampleLoaded : sampleLoaded.memory =
    (Memory.registerRoutines sampleEmptyLast.routines).after
      (sampleBlank.receive sampleEmptyLast) := by
  have hadmits : sampleBlank.Admits sampleEmptyLast := by
    refine ⟨rfl, ?_, by decide, rfl, rfl, by decide⟩
    have hsorted : sampleEmptyLast.sortedRoutines = sampleEmptyLast.routines :=
      Image.sortedRoutines_stable (by decide)
    unfold Image.checkLayout Image.layoutFault?
    rw [hsorted]
    rfl
  exact after_congr (Memory.loadImage_of_admits hadmits)

/-- In the new memory a region is reserved. In the other one the empty routine is in its way, and
its cells are handed out nevertheless. -/
theorem reserve_yields_stub_iff_sample :
    sampleBlank.Tidy ∧ sampleBlank.YieldsStub "x" 3 ∧ sampleLoaded.Reachable ∧
      sampleLoaded.memory.spanNamed? "x" = none ∧
      3 ≤ (3 : Int64).toInt ∧ (3 : Int64).toInt ≤ sampleLoaded.memory.free ∧
      ¬sampleLoaded.memory.YieldsStub "x" 3 ∧
      ∃ other, Memory.reserve "x" 3 sampleLoaded.memory =
          .error (.regionOverlap other) (sampleLoaded.memory.filled 3) ∧
        sampleLoaded.memory.filled 3 ≠ sampleLoaded.memory := by
  have hnew : Memory.new 32 16 = .ok sampleBlank := rfl
  have htidy : sampleBlank.Tidy := .of_new hnew
  have hblank : sampleBlank.YieldsStub "x" 3 := by
    have hreach : Reachable { memory := sampleBlank } := .new hnew
    obtain ⟨-, hyields⟩ :=
      (hreach.reserve_yields_stub_iff "x" 3).1 (by decide) rfl (by decide) (by decide +kernel)
    refine (hyields htidy).mpr ?_
    rintro s ⟨hs⟩
    cases hs
  have hreach : sampleLoaded.Reachable := Reachable.run (.new hnew) _
  have hfresh : sampleLoaded.memory.spanNamed? "x" = none := by
    rw [memory_sampleLoaded]
    decide +kernel
  have hfree : (3 : Int64).toInt ≤ sampleLoaded.memory.free := by
    rw [memory_sampleLoaded]
    decide +kernel
  have hroom : sampleLoaded.memory.HasRoom 3 := by
    rw [memory_sampleLoaded]
    exact ⟨by decide +kernel, by decide, by decide +kernel, by decide +kernel, by decide +kernel⟩
  have hblocked : sampleLoaded.memory.Blocked (sampleLoaded.memory.site "x" 3) := by
    rw [memory_sampleLoaded]
    exact ⟨{ name := "hook", base := 2, capacity := 0 }, by decide +kernel, by decide +kernel⟩
  obtain ⟨hyields, hatomic⟩ := hreach.reserve_yields_stub_iff "x" 3
  obtain ⟨hiff, -⟩ := hyields (by decide) hfresh (by decide) hfree
  obtain ⟨other, hrefused⟩ := Memory.reserve_of_blocked hreach.sound.ordered hroom
    (hreach.tables.1.spanNamed?_eq_none_iff.mp hfresh) hblocked
  exact ⟨htidy, hblank, hreach, hfresh, by decide, hfree,
    fun hstub => (hiff.mp hstub).2 hblocked, other, hrefused,
    fun hsame => ((hatomic _ _ hrefused).mp hsame).2 other rfl⟩

end Estate

end CellMachine
