import CellMachine.Proofs.Memory.Outline

/-!
# The table of regions

A memory hands cells out from below and never takes any back. Regions come to stand in it in four
ways: one is reserved behind all others, the routines of an image are put where the image says, and
a lease can be taken on any range of cells that are handed out. The table of regions stays in order
through all of this, as long as no sum of an address and a size that is asked for wraps around.

* `MemoryCall.Overreaches` — a call gets through with a sum that has wrapped around.
* `Memory.Tidy` — all that is handed out lies below the stack and is accounted for.
* `Memory.Tidy.step` — **a step that does not overreach leaves a tidy memory tidy.**
* `Memory.RegionTable` — what a search in the table can rely on.
* `Memory.regionTable_of_fits` — **it always can**, if no sum wraps around.
-/

namespace CellMachine

open CellMachine.Action

/-! ### Sums that wrap around -/

/-- No sum of an address and a size that a call asks for wraps around. -/
def MemoryCall.Fits (m : Memory) : MemoryCall → Prop
  | .alloc n | .reserve _ n => ¬Overflows m.next n
  | .leaseAt base n => ¬Overflows base n
  | .loadImage _ img => ¬img.Overflows ∧ ∀ r ∈ img.routines, ¬r.Overflows
  | .store _ _ | .defineGlobal _ _ | .setGlobal _ _ | .leaseNamed _ => True

/-- No sum of an address and a size that a step asks for wraps around. -/
def MemoryStep.Fits (m : Memory) : MemoryStep → Prop
  | .call c => c.Fits m
  | .lease _ _ | .run _ _ _ => True

/-- A call gets through with a sum that has wrapped around: cells are handed out up to a negative
address, or a region comes to stand that does not end. A range that begins in a region is never
registered, nor is a routine after one that clashes. -/
def MemoryCall.Overreaches (m : Memory) : MemoryCall → Prop
  | .alloc n => Overflows m.next n
  | .reserve name n => m.spanNamed? name = none ∧ Overflows m.next n
  | .leaseAt base n => m.find? base = none ∧ Overflows base n
  | .loadImage order img => @Memory.Admits order m img ∧
      ∃ before r after, img.routines = before ++ r :: after ∧
        ¬m.Clashing (before ++ [r]) ∧ r.Overflows
  | .store _ _ | .defineGlobal _ _ | .setGlobal _ _ | .leaseNamed _ => False

/-- A step gets through with a sum that has wrapped around. -/
def MemoryStep.Overreaches (m : Memory) : MemoryStep → Prop
  | .call c => c.Overreaches m
  | .lease _ _ | .run _ _ _ => False

/-- The end of an image that is loaded does not wrap around. -/
def MemoryStep.Ends (m : Memory) : MemoryStep → Prop
  | .call (.loadImage order img) => @Memory.Admits order m img → ¬img.Overflows
  | _ => True

/-- A step whose sums do not wrap around does not get through with one that does. -/
theorem MemoryStep.Fits.not_overreaches {m : Memory} {step : MemoryStep} (h : step.Fits m) :
    ¬step.Overreaches m := by
  intro hover
  cases step with
  | lease | run => cases hover
  | call c =>
    cases c with
    | alloc n => exact h hover
    | reserve name n => exact h hover.2
    | leaseAt base n => exact h hover.2
    | loadImage order img =>
      obtain ⟨-, before, r, after, hsplit, -, hwrap⟩ := hover
      exact h.2 r (by simp [hsplit]) hwrap
    | store | defineGlobal | setGlobal | leaseNamed => cases hover

/-- An image whose sums do not wrap around has an end. -/
theorem MemoryStep.Fits.ends {m : Memory} {step : MemoryStep} (h : step.Fits m) : step.Ends m := by
  cases step with
  | lease | run => trivial
  | call c =>
    cases c with
    | loadImage order img => exact fun _ => h.1
    | alloc | reserve | leaseAt | store | defineGlobal | setGlobal | leaseNamed => trivial

namespace Memory

/-! ### Tidy memories -/

/-- A place lies in memory that is handed out, as a range of integers. -/
structure Allots (m : Memory) (r : RoutineEntry) : Prop where
  base : 0 ≤ r.base.toInt
  capacity : 0 ≤ r.capacity.toInt
  limit : r.base.toInt + r.capacity.toInt ≤ m.next.toInt

/-- All that is handed out of a memory lies below the stack and is accounted for. -/
structure Tidy (m : Memory) : Prop where
  ordered : m.Ordered
  low : 0 ≤ m.next.toInt
  high : m.next.toInt ≤ m.limit.toInt
  stack : m.limit.toInt < m.cells.size
  storage : m.cells.size ≤ maxCells
  places : ∀ e ∈ m.entries, m.Allots e
  globals : ∀ name a, m.globalAddr? name = some a → a.toInt < m.next.toInt

variable {m m' : Memory} {r : RoutineEntry}

/-- What is handed out decides which places are allotted. -/
theorem Allots.of_sameHoldings (h : m.Allots r) (hsame : m.SameHoldings m') : m'.Allots r := by
  refine ⟨h.base, h.capacity, ?_⟩
  rw [hsame.next]
  exact h.limit

/-- More is handed out. -/
theorem Allots.mono (h : m.Allots r) (hnext : m.next.toInt ≤ m'.next.toInt) : m'.Allots r :=
  ⟨h.base, h.capacity, Int.le_trans h.limit hnext⟩

namespace Tidy

/-- A memory is tidy by its outline. -/
theorem of_sameOutline (h : m.Tidy) (hsame : m.SameOutline m') : m'.Tidy := by
  constructor
  case ordered =>
    unfold Ordered
    rw [hsame.entries]
    exact h.ordered
  case low => rw [hsame.next]; exact h.low
  case high => rw [hsame.next, hsame.limit]; exact h.high
  case stack => rw [hsame.limit, hsame.size]; exact h.stack
  case storage => rw [hsame.size]; exact h.storage
  case places =>
    rw [hsame.entries]
    intro e he
    exact (h.places e he).of_sameHoldings hsame.toSameHoldings
  case globals =>
    unfold globalAddr?
    rw [hsame.addresses, hsame.next]
    exact h.globals

/-- A tidy memory stays tidy when more is handed out below the stack. -/
theorem advance (h : m.Tidy) {next : Addr} {addresses : NameMap Addr} {order : List String}
    (hlow : m.next.toInt ≤ next.toInt) (hhigh : next.toInt ≤ m.limit.toInt)
    (hglobals : ∀ name a, addresses.lookup name = some a → a.toInt < next.toInt) :
    Tidy { m with next, addresses, order } where
  ordered := h.ordered
  low := Int.le_trans h.low hlow
  high := hhigh
  stack := h.stack
  storage := h.storage
  places e he := (h.places e he).mono hlow
  globals := hglobals

/-- A tidy memory stays tidy when a region is registered in what is handed out. -/
theorem adds (h : m.Tidy) (hadds : m.Adds r m') (hr : m.Allots r) : m'.Tidy where
  ordered := hadds.ordered
  low := by rw [hadds.next]; exact h.low
  high := by rw [hadds.next, hadds.limit]; exact h.high
  stack := by rw [hadds.limit, hadds.size]; exact h.stack
  storage := by rw [hadds.size]; exact h.storage
  places := by
    intro e he
    rcases List.mem_cons.mp (hadds.entries.mem_iff.mp he) with rfl | he
    · exact hr.of_sameHoldings hadds.toSameHoldings
    · exact (h.places e he).of_sameHoldings hadds.toSameHoldings
  globals := by
    unfold globalAddr?
    rw [hadds.addresses, hadds.next]
    exact h.globals

/-! ### What calls do to tidy memories -/

/-- Something that leaves the outline alone preserves what the outline decides. -/
theorem preserves_of_sameOutline {α : Type} {P : Memory → Prop} {x : Action Memory α}
    (hP : ∀ {m m' : Memory}, m.SameOutline m' → P m → P m')
    (hx : ∀ m : Memory, m.SameOutline (x.after m)) : Preserves P x :=
  fun m hm => hP (hx m) hm

/-- The memory is tidy, and a place is allotted in it. -/
def With (r : RoutineEntry) (m : Memory) : Prop := m.Tidy ∧ m.Allots r

/-- Whether a place is allotted in a tidy memory is a matter of the outline. -/
theorem With.of_sameOutline (hsame : m.SameOutline m') (h : With r m) : With r m' :=
  ⟨h.1.of_sameOutline hsame, h.2.of_sameHoldings hsame.toSameHoldings⟩

/-- Registering a region in what is handed out leaves a tidy memory tidy. -/
theorem register_preserves (r : RoutineEntry) :
    Preserves (With r) (register r.name r.base r.capacity) := by
  intro m ⟨htidy, hr⟩
  rcases register_cases htidy.ordered r with ⟨failure, hreg⟩ | ⟨s, m', hreg, hadds⟩
  · rw [after_of_error hreg]
    exact ⟨htidy, hr⟩
  · rw [after_of_ok hreg]
    exact ⟨htidy.adds hadds hr, hr.of_sameHoldings hadds.toSameHoldings⟩

/-- Registering routines leaves a tidy memory tidy, if those that are registered are allotted. -/
theorem registerRoutines_after {routines : List RoutineEntry} :
    ∀ {m : Memory}, m.Tidy → m.Ready routines →
      (∀ before r after, routines = before ++ r :: after → ¬m.Clashing (before ++ [r]) →
        m.Allots r) → ((registerRoutines routines).after m).Tidy := by
  induction routines with
  | nil =>
    intro m h _ _
    exact h
  | cons r rest ih =>
    intro m h hready hallots
    by_cases hblocked : m.Blocked r
    · obtain ⟨failure, hreg⟩ := registerRoutines_of_blocked hready hblocked
      rw [after_of_error hreg]
      exact h
    · obtain ⟨m', hadds, heq⟩ := registerRoutines_cons hready hblocked
      have hsingle : m.Ready [r] := Ready.of_append [r] rest hready
      have hfirst : ¬m.Clashing [r] := by
        intro hclash
        rcases (clashing_cons_iff hsingle hadds.toInserted).mp hclash with
          hblocks | ⟨b, t, a, hnil, -⟩
        · exact hblocked hblocks
        · simp at hnil
      rw [after_congr heq]
      apply ih (h.adds hadds (hallots [] r rest rfl hfirst)) (hready.tail hadds.toInserted)
      intro before t after hsplit hno
      subst hsplit
      have hsome : m.Ready (r :: (before ++ [t])) := by
        apply Ready.of_append _ after
        simpa using hready
      refine (hallots (r :: before) t after rfl ?_).of_sameHoldings hadds.toSameHoldings
      intro hclash
      rcases (clashing_cons_iff hsome hadds.toInserted).mp hclash with hblocks | hlater
      · exact hblocked hblocks
      · exact hno hlater

/-- Handing cells out is refused, or moves the first cell that is not handed out. -/
theorem alloc_cases (n : Int64) (m : Memory) :
    (∃ failure, alloc n m = .error failure m) ∨
      0 ≤ n.toInt ∧ (m.next + n).toInt ≤ m.limit.toInt ∧
        alloc n m = .ok m.next { m with next := m.next + n } := by
  by_cases h : n < 0 ∨ m.limit < m.next + n
  · refine .inl ⟨.noRoom n.toInt m.free, ?_⟩
    unfold alloc
    rw [if_pos h]
  · refine .inr ⟨?_, ?_, ?_⟩
    · rw [← toInt_nonneg_iff]
      exact Int64.not_lt.mp fun hneg => h (.inl hneg)
    · rw [← Int64.le_iff_toInt_le]
      exact Int64.not_lt.mp fun hlt => h (.inr hlt)
    · unfold alloc
      rw [if_neg h]

/-- Cells that are handed out without a sum that wraps around. -/
theorem alloc (h : m.Tidy) {n : Int64} (hn : 0 ≤ n.toInt) (hfits : ¬Overflows m.next n)
    (hlimit : (m.next + n).toInt ≤ m.limit.toInt) :
    Tidy { m with next := m.next + n } ∧ (m.next + n).toInt = m.next.toInt + n.toInt := by
  have hsum := toInt_add_of_not_overflows h.low hn hfits
  have hglobals : ∀ name a, m.globalAddr? name = some a → a.toInt < (m.next + n).toInt := by
    intro name a ha
    have hlt := h.globals name a ha
    omega
  exact ⟨h.advance (by omega) hlimit hglobals, hsum⟩

/-- The first cell that is not handed out is followed by an address. -/
theorem not_overflows_one (h : m.Tidy) : ¬Overflows m.next 1 := by
  have hmax : (maxCells : Int) = 35184372088832 := by decide
  have hone : (1 : Int64).toInt = 1 := by decide
  have hhigh := h.high
  have hstack := h.stack
  have hstorage := h.storage
  unfold Overflows
  omega

/-- Defining a global leaves a tidy memory tidy. -/
theorem defineGlobal (h : m.Tidy) (name : String) (init : Cell) :
    ((Memory.defineGlobal name init).after m).Tidy := by
  rcases defineGlobal_cases name init m with hsame | ⟨-, hroom, cells, hsize, hafter⟩
  · rw [hsame]
    exact h
  · have hlimit := Int64.le_iff_toInt_le.mp hroom
    obtain ⟨htidy, hsum⟩ := h.alloc (by decide) h.not_overflows_one hlimit
    have hone : (1 : Int64).toInt = 1 := by decide
    have hcells : Tidy { m with next := m.next + 1, cells } :=
      htidy.of_sameOutline (.of_cells _ hsize)
    rcases hafter with hafter | hafter
    · rw [hafter]
      exact hcells
    · -- the cell of the global is handed out
      rw [hafter]
      refine hcells.advance (Int.le_refl _) hcells.high fun other a ha => ?_
      rw [NameMap.lookup_insert] at ha
      split at ha
      · rw [← Option.some.inj ha]
        show m.next.toInt < (m.next + 1).toInt
        omega
      · exact hcells.globals other a ha

/-- Reserving a region leaves a tidy memory tidy, if it does not overreach. -/
theorem reserve (h : m.Tidy) (name : String) {capacity : Int64}
    (hno : ¬(m.spanNamed? name = none ∧ Overflows m.next capacity)) :
    ((Memory.reserve name capacity).after m).Tidy := by
  have hget : (EStateM.get : Action Memory Memory) m = .ok m m := rfl
  unfold Memory.reserve
  by_cases hsmall : capacity.toInt < minRegionCells
  · rw [if_pos hsmall]
    exact h
  rw [if_neg hsmall, after_congr (bind_of_ok hget)]
  by_cases htaken : m.names.contains name
  · rw [if_pos htaken]
    exact h
  rw [if_neg htaken]
  rcases alloc_cases capacity m with ⟨failure, halloc⟩ | ⟨hcapacity, hlimit, halloc⟩
  · rw [after_of_error (bind_of_error halloc)]
    exact h
  rw [after_congr (bind_of_ok halloc)]
  have hfits : ¬Overflows m.next capacity := fun hwrap =>
    hno ⟨spanNamed?_of_not_contains htaken, hwrap⟩
  obtain ⟨htidy, hsum⟩ := h.alloc hcapacity hfits hlimit
  let r : RoutineEntry := { name, base := m.next, capacity }
  have hpreserves : Preserves (With r) (do
      fillStub m.next capacity
      let span ← register name m.next capacity
      modify fun m' => m'.updateSpan span.id fun s => { s with length := stub.size }
      return { span with length := stub.size }) := by
    refine .bind (preserves_of_sameOutline With.of_sameOutline (fillStub_sameOutline _ _)) fun _ =>
      .bind (register_preserves r) fun span => .bind (.modify fun m' hm' => ?_) fun _ => .pure _
    exact With.of_sameOutline (.updateSpan m' span.id fun _ => rfl) hm'
  exact (hpreserves _ ⟨htidy, h.low, hcapacity, Int.le_of_eq hsum.symm⟩).1

/-- A lease on a range leaves a tidy memory tidy, if it does not overreach. -/
theorem leaseAt (h : m.Tidy) {base : Addr} {capacity : Int64}
    (hno : ¬(m.find? base = none ∧ Overflows base capacity)) :
    ((Memory.leaseAt base capacity).after m).Tidy := by
  unfold Action.after
  rw [leaseAt_eq]
  by_cases hrange : capacity ≤ 0 ∨ base < 0 ∨ m.next < base + capacity
  · rw [if_pos hrange]
    exact h
  rw [if_neg hrange]
  rw [not_or, not_or, Int64.not_le, Int64.not_lt, Int64.not_lt, Int64.lt_iff_toInt_lt,
    toInt_nonneg_iff, Int64.le_iff_toInt_le] at hrange
  obtain ⟨hcapacity, hbase, hlimit⟩ := hrange
  change 0 < capacity.toInt at hcapacity
  cases hfind : m.find? base with
  | some s =>
    by_cases hplace : s.base ≠ base ∨ s.capacity ≠ capacity
    · simp only [if_pos hplace]
      exact h
    · simp only [if_neg hplace]
      exact h.of_sameOutline (openLease_sameOutline s m)
  | none =>
    have hsum := toInt_add_of_not_overflows hbase (by omega) fun hwrap => hno ⟨hfind, hwrap⟩
    let r : RoutineEntry := { name := "", base, capacity }
    have hpreserves : Preserves (With r) (register "" base capacity >>= openLease) :=
      .bind (register_preserves r) fun s =>
        preserves_of_sameOutline With.of_sameOutline (openLease_sameOutline s)
    exact (hpreserves m ⟨h, hbase, by show 0 ≤ capacity.toInt; omega,
      by show base.toInt + capacity.toInt ≤ _; omega⟩).1

/-- Receiving an image leaves a tidy memory tidy. -/
theorem receive [BaseOrder] (h : m.Tidy) {img : Image} (hadmits : m.Admits img)
    (hend : ¬img.Overflows) : (m.receive img).Tidy ∧ (m.receive img).next = img.limit := by
  obtain ⟨hlow, hhigh⟩ := hadmits.free
  rw [Int64.le_iff_toInt_le] at hlow hhigh
  have hlimit := Image.toInt_limit (Image.base_nonneg hadmits.layout) hend
  have hcopied := copy_sameOutline img.base img.cells m
  have haddress : ∀ name a, (m.receive img).globalAddr? name = some a →
      a.toInt < img.limit.toInt := by
    intro name a ha
    rcases address_of_bindGlobals ha with ⟨g, hg, -, rfl⟩ | hold
    · exact Int64.lt_iff_toInt_lt.mp (Image.between_of_globalFault?
        (Image.globalFault?_of_checkLayout hadmits.layout) g hg).2
    · have hlt := (h.of_sameOutline hcopied).globals name a hold
      rw [hcopied.next] at hlt
      omega
  obtain ⟨cells, addresses, hreceive, hsize⟩ := exists_receive m img
  rw [hreceive] at haddress ⊢
  refine ⟨Tidy.advance (m := { m with cells }) (h.of_sameOutline (.of_cells m hsize)) ?_ hhigh
    haddress, rfl⟩
  show m.next.toInt ≤ img.limit.toInt
  omega

/-- Loading an image leaves a tidy memory tidy, if it does not overreach. -/
theorem loadImage [BaseOrder] (h : m.Tidy) {img : Image} (hend : m.Admits img → ¬img.Overflows)
    (hno : ¬(m.Admits img ∧ ∃ before r after, img.routines = before ++ r :: after ∧
      ¬m.Clashing (before ++ [r]) ∧ r.Overflows)) :
    ((Memory.loadImage img).after m).Tidy := by
  by_cases hadmits : m.Admits img
  · rw [after_congr (loadImage_of_admits hadmits)]
    obtain ⟨htidy, hnext⟩ := h.receive hadmits (hend hadmits)
    apply registerRoutines_after htidy (hadmits.ready h.ordered)
    intro before r after hsplit hclear
    rw [clashing_receive_iff] at hclear
    have hfits : ¬r.Overflows := fun hwrap => hno ⟨hadmits, before, r, after, hsplit, hclear, hwrap⟩
    obtain ⟨hcapacity, hbase, hlimit⟩ :=
      Image.place_of_checkLayout hadmits.layout (r := r) (by simp [hsplit])
    have himg := Image.base_nonneg hadmits.layout
    have hsum : r.limit.toInt = r.base.toInt + r.capacity.toInt :=
      toInt_add_of_not_overflows (by omega) hcapacity hfits
    refine ⟨by omega, hcapacity, ?_⟩
    rw [hnext]
    omega
  · obtain ⟨failure, hload⟩ := loadImage_of_not_admits hadmits
    rw [after_of_error hload]
    exact h

/-- **A step that does not overreach leaves a tidy memory tidy.** -/
theorem step (h : m.Tidy) {step : MemoryStep} (hend : step.Ends m) (hno : ¬step.Overreaches m) :
    (step.after m).Tidy := by
  cases step with
  | lease id c => exact h.of_sameOutline (lease_sameOutline m id c)
  | run processor target? args =>
    exact h.of_sameOutline (run_sameOutline m processor target? args)
  | call c =>
    cases c with
    | store a v => exact h.of_sameOutline (store_sameOutline a v m)
    | setGlobal name v => exact h.of_sameOutline (setGlobal_sameOutline name v m)
    | leaseNamed name => exact h.of_sameOutline (leaseNamed_sameOutline name m)
    | defineGlobal name init => exact h.defineGlobal name init
    | reserve name capacity => exact h.reserve name hno
    | leaseAt base capacity => exact h.leaseAt hno
    | loadImage order img => exact h.loadImage hend hno
    | alloc n =>
      show ((Memory.alloc n).after m).Tidy
      rcases alloc_cases n m with ⟨failure, halloc⟩ | ⟨hn, hlimit, halloc⟩
      · rw [after_of_error halloc]
        exact h
      · rw [after_of_ok halloc]
        exact (h.alloc hn hno hlimit).1

/-- A new memory is tidy. -/
theorem of_new {size stack : Int} (h : Memory.new size stack = .ok m) : m.Tidy := by
  obtain ⟨hspans, -, hnext, hlow, hhigh, hstorage⟩ := new_ok h
  have hentries : m.entries = [] := by simp [entries, hspans]
  have hzero : m.next.toInt = 0 := by
    rw [hnext]
    rfl
  constructor
  case ordered => exact ordered_of_new h
  case low => omega
  case high => omega
  case stack => exact hhigh
  case storage => exact hstorage
  case places => simp [hentries]
  case globals =>
    rw [new_eq h]
    exact fun _ _ => nofun

/-- The regions of a tidy memory lie inside it. -/
theorem encloses (h : m.Tidy) {s : Span} (hs : s ∈ m.spans) : m.Encloses s := by
  have hplace := h.places s.entry (mem_entries_of_mem hs)
  refine ⟨hplace.base, hplace.capacity, ?_⟩
  have hlimit : s.base.toInt + s.capacity.toInt ≤ m.next.toInt := hplace.limit
  have hhigh := h.high
  have hstack := h.stack
  omega

end Tidy

/-! ### Runs -/

/-- Something holds of every step of a run and of the memory before the step. -/
def EachStep (Q : Memory → MemoryStep → Prop) : Memory → List MemoryStep → Prop
  | _, [] => True
  | m, step :: rest => Q m step ∧ EachStep Q (step.after m) rest

/-- Along a run in which no step overreaches the memory stays tidy. -/
theorem Tidy.afterAll {steps : List MemoryStep} : ∀ {m : Memory}, m.Tidy →
    EachStep (fun m step => step.Ends m ∧ ¬step.Overreaches m) m steps →
      (m.afterAll steps).Tidy := by
  induction steps with
  | nil =>
    intro m h _
    exact h
  | cons step rest ih =>
    rintro m h ⟨⟨hend, hno⟩, hrest⟩
    exact ih (h.step hend hno) hrest

/-- What holds of a step whenever something else does holds along a run. -/
theorem EachStep.imp {Q Q' : Memory → MemoryStep → Prop} (hQ : ∀ {m step}, Q m step → Q' m step) :
    ∀ {steps : List MemoryStep} {m : Memory}, EachStep Q m steps → EachStep Q' m steps
  | [], _, _ => trivial
  | _ :: _, _, h => ⟨hQ h.1, EachStep.imp hQ h.2⟩

/-! ### The table -/

/-- The region that a search finds contains the address. -/
theorem contains_of_find? {a : Addr} {s : Span} (h : m.find? a = some s) : s.contains a = true := by
  unfold find? at h
  split at h
  · cases h
  · split at h
    · split at h
      · next hcontains =>
        cases h
        exact hcontains
      · cases h
    · cases h

/-- What a search in the table of regions can rely on. -/
structure RegionTable (m : Memory) : Prop where
  /-- The regions stand in the order of their bases, and each one ends before the next begins. -/
  sorted : m.spans.toList.Pairwise fun s t =>
    s.base.toInt ≤ t.base.toInt ∧ s.base.toInt + s.capacity.toInt ≤ t.base.toInt
  /-- Regions lie in memory that is handed out. -/
  allotted : ∀ s ∈ m.spans, s.base.toInt + s.capacity.toInt ≤ m.next.toInt
  /-- So do globals. -/
  globals : ∀ name a, m.globalAddr? name = some a → a.toInt < m.next.toInt
  /-- The order of the globals has the names of those that have addresses, each once. -/
  listed : m.Listed
  next : m.next.toInt ≤ m.limit.toInt
  /-- No two regions share a name. -/
  names : m.spans.toList.Pairwise fun s t => s.name = t.name → s.name = ""
  /-- The index holds exactly the names of the regions, each with the number of its region. -/
  indexed : ∀ name id, m.names.lookup name = some id ↔
    name ≠ "" ∧ ∃ s ∈ m.spans, s.name = name ∧ s.id = id
  /-- No two regions share a number. -/
  numbered : (m.spans.toList.map Span.id).Nodup
  /-- So the region of a name is the one that has it. -/
  named : ∀ name s, m.spanNamed? name = some s ↔ name ≠ "" ∧ s ∈ m.spans ∧ s.name = name
  /-- The region of an address is the one that contains it. -/
  found : ∀ a s, m.find? a = some s ↔
    s ∈ m.spans ∧ s.base.toInt ≤ a.toInt ∧ a.toInt < s.base.toInt + s.capacity.toInt

/-- No two regions share a name, since the index has one number for each name. -/
theorem Indexed.distinct (h : m.Indexed) (hm : m.Sound) :
    m.spans.toList.Pairwise fun s t => s.name = t.name → s.name = "" := by
  refine (List.pairwise_map.mp hm.numbered).imp_of_mem fun {s t} hs ht hne hname => ?_
  by_contra hnamed
  have hfirst := h.lookup_of_mem (Array.mem_toList_iff.mp hs) hnamed
  have hsecond := h.lookup_of_mem (Array.mem_toList_iff.mp ht) (hname ▸ hnamed)
  rw [← hname, hfirst] at hsecond
  exact hne (Option.some.inj hsecond)

/-- **The region that the index finds is the one that has the name.** -/
theorem Indexed.spanNamed?_eq_some_iff (h : m.Indexed) (hm : m.Sound) {name : String} {s : Span} :
    m.spanNamed? name = some s ↔ name ≠ "" ∧ s ∈ m.spans ∧ s.name = name := by
  unfold spanNamed?
  rw [Option.bind_eq_some_iff]
  constructor
  · rintro ⟨id, hid, hspan⟩
    obtain ⟨hname, t, ht, hnamed, rfl⟩ := h.exists_span hid
    obtain ⟨hs, hsame⟩ := hm.span?_eq_some_iff.mp hspan
    obtain rfl := hm.eq_of_id hs ht hsame
    exact ⟨hname, hs, hnamed⟩
  · rintro ⟨hname, hs, rfl⟩
    exact ⟨s.id, h.lookup_of_mem hs hname, hm.span?_eq_some_iff.mpr ⟨hs, rfl⟩⟩

/-- The table of regions of a tidy memory can be relied on. -/
theorem Tidy.regionTable (h : m.Tidy) (hm : m.Reachable) : m.RegionTable where
  sorted := by
    refine (List.pairwise_map.mp h.ordered).imp_of_mem fun {s t} hs ht hbefore => ?_
    have hlimit := (h.encloses (Array.mem_toList_iff.mp hs)).toInt_limit h.storage
    rw [← hlimit]
    exact ⟨Int64.le_iff_toInt_le.mp hbefore.base, Int64.le_iff_toInt_le.mp hbefore.limit⟩
  allotted s hs := (h.places s.entry (mem_entries_of_mem hs)).limit
  globals := h.globals
  listed := hm.listed
  next := h.high
  names := hm.indexed.distinct hm.sound
  indexed name id := by
    rw [hm.indexed name id, mem_tags]
  numbered := hm.sound.numbered
  named name s := hm.indexed.spanNamed?_eq_some_iff hm.sound
  found a s := by
    constructor
    · intro hfind
      have hs := mem_of_find? hfind
      exact ⟨hs, ((h.encloses hs).contains_iff h.storage).mp (contains_of_find? hfind)⟩
    · rintro ⟨hs, ha⟩
      exact find?_of_contains h.ordered hs (((h.encloses hs).contains_iff h.storage).mpr ha)

/-- **The table of regions can always be relied on**, whatever happens to a memory and whether it
succeeds or fails, if no sum of an address and a size that is asked for wraps around. -/
theorem regionTable_of_fits {size stack : Int} (hnew : Memory.new size stack = .ok m)
    {steps : List MemoryStep} (h : EachStep (fun m step => step.Fits m) m steps) :
    (m.afterAll steps).RegionTable := by
  have hm : m.Reachable := .new hnew
  refine Tidy.regionTable ((Tidy.of_new hnew).afterAll ?_) (hm.afterAll steps)
  exact h.imp fun hfits => ⟨hfits.ends, hfits.not_overreaches⟩

/-- A cell is handed out, a request that is too large is refused, a region is reserved, the cell is
leased, an image is loaded behind the region, the lease is sealed, and a machine runs. -/
def sampleSteps : List MemoryStep :=
  [.call (.alloc 1), .call (.alloc 8), .call (.reserve "hook" 4), .call (.leaseAt 0 1),
    .call (.loadImage .stable
      { sampleImage with base := 5, routines := [{ name := "main", base := 5, capacity := 3 }] }),
    .lease 0 (.sealUp 1), .run {} (some 1) []]

/-- A run through all ways to make a region. -/
theorem regionTable_of_fits_sample :
    EachStep (fun m step => step.Fits m) sampleMemory sampleSteps ∧
      (sampleMemory.afterAll sampleSteps).RegionTable := by
  have hnew : Memory.new 16 8 = .ok sampleMemory := rfl
  have hfits : EachStep (fun m step => step.Fits m) sampleMemory sampleSteps := by
    refine ⟨?_, ?_, ?_, ?_, ⟨?_, ?_⟩, trivial, trivial, trivial⟩
    · show ¬Overflows _ _
      decide
    · show ¬Overflows _ _
      decide
    · show ¬Overflows _ _
      decide
    · show ¬Overflows _ _
      decide
    · decide
    · intro r hr
      rw [List.mem_singleton.mp hr]
      decide
  exact ⟨hfits, regionTable_of_fits hnew hfits⟩

end Memory

end CellMachine
