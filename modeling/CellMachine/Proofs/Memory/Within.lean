import CellMachine.Proofs.Memory.Table

/-!
# Memory that is handed out

Cells are handed out below the stack and leases are granted on cells that are handed out; both are
checked with sums that wrap around. A request is granted wrongly exactly if its sum is no address,
for then the sum is negative and lies below every bound. One such request is enough to lose the
memory: the first cell that is not handed out gets a negative address, or a region comes to stand
that reaches beyond all cells.

* `Memory.Within` — what is handed out, all regions and all open leases lie inside the memory.
* `Memory.ExactGrants` — when a request that is granted is granted rightly.
* `Memory.not_within_of_overreaches` — a step that overreaches ends outside.
* `Memory.within_always_iff` — **all stays inside the memory exactly as long as no step
  overreaches.**
-/

namespace CellMachine

open CellMachine.Action

/-- An image that is loaded has no more cells than storage has room for. -/
def MemoryStep.Storable : MemoryStep → Prop
  | .call (.loadImage _ img) => img.cells.size ≤ maxCells
  | _ => True

namespace Memory

/-- What is handed out of a memory, all its regions and all open leases lie inside it. -/
structure Within (m : Memory) : Prop where
  low : 0 ≤ m.next.toInt
  high : m.next.toInt ≤ m.limit.toInt
  stack : m.limit.toInt < m.cells.size
  regions : ∀ s ∈ m.spans, m.Encloses s
  leases : ∀ (id : Nat) l, m.leases[id]? = some l → l.done = false →
    ∃ s, Leasehold.parts? { lease := id, memory := m } = some (l, s) ∧ m.Encloses s

/-- Something holds of a memory and of what becomes of it by every step of a run. -/
def Always (P : Memory → Prop) : Memory → List MemoryStep → Prop
  | m, [] => P m
  | m, step :: rest => P m ∧ Always P (step.after m) rest

variable {m m' : Memory}

/-- What always holds holds at the start. -/
theorem Always.head {P : Memory → Prop} {steps : List MemoryStep} (h : Always P m steps) : P m := by
  cases steps with
  | nil => exact h
  | cons step rest => exact h.1

/-- What holds of every memory that can come about always holds. -/
theorem Always.of_reachable {P : Memory → Prop} (hP : ∀ {m : Memory}, m.Reachable → P m)
    {steps : List MemoryStep} : ∀ {m : Memory}, m.Reachable → Always P m steps := by
  induction steps with
  | nil =>
    intro m hm
    exact hP hm
  | cons step rest ih =>
    intro m hm
    exact ⟨hP hm, ih (hm.step step)⟩

/-- All lies inside a tidy memory. -/
theorem Tidy.within (h : m.Tidy) (hm : m.Reachable) : m.Within where
  low := h.low
  high := h.high
  stack := h.stack
  regions _ hs := h.encloses hs
  leases id l hl _ := by
    obtain ⟨s, hs, hid⟩ := hm.sound.placed id l hl
    have hparts : Leasehold.parts? { lease := id, memory := m } = some (l, s) :=
      Sound.parts?_eq_some_iff (h := { lease := id, memory := m }) hm.sound |>.mpr ⟨hl, hs, hid⟩
    exact ⟨s, hparts, h.encloses hs⟩

/-! ### Grants -/

/-- A range of cells lies between the first address and another one, as a range of integers. -/
structure Spanned (base : Addr) (n : Int64) (top : Addr) : Prop where
  low : 0 ≤ base.toInt
  size : 0 ≤ n.toInt
  high : base.toInt + n.toInt ≤ top.toInt

/-- A range whose end, as it is computed, lies below an address lies there exactly if it does not
wrap around. -/
theorem spanned_iff {base top : Addr} {n : Int64} (hn : 0 ≤ n.toInt)
    (hlimit : (base + n).toInt ≤ top.toInt) :
    Spanned base n top ↔ 0 ≤ base.toInt ∧ ¬Overflows base n := by
  have htop := top.toInt_lt
  constructor
  · rintro ⟨hbase, -, hinside⟩
    refine ⟨hbase, ?_⟩
    unfold Overflows
    omega
  · rintro ⟨hbase, hfits⟩
    rw [toInt_add_of_not_overflows hbase hn hfits] at hlimit
    exact ⟨hbase, hn, hlimit⟩

/-- What is granted of a memory, and when it is granted rightly. -/
structure ExactGrants (m : Memory) : Prop where
  /-- Cells that are handed out lie below the stack, unless the sum wraps around or has done so
  before. -/
  alloc : ∀ n a m', alloc n m = .ok a m' →
    (Spanned a n m.limit ↔ 0 ≤ m.next.toInt ∧ ¬Overflows m.next n)
  /-- A region that is reserved lies below the stack. -/
  reserve : ∀ name n s m', reserve name n m = .ok s m' →
    s.capacity = n ∧ Spanned s.base n m.limit
  /-- A range that is leased lies in memory that is handed out, unless its end wraps around. -/
  leaseAt : ∀ base n id m', leaseAt base n m = .ok id m' →
    (Spanned base n m.next ↔ ¬Overflows base n)

/-- Cells are handed out from the first one on that is not handed out, below the stack as far as
the sum tells. -/
theorem alloc_ok {n : Int64} {a : Addr} (h : alloc n m = .ok a m') :
    a = m.next ∧ 0 ≤ n.toInt ∧ (m.next + n).toInt ≤ m.limit.toInt ∧
      m' = { m with next := m.next + n } := by
  rcases Tidy.alloc_cases n m with ⟨failure, halloc⟩ | ⟨hn, hlimit, halloc⟩
  · rw [halloc] at h
    cases h
  · rw [halloc] at h
    cases h
    exact ⟨rfl, hn, hlimit, rfl⟩

/-- The region that is registered has the place that was asked for. -/
theorem register_ok {name : String} {base : Addr} {capacity : Int64} {s : Span}
    (h : register name base capacity m = .ok s m') : s.base = base ∧ s.capacity = capacity := by
  unfold register at h
  split at h
  · cases h
  · dsimp only at h
    split at h
    · cases h
    · cases h
      exact ⟨rfl, rfl⟩

/-- A region that is filled begins inside the memory and has room there, unless it is no larger than
the routine that returns zero. -/
theorem fillStub_ok {base : Addr} {capacity : Int64} (h : fillStub base capacity m = .ok () m') :
    0 ≤ base.toInt ∧ base.toInt ≤ m.size ∧
      capacity.toInt ≤ max (m.size - base.toInt) stub.size := by
  rcases fillStub_cases base capacity m with ⟨m₁, hcrash⟩ | ⟨hlow, hstart, hroom, -⟩
  · rw [hcrash] at h
    cases h
  · exact ⟨hlow, hstart, hroom⟩

/-- A region that is reserved lies below the stack. What is filled with the routine that returns
zero is bounded by the exact sum. -/
theorem reserve_ok (hstorage : m.cells.size ≤ maxCells) {name : String} {n : Int64} {s : Span}
    (h : reserve name n m = .ok s m') : s.capacity = n ∧ Spanned s.base n m.limit := by
  have hget : (EStateM.get : Action Memory Memory) m = .ok m m := rfl
  unfold reserve at h
  by_cases hsmall : n.toInt < minRegionCells
  · rw [if_pos hsmall] at h
    cases h
  · rw [if_neg hsmall] at h
    replace h := (bind_of_ok hget).symm.trans h
    by_cases htaken : m.names.contains name
    · rw [if_pos htaken] at h
      cases h
    · rw [if_neg htaken] at h
      obtain ⟨base, m₁, halloc, h⟩ := ok_of_bind h
      obtain ⟨rfl, hn, hlimit, rfl⟩ := alloc_ok halloc
      obtain ⟨_, m₂, hfill, h⟩ := ok_of_bind h
      obtain ⟨hbase, hstart, hroom⟩ := fillStub_ok hfill
      obtain ⟨span, m₃, hregister, h⟩ := ok_of_bind h
      obtain ⟨hspan, hcapacity⟩ := register_ok hregister
      cases h
      have hfits : ¬Overflows m.next n := by
        have hmax : (maxCells : Int) = 35184372088832 := by decide
        have hstub : stub.size = 3 := rfl
        change m.next.toInt ≤ m.cells.size at hstart
        change n.toInt ≤ max ((m.cells.size : Int) - m.next.toInt) stub.size at hroom
        unfold Overflows
        omega
      refine ⟨hcapacity, ?_⟩
      show Spanned span.base n m.limit
      rw [hspan]
      exact (spanned_iff hn hlimit).mpr ⟨hbase, hfits⟩

/-- A range that is leased lies in memory that is handed out, as far as the sum tells. -/
theorem leaseAt_ok {base : Addr} {n : Int64} {id : Nat} (h : leaseAt base n m = .ok id m') :
    0 < n.toInt ∧ 0 ≤ base.toInt ∧ (base + n).toInt ≤ m.next.toInt := by
  rw [leaseAt_eq] at h
  by_cases hrange : n ≤ 0 ∨ base < 0 ∨ m.next < base + n
  · rw [if_pos hrange] at h
    cases h
  · rw [not_or, not_or, Int64.not_le, Int64.not_lt, Int64.not_lt, Int64.lt_iff_toInt_lt,
      toInt_nonneg_iff, Int64.le_iff_toInt_le] at hrange
    exact hrange

/-- **When grants are right**, in every memory that can come about. -/
theorem Reachable.exactGrants (h : m.Reachable) : m.ExactGrants where
  alloc n a m' halloc := by
    obtain ⟨rfl, hn, hlimit, -⟩ := alloc_ok halloc
    exact spanned_iff hn hlimit
  reserve name n s m' hreserve := reserve_ok h.bounds.2.2.2 hreserve
  leaseAt base n id m' hlease := by
    obtain ⟨hn, hbase, hlimit⟩ := leaseAt_ok hlease
    rw [spanned_iff (by omega) hlimit]
    exact and_iff_right hbase

/-! ### Steps that overreach -/

/-- A size whose sum with an address wraps around is positive, and so is the address. -/
theorem pos_of_overflows {a n : Int64} (h : Overflows a n) : 0 < a.toInt ∧ 0 < n.toInt := by
  have ha := a.toInt_lt
  have hn := n.toInt_lt
  unfold Overflows at h
  omega

/-- A region whose end wraps around does not lie inside the memory. -/
theorem not_within_of_overflows (hstorage : m.cells.size ≤ maxCells) {r : RoutineEntry}
    (hr : r ∈ m.entries) (h : r.Overflows) : ¬m.Within := by
  intro hwithin
  obtain ⟨s, hs, rfl⟩ := List.mem_map.mp hr
  have hlimit := (hwithin.regions s (Array.mem_toList_iff.mp hs)).limit
  have hmax : (maxCells : Int) = 35184372088832 := by decide
  change 2 ^ 63 ≤ s.base.toInt + s.capacity.toInt at h
  omega

namespace Tidy

/-- Cells are handed out even if the sum wraps around. -/
theorem alloc_of_overflows (h : m.Tidy) {n : Int64} (hwrap : Overflows m.next n) :
    Memory.alloc n m = .ok m.next { m with next := m.next + n } := by
  rcases alloc_cases n m with ⟨failure, halloc⟩ | ⟨-, -, halloc⟩
  · have hneg := toInt_add_neg hwrap
    have hlow := h.low
    have hhigh := h.high
    have hpassed : ¬(n < 0 ∨ m.limit < m.next + n) := by
      rw [toInt_neg_iff, Int64.lt_iff_toInt_lt]
      have hn := (pos_of_overflows hwrap).2
      omega
    unfold Memory.alloc
    rw [if_neg hpassed]
  · exact halloc

/-- What begins outside all regions and wraps around is not blocked by any. -/
theorem not_blocked_of_overflows (h : m.Tidy) {base : Addr} {capacity : Int64}
    (hfind : m.find? base = none) (hwrap : Overflows base capacity) :
    ¬m.Blocked { name := "", base, capacity } := by
  rintro ⟨e, he, hblocks⟩
  obtain ⟨s, hs, rfl⟩ := List.mem_map.mp he
  rcases hblocks with ⟨hbelow, hover⟩ | ⟨-, hbefore⟩
  · -- the region would contain the base
    have hcontains : s.contains base = true := by
      unfold Span.contains
      rw [Bool.and_eq_true, decide_eq_true_iff, decide_eq_true_iff]
      exact ⟨Int64.le_of_lt hbelow, hover⟩
    rw [find?_of_contains h.ordered (Array.mem_toList_iff.mp hs) hcontains] at hfind
    cases hfind
  · have hbase : 0 ≤ s.base.toInt := (h.places s.entry he).base
    have hneg : (base + capacity).toInt < 0 := toInt_add_neg hwrap
    have hlt : s.base.toInt < (base + capacity).toInt := Int64.lt_iff_toInt_lt.mp hbefore
    omega

/-- A lease is granted on a range that begins outside all regions and wraps around. -/
theorem mem_entries_of_leaseAt (h : m.Tidy) {base : Addr} {capacity : Int64}
    (hfind : m.find? base = none) (hwrap : Overflows base capacity) :
    { name := "", base, capacity } ∈ ((Memory.leaseAt base capacity).after m).entries := by
  obtain ⟨hbase, hcapacity⟩ := pos_of_overflows hwrap
  have hneg := toInt_add_neg hwrap
  have hlow := h.low
  have hrange : ¬(capacity ≤ 0 ∨ base < 0 ∨ m.next < base + capacity) := by
    rw [Int64.le_iff_toInt_le, toInt_neg_iff, Int64.lt_iff_toInt_lt]
    have hzero : (0 : Int64).toInt = 0 := rfl
    omega
  let r : RoutineEntry := { name := "", base, capacity }
  have hclear : ¬m.Blocked r := h.not_blocked_of_overflows hfind hwrap
  obtain ⟨s, m', hreg, hins⟩ := exists_inserted_of_clear h.ordered (r := r) m.fresh_empty hclear
  have hlease : Memory.leaseAt base capacity m = openLease s m' := by
    rw [leaseAt_eq, if_neg hrange, hfind]
    exact bind_of_ok hreg
  rw [after_congr hlease, (openLease_sameOutline s m').entries]
  exact hins.entries.mem_iff.mpr List.mem_cons_self

/-- A region is reserved up to an address that has wrapped around, and cannot be filled. -/
theorem next_neg_of_reserve (h : m.Tidy) {name : String} {n : Int64}
    (hfree : m.names.lookup name = none) (hwrap : Overflows m.next n) :
    ((Memory.reserve name n).after m).next.toInt < 0 := by
  have hget : (EStateM.get : Action Memory Memory) m = .ok m m := rfl
  have hmax : (maxCells : Int) = 35184372088832 := by decide
  have hlow := h.low
  have hhigh := h.high
  have hstack := h.stack
  have hstorage := h.storage
  have hlarge : ¬n.toInt < minRegionCells := by
    unfold Overflows at hwrap
    unfold minRegionCells
    omega
  have htaken : ¬m.names.contains name := Option.not_isSome_iff_eq_none.mpr hfree
  unfold Memory.reserve
  rw [if_neg hlarge, after_congr (bind_of_ok hget), if_neg htaken,
    after_congr (bind_of_ok (h.alloc_of_overflows hwrap))]
  have hfilled := fillStub_sameOutline m.next n { m with next := m.next + n }
  rcases fillStub_cases m.next n { m with next := m.next + n } with
    ⟨m', hcrash⟩ | ⟨-, -, hroom, -⟩
  · rw [after_of_error hcrash] at hfilled
    rw [after_of_error (bind_of_error hcrash), hfilled.next]
    exact toInt_add_neg hwrap
  · have hstub : stub.size = 3 := rfl
    change n.toInt ≤ max ((m.cells.size : Int) - m.next.toInt) stub.size at hroom
    unfold Overflows at hwrap
    omega

end Tidy

/-- **A step that overreaches ends outside the memory.** -/
theorem not_within_of_overreaches (h : m.Tidy) (hm : m.Reachable) {step : MemoryStep}
    (hover : step.Overreaches m) : ¬(step.after m).Within := by
  have hstorage : (step.after m).cells.size ≤ maxCells := (hm.step step).bounds.2.2.2
  cases step with
  | lease | run => cases hover
  | call c =>
    cases c with
    | store | defineGlobal | setGlobal | leaseNamed => cases hover
    | alloc n =>
      intro hwithin
      have hlow : 0 ≤ ((alloc n).after m).next.toInt := hwithin.low
      rw [after_of_ok (h.alloc_of_overflows hover)] at hlow
      exact absurd (toInt_add_neg hover) (Int.not_lt.mpr hlow)
    | reserve name n =>
      intro hwithin
      have hlow : 0 ≤ ((reserve name n).after m).next.toInt := hwithin.low
      have hfree := hm.indexed.spanNamed?_eq_none_iff.mp hover.1
      exact absurd (h.next_neg_of_reserve hfree hover.2) (Int.not_lt.mpr hlow)
    | leaseAt base n =>
      exact not_within_of_overflows hstorage (h.mem_entries_of_leaseAt hover.1 hover.2) hover.2
    | loadImage order img =>
      obtain ⟨hadmits, before, r, after, hsplit, hclear, hwrap⟩ := hover
      have hready := hadmits.ready h.ordered
      rw [← clashing_receive_iff m img] at hclear
      rw [hsplit] at hready
      have hmem := mem_entries_of_not_clashing hready hclear
      rw [← hsplit, ← after_congr (loadImage_of_admits hadmits)] at hmem
      exact not_within_of_overflows hstorage hmem hwrap

/-- An image that storage has room for and that is let in has an end. -/
theorem ends_of_storable (hm : m.Reachable) {step : MemoryStep} (h : step.Storable) :
    step.Ends m := by
  cases step with
  | lease | run => trivial
  | call c =>
    cases c with
    | loadImage order img =>
      intro hadmits hwrap
      obtain ⟨-, -, -, hstorage⟩ := hm.bounds
      have hstart := hadmits.start
      have hmax : (maxCells : Int) = 35184372088832 := by decide
      change img.cells.size ≤ maxCells at h
      unfold Image.Overflows at hwrap
      unfold Memory.size at hstart
      omega
    | alloc | reserve | leaseAt | store | defineGlobal | setGlobal | leaseNamed => trivial

/-- From a tidy memory on, all stays inside exactly as long as no step overreaches. -/
theorem Tidy.always_within_iff {steps : List MemoryStep} :
    ∀ {m : Memory}, m.Tidy → m.Reachable → (∀ step ∈ steps, step.Storable) →
      (Always Within m steps ↔ EachStep (fun m step => ¬step.Overreaches m) m steps) := by
  induction steps with
  | nil =>
    intro m h hm _
    exact iff_of_true (h.within hm) trivial
  | cons step rest ih =>
    intro m h hm hsteps
    have hend := ends_of_storable hm (hsteps step List.mem_cons_self)
    have hrest : ∀ later ∈ rest, later.Storable := fun later hl =>
      hsteps later (List.mem_cons_of_mem step hl)
    constructor
    · rintro ⟨-, halways⟩
      have hno : ¬step.Overreaches m := fun hover =>
        not_within_of_overreaches h hm hover halways.head
      exact ⟨hno, (ih (h.step hend hno) (hm.step step) hrest).mp halways⟩
    · rintro ⟨hno, heach⟩
      exact ⟨h.within hm, (ih (h.step hend hno) (hm.step step) hrest).mpr heach⟩

/-- **What is handed out stays inside the memory exactly as long as no step overreaches**, whatever
happens to the memory and whether it succeeds or fails. Along the way a request is granted rightly,
unless a sum wraps around. -/
theorem within_always_iff {size stack : Int} (hnew : Memory.new size stack = .ok m)
    {steps : List MemoryStep} (hsteps : ∀ step ∈ steps, step.Storable) :
    Always ExactGrants m steps ∧
      (Always Within m steps ↔ EachStep (fun m step => ¬step.Overreaches m) m steps) := by
  have hm : m.Reachable := .new hnew
  exact ⟨.of_reachable Reachable.exactGrants hm, (Tidy.of_new hnew).always_within_iff hm hsteps⟩

/-- Two requests, the second of which is granted although no memory has so many cells. -/
theorem within_always_iff_sample :
    ¬Always Within sampleMemory [.call (.alloc 1), .call (.alloc Int64.maxValue)] := by
  have hnew : Memory.new 16 8 = .ok sampleMemory := rfl
  rw [(within_always_iff hnew ?storable).2]
  · rintro ⟨-, hno, -⟩
    apply hno
    show Overflows _ _
    decide
  · simp [MemoryStep.Storable]

end Memory

end CellMachine
