import CellMachine.Proofs.Memory.Installation
import CellMachine.Proofs.Patch.Registry

/-!
# What a patch does to a memory

A patch that succeeds puts the cells of its body in their place and notes the length of its region,
which may be a new one. Nothing else is changed. This module says what the memory is afterwards, as
one equation for the cells and one for the table of regions.

* `Memory.Settled` — regions are ranges of cells, one after the other, and none is leased.
* `Memory.place` — a table of regions with one more among them.
* `Memory.Opens` — a target opens a region, which the memory has or is to have;
  `Memory.lease_of_opens`, `Memory.opens_of_lease` — that is when its lease is opened.
* `Patch.Rewrites` — **what a patch that succeeds does to the memory** (`Patch.rewrites_of_apply`).
-/

namespace CellMachine

open CellMachine.Action

/-- The range of a target is one of cells of the memory. A name stands for no range of its own. -/
def PatchTarget.Exact (m : Memory) : PatchTarget → Prop
  | .region _ => True
  | .range base capacity => m.Encloses (m.newSpan { name := "", base, capacity })

/-- A place that nothing is in the way of, which is not empty, is not the base of another one. -/
theorem RoutineEntry.base_ne_of_not_blocks {e r : RoutineEntry} (h : ¬e.Blocks r)
    (hpos : r.base < r.limit) : e.base ≠ r.base := by
  intro heq
  refine h (.inr ⟨heq ▸ Int64.le_refl _, ?_⟩)
  rwa [heq]

/-- Whether a region begins below an address. -/
def Span.under (a : Addr) (s : Span) : Bool := s.base < a

namespace Memory

/-- Regions are ranges of cells, one after the other, and none is leased. -/
structure Settled (m : Memory) : Prop where
  ordered : m.Ordered
  tables : m.Sound
  indexed : m.Indexed
  storage : m.cells.size ≤ maxCells
  unleased : ∀ s ∈ m.spans, s.lease? = none
  exact : ∀ s ∈ m.spans, m.Encloses s

/-- The memory of an estate is settled, if its regions are ranges of cells and not leased. -/
theorem settled_of_reachable {w : Estate} (hw : w.Reachable)
    (hfree : ∀ s ∈ w.memory.spans, s.lease? = none)
    (hexact : ∀ s ∈ w.memory.spans, w.memory.Encloses s) : w.memory.Settled := by
  obtain ⟨size, stack, m₀, hnew, hpath⟩ := hw.path
  exact ⟨hw.sound.ordered, hw.sound.tables, hw.tables.1, (hpath.bounds hnew).2.2.2, hfree, hexact⟩

/-! ### Tables with one more region -/

/-- A table of regions with one more, between those that begin below it and the others. -/
def place (s : Span) (spans : List Span) : List Span :=
  spans.filter (Span.under s.base) ++ s :: spans.filter fun t => !t.under s.base

/-- A region takes the place that a split of the table shows. -/
theorem place_eq_of_split {s : Span} {low high : List Span} (hlow : ∀ t ∈ low, t.base < s.base)
    (hhigh : ∀ t ∈ high, s.base ≤ t.base) : place s (low ++ high) = low ++ s :: high := by
  have hunder : ∀ t ∈ low, t.under s.base = true := fun t ht => decide_eq_true (hlow t ht)
  have hupon : ∀ t ∈ high, t.under s.base = false := fun t ht =>
    decide_eq_false (Int64.not_lt.mpr (hhigh t ht))
  have hbelow : (low ++ high).filter (Span.under s.base) = low := by
    rw [List.filter_append, List.filter_eq_self.mpr hunder,
      List.filter_eq_nil_iff.mpr (by simpa using hupon), List.append_nil]
  have habove : (low ++ high).filter (fun t => !t.under s.base) = high := by
    rw [List.filter_append, List.filter_eq_nil_iff.mpr (by simpa using hunder),
      List.filter_eq_self.mpr (by simpa using hupon), List.nil_append]
  unfold place
  rw [hbelow, habove]

/-- The regions of a table with one more. -/
theorem mem_place {s t : Span} {spans : List Span} :
    t ∈ place s spans ↔ t = s ∨ t ∈ spans := by
  unfold place
  rw [List.mem_append, List.mem_cons, List.mem_filter, List.mem_filter, Bool.not_eq_true']
  cases t.under s.base <;> simp [or_comm]

/-- What moves no region can be done before a region is placed or after it. -/
theorem map_place {f : Span → Span} (hf : ∀ t, (f t).base = t.base) (s : Span)
    (spans : List Span) : (place s spans).map f = place (f s) (spans.map f) := by
  unfold place
  rw [List.map_append, List.map_cons, List.filter_map, List.filter_map]
  have hunder : Span.under (f s).base ∘ f = Span.under s.base := by
    funext t
    show decide ((f t).base < (f s).base) = decide (t.base < s.base)
    rw [hf, hf]
  simp only [← hunder, Function.comp_def]

/-- Two regions with different bases can be placed in any order. -/
theorem place_comm {s t : Span} (hne : s.base ≠ t.base) (spans : List Span) :
    place t (place s spans) = place s (place t spans) := by
  wlog hlt : s.base < t.base generalizing s t
  · have hle : t.base ≤ s.base := Int64.not_lt.mp hlt
    exact (this hne.symm (Int64.lt_of_le_of_ne hle hne.symm)).symm
  have hs : s.under t.base = true := decide_eq_true hlt
  have ht : t.under s.base = false := decide_eq_false (Int64.not_lt.mpr (Int64.le_of_lt hlt))
  have hmono (u : Span) : u.under s.base = true → u.under t.base = true := by
    simp only [Span.under, decide_eq_true_iff]
    exact fun h => Int64.lt_trans h hlt
  have hlow : (spans.filter (Span.under s.base)).filter (Span.under t.base) =
      spans.filter (Span.under s.base) :=
    List.filter_eq_self.mpr fun u hu => hmono u (List.mem_filter.mp hu).2
  have hnone : (spans.filter (Span.under s.base)).filter (fun u => !u.under t.base) = [] :=
    List.filter_eq_nil_iff.mpr fun u hu => by simp [hmono u (List.mem_filter.mp hu).2]
  have hhigh : (spans.filter fun u => !u.under t.base).filter (fun u => !u.under s.base) =
      spans.filter fun u => !u.under t.base :=
    List.filter_eq_self.mpr fun u hu => by
      have hu := (List.mem_filter.mp hu).2
      grind
  -- on both sides: those below `s`, then `s`, those between, then `t`, and those above
  have hone : place t (place s spans) = spans.filter (Span.under s.base) ++
      (s :: ((spans.filter fun u => !u.under s.base).filter (Span.under t.base) ++
        t :: spans.filter fun u => !u.under t.base)) := by
    unfold place
    rw [List.filter_append, List.filter_append, List.filter_cons_of_pos hs,
      List.filter_cons_of_neg (by simp [hs]), hlow, hnone, List.nil_append,
      (List.filter_comm ..).trans hhigh, List.append_assoc, List.cons_append]
  have htwo : place s (place t spans) = spans.filter (Span.under s.base) ++
      (s :: ((spans.filter fun u => !u.under s.base).filter (Span.under t.base) ++
        t :: spans.filter fun u => !u.under t.base)) := by
    unfold place
    rw [List.filter_append, List.filter_append, List.filter_cons_of_neg (by simp [ht]),
      List.filter_cons_of_pos (by simp [ht]), (List.filter_comm ..).trans hlow,
      (List.filter_comm ..).trans hnone, List.append_nil, hhigh,
      List.filter_comm (Span.under t.base)]
  rw [hone, htwo]

/-! ### Opening the region of a target -/

/-- A memory in which a region stands. If it is a new one it takes its place among the others. -/
def having (m : Memory) (s : Span) : Memory :=
  if s ∈ m.spans then m else { m with spans := (place s m.spans.toList).toArray }

/-- The request for a range of cells is not refused at once: the range is not empty and all of it is
handed out. -/
def HandsOut (m : Memory) (base : Addr) (capacity : Int64) : Prop :=
  ¬(capacity ≤ 0 ∨ base < 0 ∨ m.next < base + capacity)

/-- A range that can be asked for is not empty. -/
theorem HandsOut.pos {m : Memory} {base : Addr} {capacity : Int64} (h : m.HandsOut base capacity) :
    0 < capacity.toInt := by
  have hnot : ¬capacity ≤ 0 := fun hle => h (.inl hle)
  rwa [Int64.le_iff_toInt_le, Int.not_le] at hnot

/-- A target opens a region that nothing executes: one that the memory has, or a new one that
nothing is in the way of. -/
inductive Opens (m : Memory) : PatchTarget → Span → Prop
  | region {name : String} {s : Span} :
    m.spanNamed? name = some s → s.running = 0 → Opens m (.region name) s
  | range {s : Span} :
    s ∈ m.spans → m.HandsOut s.base s.capacity → s.running = 0 →
    Opens m (.range s.base s.capacity) s
  | fresh {base : Addr} {capacity : Int64} :
    m.HandsOut base capacity → ¬m.Blocked { name := "", base, capacity } →
    Opens m (.range base capacity) (m.newSpan { name := "", base, capacity })

variable {m m' : Memory} {target : PatchTarget} {s t : Span} {id : Nat} {f : Span → Span}

/-- A region of the memory need not be put there. -/
theorem having_of_mem (hs : s ∈ m.spans) : m.having s = m := if_pos hs

/-- A new region is not there yet. -/
theorem newSpan_not_mem (hm : m.Sound) (r : RoutineEntry) : m.newSpan r ∉ m.spans :=
  fun hmem => Nat.lt_irrefl _ (hm.below _ hmem)

/-- A new region is put in its place. -/
theorem having_newSpan (hm : m.Sound) (r : RoutineEntry) :
    m.having (m.newSpan r) = { m with spans := (place (m.newSpan r) m.spans.toList).toArray } :=
  if_neg (newSpan_not_mem hm r)

/-- The regions of a memory in which a region stands. -/
theorem mem_having : t ∈ (m.having s).spans ↔ t = s ∨ t ∈ m.spans := by
  unfold having
  by_cases hs : s ∈ m.spans
  · rw [if_pos hs]
    refine ⟨.inr, ?_⟩
    rintro (rfl | ht)
    · exact hs
    · exact ht
  · rw [if_neg hs]
    exact List.mem_toArray.trans (mem_place.trans (by rw [Array.mem_toList_iff]))

/-- Nothing is handed out. -/
theorem having_sameHoldings (m : Memory) (s : Span) : m.SameHoldings (m.having s) := by
  unfold having
  by_cases hs : s ∈ m.spans
  · rw [if_pos hs]
    exact .refl m
  · rw [if_neg hs]
    exact ⟨rfl, rfl, rfl, rfl, rfl⟩

/-- The cells are not touched. -/
theorem having_cells (m : Memory) (s : Span) : (m.having s).cells = m.cells := by
  unfold having
  split <;> rfl

/-- Nor are the leases. -/
theorem having_leases (m : Memory) (s : Span) : (m.having s).leases = m.leases := by
  unfold having
  split <;> rfl

/-- Nor is the index. -/
theorem having_names (m : Memory) (s : Span) : (m.having s).names = m.names := by
  unfold having
  split <;> rfl

/-- A change of regions that keeps their numbers and the index changes those that are found. -/
theorem spanNamed?_map (hspans : m'.spans = m.spans.map f) (hnames : m'.names = m.names)
    (hf : ∀ t, (f t).id = t.id) (name : String) :
    m'.spanNamed? name = (m.spanNamed? name).map f := by
  unfold spanNamed?
  rw [hnames, Option.map_bind]
  refine congrArg (Option.bind _) (funext fun id => ?_)
  rw [Function.comp_apply]
  unfold span?
  rw [hspans, Array.find?_map]
  simp only [Function.comp_def, hf]

namespace Settled

/-- A range of cells that is not empty reaches over its base. -/
theorem lt_limit (hm : m.Settled) (henc : m.Encloses s) (hpos : 0 < s.capacity.toInt) :
    s.entry.base < s.entry.limit := by
  show s.base < s.limit
  rw [Int64.lt_iff_toInt_lt, henc.toInt_limit hm.storage]
  omega

/-- **A new region without a name that nothing is in the way of takes its place.** -/
theorem exists_register (hm : m.Settled) {r : RoutineEntry} (hname : r.name = "")
    (henc : m.Encloses (m.newSpan r)) (hpos : 0 < r.capacity.toInt) (hclear : ¬m.Blocked r) :
    ∃ low high, m.spans.toList = low ++ high ∧
      m.having (m.newSpan r) = m.registered r low high ∧
      (m.having (m.newSpan r)).Ordered ∧
      register r.name r.base r.capacity m = .ok (m.newSpan r) (m.having (m.newSpan r)) := by
  obtain ⟨low, high, hs, hlow, hhigh, hreg⟩ :=
    register_of_clear hm.ordered (hname ▸ m.fresh_empty) hclear
  have hstrict : ∀ t ∈ low, t.base < r.base := by
    intro t ht
    have hentry : t.entry ∈ m.entries := by
      unfold entries
      rw [hs]
      exact List.mem_map_of_mem (List.mem_append_left _ ht)
    refine Int64.lt_of_le_of_ne (hlow t ht).base ?_
    have hfree : ¬t.entry.Blocks r := fun hblocks => hclear ⟨_, hentry, hblocks⟩
    exact RoutineEntry.base_ne_of_not_blocks hfree (hm.lt_limit (s := m.newSpan r) henc hpos)
  have hplace : place (m.newSpan r) m.spans.toList = low ++ m.newSpan r :: high := by
    rw [hs]
    exact place_eq_of_split hstrict fun t ht => (hhigh t ht).base
  have hunnamed : m.namesWith (m.newSpan r) = m.names := if_pos hname
  have hregistered : m.registered r low high = m.having (m.newSpan r) := by
    rw [having_newSpan hm.tables, hplace]
    unfold registered
    rw [hunnamed]
  refine ⟨low, high, hs, hregistered.symm, ?_, hregistered ▸ hreg⟩
  exact hregistered ▸ ordered_of_split hm.ordered hs hlow hhigh

end Settled

namespace Opens

/-- The region that a target opens is a range of cells. -/
theorem encloses (h : m.Opens target s) (hm : m.Settled) (htarget : target.Exact m) :
    m.Encloses s := by
  cases h with
  | region hname => exact hm.exact s (mem_of_spanNamed? hname)
  | range hs => exact hm.exact s hs
  | fresh => exact htarget

/-- It is not leased. -/
theorem unleased (h : m.Opens target s) (hm : m.Settled) : s.lease? = none := by
  cases h with
  | region hname => exact hm.unleased s (mem_of_spanNamed? hname)
  | range hs => exact hm.unleased s hs
  | fresh => rfl

/-- It is not executed. -/
theorem idle (h : m.Opens target s) : s.running = 0 := by
  cases h with
  | region _ hidle => exact hidle
  | range _ _ hidle => exact hidle
  | fresh => rfl

/-- With the region among the others the memory is in order, and its tables agree. -/
theorem having_tables (h : m.Opens target s) (hm : m.Settled) (htarget : target.Exact m) :
    (m.having s).Ordered ∧ (m.having s).Sound ∧ (m.having s).Indexed := by
  cases h with
  | region hname =>
    rw [having_of_mem (mem_of_spanNamed? hname)]
    exact ⟨hm.ordered, hm.tables, hm.indexed⟩
  | range hs =>
    rw [having_of_mem hs]
    exact ⟨hm.ordered, hm.tables, hm.indexed⟩
  | @fresh base capacity hrange hclear =>
    obtain ⟨low, high, hs, hhaving, hordered, -⟩ :=
      hm.exists_register (r := { name := "", base, capacity }) rfl htarget hrange.pos hclear
    refine ⟨hordered, ?_⟩
    rw [hhaving]
    exact ⟨hm.tables.register hs, hm.indexed.registered hs m.fresh_empty⟩

/-- A new region has no name, so every name is found where it was. -/
theorem spanNamed?_having (h : m.Opens target s) (hm : m.Settled) (htarget : target.Exact m)
    (name : String) : (m.having s).spanNamed? name = m.spanNamed? name := by
  obtain ⟨-, hsound, hindexed⟩ := h.having_tables hm htarget
  refine Option.ext fun t => ?_
  rw [hindexed.spanNamed?_eq_some_iff hsound, hm.indexed.spanNamed?_eq_some_iff hm.tables,
    mem_having]
  refine and_congr_right fun hname => and_congr_left ?_
  rintro rfl
  refine or_iff_right_of_imp ?_
  rintro rfl
  cases h with
  | region hfound => exact mem_of_spanNamed? hfound
  | range hs => exact hs
  | fresh => exact absurd rfl hname

/-- The memory is ready for the lease. -/
theorem prepared (h : m.Opens target s) (hm : m.Settled) (htarget : target.Exact m) :
    m.Prepared s (m.having s) :=
  ⟨(h.having_tables hm htarget).2.1, having_cells m s, fun _ => mem_having⟩

end Opens

/-- A region that is neither leased nor executed is leased. -/
theorem openLease_of_idle (hfree : s.lease? = none) (hidle : s.running = 0) :
    openLease s m = .ok m.leases.size (m.granted s) := by
  rw [openLease_eq, hfree, if_neg (by decide), if_neg (by omega)]

/-- **The lease of a target is opened on the region** that the target opens. -/
theorem lease_of_opens (hm : m.Settled) (htarget : target.Exact m) (h : m.Opens target s) :
    Patch.lease target m = .ok m.leases.size ((m.having s).granted s) := by
  have hget : (EStateM.get : Action Memory Memory) m = .ok m m := rfl
  have henc := h.encloses hm htarget
  have hlease := openLease_of_idle (m := m.having s) (h.unleased hm) h.idle
  rw [having_leases m s] at hlease
  cases h with
  | region hname =>
    rw [having_of_mem (mem_of_spanNamed? hname)] at hlease ⊢
    refine (bind_of_ok hget).trans ?_
    rw [hname]
    exact hlease
  | range hs hrange =>
    have hpos := hrange.pos
    have hcontains : s.contains s.base = true := by
      rw [henc.contains_iff hm.storage]
      omega
    rw [having_of_mem hs] at hlease ⊢
    refine (leaseAt_eq _ _ m).trans ?_
    rw [if_neg hrange, find?_of_contains hm.ordered hs hcontains]
    simp only [ne_eq, not_true_eq_false, or_self, if_false]
    exact hlease
  | @fresh base capacity hrange hclear =>
    have hnone : m.find? base = none := by
      rw [Option.eq_none_iff_forall_ne_some]
      intro t hfind
      have hcontains := contains_of_find? hfind
      have hentry : t.entry ∈ m.entries := mem_entries_of_mem (mem_of_find? hfind)
      unfold Span.contains at hcontains
      rw [Bool.and_eq_true, decide_eq_true_iff, decide_eq_true_iff] at hcontains
      have hfree : ¬t.entry.Blocks { name := "", base, capacity } :=
        fun hblocks => hclear ⟨_, hentry, hblocks⟩
      have hlt := hm.lt_limit (s := m.newSpan { name := "", base, capacity }) htarget hrange.pos
      have hne := RoutineEntry.base_ne_of_not_blocks hfree hlt
      exact hfree (.inl ⟨Int64.lt_of_le_of_ne hcontains.1 hne, hcontains.2⟩)
    obtain ⟨_, _, -, -, -, hreg⟩ :=
      hm.exists_register (r := { name := "", base, capacity }) rfl htarget hrange.pos hclear
    refine (leaseAt_eq _ _ m).trans ?_
    rw [if_neg hrange, hnone]
    exact (bind_of_ok hreg).trans hlease

/-- A lease that is opened on a region is opened on one that is not executed. -/
theorem idle_of_openLease (h : openLease s m = .ok id m') : s.running = 0 := by
  rw [openLease_eq] at h
  split at h
  · cases h
  · split at h
    · cases h
    · omega

/-- **If the lease of a target is opened then the target opens a region.** -/
theorem opens_of_lease (hm : m.Settled) (h : Patch.lease target m = .ok id m') :
    ∃ s, m.Opens target s := by
  have hget : (EStateM.get : Action Memory Memory) m = .ok m m := rfl
  cases target with
  | region name =>
    change leaseNamed name m = .ok id m' at h
    unfold leaseNamed at h
    rw [bind_of_ok hget] at h
    cases hname : m.spanNamed? name with
    | none =>
      rw [hname] at h
      cases h
    | some s =>
      rw [hname] at h
      exact ⟨s, .region hname (idle_of_openLease h)⟩
  | range base capacity =>
    change leaseAt base capacity m = .ok id m' at h
    rw [leaseAt_eq] at h
    by_cases hrange : m.HandsOut base capacity
    · rw [if_neg hrange] at h
      cases hfind : m.find? base with
      | some s =>
        simp only [hfind] at h
        split at h
        · cases h
        · next hsame =>
          rw [not_or, ne_eq, not_not, ne_eq, not_not] at hsame
          obtain ⟨rfl, rfl⟩ := hsame
          exact ⟨s, .range (mem_of_find? hfind) hrange (idle_of_openLease h)⟩
      | none =>
        by_cases hblocked : m.Blocked { name := "", base, capacity }
        · obtain ⟨other, hfail⟩ := register_of_blocked hm.ordered m.fresh_empty hblocked
          simp only [hfind] at h
          rw [bind_of_error hfail] at h
          cases h
        · exact ⟨_, .fresh hrange hblocked⟩
    · rw [if_pos (not_not.mp hrange)] at h
      cases h

end Memory

/-! ### The effect of a patch -/

namespace Patch

open CellMachine.Memory

variable {m m' : Memory} {p : Patch} {s t : Span} {cells : List Cell} {routine : Routine}

/-- A patch has opened a region of a settled memory and has done its work: some cells, which the
body and the globals tell, stand at the base of the region, and the region is as long as they are.
Nothing else is changed. -/
structure Rewrites (p : Patch) (m : Memory) (s : Span) (written : List Cell) (m' : Memory) :
    Prop where
  settled : m.Settled
  exact : p.target.Exact m
  opens : m.Opens p.target s
  assembled : ∃ calls, callsOf (some (globalSymbol m.addresses)) p.body = .ok calls ∧
    assembleCalls? .dynamic 0 calls = some written
  room : (written.length : Int) ≤ s.capacity.toInt
  holdings : m.SameHoldings m'
  names : m'.names = m.names
  cells : m'.cells = overlaid m.cells s.base written.toArray
  spans : m'.spans = (m.having s).spans.map fun t =>
    if t.id = s.id then Leasehold.sealedSpan written.length t else t
  tables : m'.Sound

/-- A patch that succeeds has opened a region. -/
theorem opens_of_apply (hm : m.Settled) (h : p.apply m = .ok routine m') :
    ∃ s, m.Opens p.target s := by
  cases hlease : lease p.target m with
  | error failure m₁ =>
    rw [apply_of_refused hlease] at h
    cases h
  | ok id m₁ => exact opens_of_lease hm hlease

/-- A memory seen through a lease on a region, to which an emission is bound. -/
def opened (m : Memory) (s : Span) : Leasehold :=
  Leasehold.bindLease { lease := m.leases.size, memory := (m.having s).granted s }

/-- The lease of a patch is held. -/
theorem held_opened (hm : m.Settled) (htarget : p.target.Exact m) (hopens : m.Opens p.target s) :
    m.Held s { span := s.id, bound := true } (opened m s) := by
  have hheld := ((hopens.prepared hm htarget).held (hopens.unleased hm)).bindLease
  rwa [having_leases m s] at hheld

/-- A patch that opens a region emits its body there. -/
theorem apply_of_opens (hm : m.Settled) (htarget : p.target.Exact m) (hopens : m.Opens p.target s) :
    p.apply m =
      match p.write (globalSymbol m.addresses) (Emission.start .dynamic (opened m s)) with
      | .ok routine e => .ok routine e.region.memory
      | .error failure e => .error (abandon failure e).1 (abandon failure e).2.memory := by
  have hheld := (hopens.prepared hm htarget).held (hopens.unleased hm)
  rw [having_leases m s] at hheld
  have hopen : Context.openDynamic { lease := m.leases.size, memory := (m.having s).granted s } =
      .ok (Context.fresh .dynamic (opened m s)) (opened m s) := hheld.openDynamic hopens.idle rfl
  rw [apply_of_lease (lease_of_opens hm htarget hopens), overwrite_of_open hopen]
  cases p.write (globalSymbol m.addresses) (Emission.start .dynamic (opened m s)) <;> rfl

/-- The regions of a memory in which a region was leased and sealed. -/
theorem spans_sealed {h : Leasehold} {u : Span} (hid : u.id = s.id)
    (hspans : h.memory.spans = (opened m s).memory.spans) (length : Int) :
    (h.close u (Leasehold.sealedSpan length)).memory.spans =
      (m.having s).spans.map fun t =>
        if t.id = s.id then Leasehold.sealedSpan length t else t := by
  show h.memory.spans.map _ = _
  rw [hspans]
  show (Array.map _ (m.having s).spans).map _ = _
  rw [Array.map_map]
  refine Array.map_congr_left fun t _ => ?_
  rw [Function.comp_apply, hid]
  by_cases ht : t.id = s.id
  · rw [if_pos ht, if_pos ht, if_pos ht]
    rfl
  · rw [if_neg ht, if_neg ht]

/-- Writing and sealing keep the regions, and hand nothing out. -/
theorem write_sameRegistry {symbols : SymbolTable} {h : Leasehold} {e : Emission Leasehold}
    (hrun : p.write symbols (Emission.start .dynamic h) = .ok routine e) :
    h.memory.SameRegistry e.region.memory := by
  have hkeeping : (Emission.start .dynamic h).Keeping (Region.capacity h)
      fun r : Leasehold => h.memory.SameRegistry r.memory :=
    ⟨.refl _, rfl, fun _ _ hsite => nomatch hsite⟩
  have hpreserves := write_preserves (fun c _ he => EmissionCall.preserves
    (upheld_sameRegistry (m := h.memory) (Region.capacity h)) c he) p symbols
  exact (hpreserves.ok hkeeping hrun).region

/-- Cells are laid over others if they stand in their place and all others are as before. -/
theorem cells_eq_overlaid (henc : m.Encloses s) {written : List Cell}
    (hroom : (written.length : Int) ≤ s.capacity.toInt)
    (hwritten : ∀ (i : Nat) v, written[i]? = some v → m'.cells[s.base.toInt.toNat + i]? = some v)
    (hrest : ∀ i : Nat, written.length ≤ i → (i : Int) < s.capacity.toInt →
      m'.cells[s.base.toInt.toNat + i]? = m.cells[s.base.toInt.toNat + i]?)
    (hframe : Frame m s m') : m'.cells = overlaid m.cells s.base written.toArray := by
  have hbase := henc.base
  have hlimit := henc.limit
  refine Array.ext_getElem? fun i => ?_
  rw [getElem?_overlaid hbase (by rw [List.size_toArray]; omega), List.size_toArray]
  by_cases hin : s.base.toInt ≤ i ∧ (i : Int) < s.base.toInt + written.length
  · obtain ⟨k, rfl⟩ : ∃ k, i = s.base.toInt.toNat + k := ⟨i - s.base.toInt.toNat, by omega⟩
    have hk : k < written.length := by omega
    have hcell : written.toArray[k]? = some written[k] := by
      rw [List.getElem?_toArray, List.getElem?_eq_getElem hk]
    rw [if_pos hin, Nat.add_sub_cancel_left, hcell]
    exact hwritten k _ (List.getElem?_eq_getElem hk)
  · rw [if_neg hin]
    by_cases hinside : s.base.toInt ≤ i ∧ (i : Int) < s.base.toInt + s.capacity.toInt
    · obtain ⟨k, rfl⟩ : ∃ k, i = s.base.toInt.toNat + k := ⟨i - s.base.toInt.toNat, by omega⟩
      exact hrest k (by omega) (by omega)
    · exact hframe.cells i hinside

/-- **What a patch that succeeds does to the memory.** -/
theorem rewrites_of_apply (hm : m.Settled) (htarget : p.target.Exact m)
    (hopens : m.Opens p.target s) (h : p.apply m = .ok routine m') :
    ∃ written, p.Rewrites m s written m' := by
  have hheld := held_opened hm htarget hopens
  have henc := hopens.encloses hm htarget
  have hfree := hopens.unleased hm
  have hcells : (opened m s).memory.cells = m.cells := having_cells m s
  rw [apply_of_opens hm htarget hopens] at h
  cases hrun : p.write (globalSymbol m.addresses) (Emission.start .dynamic (opened m s)) with
  | error failure e =>
    rw [hrun] at h
    cases h
  | ok done e' =>
    rw [hrun] at h
    cases h
    obtain ⟨_, e, -, hprogress, hfin⟩ := write_ok hheld henc hm.storage hrun
    obtain ⟨log, items, htracks, -⟩ := hprogress.tracks
    obtain ⟨l, hbusy⟩ := hheld.progress hprogress
    obtain ⟨-, hseal, -, hroutine⟩ := Emission.finalize_ok hfin
    have hlength : (e.context.cursor : Int) = routine.length := by rw [hroutine]
    rw [hbusy.sealUp, hlength] at hseal
    have hregion := (EStateM.Result.ok.inj hseal).2
    have hspans : e.region.memory.spans = (opened m s).memory.spans :=
      congrArg Prod.fst htracks.kept.surroundings
    have houtcome := outcome_of_ok hheld henc hm.storage hfree hcells hrun
    cases houtcome with
    | @patched _ _ calls written hcalls hassembled hsize hroom hwritten hrest hspan hframe =>
      have hholdings : m.SameHoldings (opened m s).memory :=
        (having_sameHoldings m s).trans ⟨rfl, rfl, rfl, rfl, rfl⟩
      have hkept := write_sameRegistry hrun
      refine ⟨written, hm, htarget, hopens, ⟨calls, hcalls, hassembled⟩, hroom, ?_, ?_, ?_, ?_, ?_⟩
      · exact hholdings.trans hkept.toSameHoldings
      · exact hkept.names.trans (having_names m s)
      · exact cells_eq_overlaid henc hroom hwritten hrest hframe
      · rw [← hregion, hsize]
        exact spans_sealed rfl hspans _
      · rw [← hregion]
        exact hbusy.tables.close hbusy.parts hbusy.unclosed (fun _ => rfl) fun _ => rfl

namespace Rewrites

variable {written : List Cell}

/-- The regions after a patch. -/
theorem mem_iff (h : p.Rewrites m s written m') :
    t ∈ m'.spans ↔ ∃ u, (u = s ∨ u ∈ m.spans) ∧
      (if u.id = s.id then Leasehold.sealedSpan written.length u else u) = t := by
  rw [h.spans, Array.mem_map]
  simp only [mem_having]

/-- The region is sealed. -/
theorem mem_self (h : p.Rewrites m s written m') :
    Leasehold.sealedSpan written.length s ∈ m'.spans :=
  h.mem_iff.mpr ⟨s, .inl rfl, if_pos rfl⟩

/-- Every other region is as it was. -/
theorem mem_of_ne (h : p.Rewrites m s written m') (ht : t ∈ m.spans) (hid : t.id ≠ s.id) :
    t ∈ m'.spans :=
  h.mem_iff.mpr ⟨t, .inr ht, if_neg hid⟩

/-- There are no other regions than these. -/
theorem eq_or_mem (h : p.Rewrites m s written m') (ht : t ∈ m'.spans) :
    t = Leasehold.sealedSpan written.length s ∨ t ∈ m.spans ∧ t.id ≠ s.id := by
  obtain ⟨u, hu, rfl⟩ := h.mem_iff.mp ht
  by_cases hid : u.id = s.id
  · rw [if_pos hid] at ht ⊢
    exact .inl (h.tables.eq_of_id ht h.mem_self hid)
  · rw [if_neg hid]
    refine .inr ⟨hu.resolve_left ?_, hid⟩
    rintro rfl
    exact hid rfl

/-- The places of the regions. -/
theorem entries (h : p.Rewrites m s written m') : m'.entries = (m.having s).entries := by
  unfold Memory.entries
  rw [h.spans, Array.toList_map, List.map_map]
  refine List.map_congr_left fun t _ => ?_
  rw [Function.comp_apply]
  split <;> rfl

/-- The region is a range of cells. -/
theorem encloses (h : p.Rewrites m s written m') : m.Encloses s :=
  h.opens.encloses h.settled h.exact

/-- The memory is settled afterwards. -/
theorem settled_after (h : p.Rewrites m s written m') : m'.Settled where
  ordered := by
    unfold Ordered
    rw [h.entries]
    exact (h.opens.having_tables h.settled h.exact).1
  tables := h.tables
  indexed := by
    refine (h.opens.having_tables h.settled h.exact).2.2.of_tags
      (h.names.trans (having_names m s).symm) ?_
    unfold tags
    rw [h.spans, Array.toList_map, List.map_map]
    refine List.map_congr_left fun t _ => ?_
    rw [Function.comp_apply]
    split <;> rfl
  storage := h.holdings.size ▸ h.settled.storage
  unleased t ht := by
    rcases h.eq_or_mem ht with rfl | ⟨ht, -⟩
    · rfl
    · exact h.settled.unleased t ht
  exact t ht := by
    have hsize : ∀ {u : Span}, m.Encloses u → m'.Encloses u := fun henc =>
      ⟨henc.base, henc.capacity, h.holdings.size ▸ henc.limit⟩
    rcases h.eq_or_mem ht with rfl | ⟨ht, -⟩
    · have henc := h.encloses
      exact hsize ⟨henc.base, henc.capacity, henc.limit⟩
    · exact hsize (h.settled.exact t ht)

/-- A name stands for the region that it stood for. -/
theorem spanNamed? (h : p.Rewrites m s written m') (name : String) :
    m'.spanNamed? name = (m.spanNamed? name).map fun t =>
      if t.id = s.id then Leasehold.sealedSpan written.length t else t := by
  rw [spanNamed?_map h.spans (h.names.trans (having_names m s).symm) (fun t => by split <;> rfl),
    h.opens.spanNamed?_having h.settled h.exact]

end Rewrites

end Patch

end CellMachine
