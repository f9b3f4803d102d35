import CellMachine.Memory.Lease
import CellMachine.Memory.Load
import CellMachine.Proofs.Action
import CellMachine.Proofs.Program.Layout

/-!
# The order of regions

A memory keeps its regions in the order of their bases, each ending before the next one begins, and
finds the place of a new region by binary search. So a new region is compared with its two
neighbours only. The statements here say that this is enough.

* `Memory.Ordered` — the regions of a memory stand in order.
* `Memory.find?_of_contains` — the region of an address is found.
* `Memory.Fresh` — a name that a new region can have.
* `Memory.register_of_blocked` — a region that any other region is in the way of is refused.
* `Memory.registered` — the memory with a new region in its place and in the index of names.
* `Memory.register_of_clear` — a region that no other region is in the way of takes its place in
  the order.
-/

namespace CellMachine

/-- The place of a region, as an image would list it. -/
def Span.entry (s : Span) : RoutineEntry :=
  { name := s.name, base := s.base, capacity := s.capacity }

/-- A value that is put under a name is found there, and hides no other name. -/
@[simp] theorem NameMap.lookup_insert {α : Type} (t : NameMap α) (name other : String) (a : α) :
    (t.insert name a).lookup other = if other = name then some a else t.lookup other := by
  unfold NameMap.lookup NameMap.insert
  rw [List.lookup_cons]
  by_cases h : other = name
  · rw [if_pos h, h, beq_self_eq_true]
  · rw [if_neg h, beq_eq_false_iff_ne.mpr h]

namespace Memory

/-- The places of the regions. -/
def entries (m : Memory) : List RoutineEntry := m.spans.toList.map Span.entry

/-- A region that is registered is among them. -/
theorem mem_entries_of_mem {m : Memory} {s : Span} (h : s ∈ m.spans) : s.entry ∈ m.entries :=
  List.mem_map_of_mem (Array.mem_toList_iff.mpr h)

/-- The regions stand in the order of their bases, and each one ends before the next one begins. -/
def Ordered (m : Memory) : Prop := m.entries.Pairwise RoutineEntry.Before

/-- A region is in the way of a place. -/
def Blocked (m : Memory) (r : RoutineEntry) : Prop := ∃ e ∈ m.entries, e.Blocks r

/-! ### The search for a place -/

/-- In an ordered memory a test of the bases that stays true is false below the index that is
searched for, and true from it on. -/
theorem searchSpans_spec {m : Memory} (hm : m.Ordered) {p : Addr → Bool}
    (hp : ∀ a b, a ≤ b → p a = true → p b = true) :
    m.searchSpans p ≤ m.spans.toList.length ∧
      ∀ i (hi : i < m.spans.toList.length),
        p m.spans.toList[i].base = decide (m.searchSpans p ≤ i) := by
  have hsorted : m.spans.toList.Pairwise fun a b => a.base ≤ b.base :=
    (List.pairwise_map.mp hm).imp fun h => h.base
  let test : Nat → Bool := fun i => (m.spans[i]?).elim true fun s => p s.base
  have htest : ∀ i (hi : i < m.spans.toList.length), test i = p m.spans.toList[i].base := by
    intro i hi
    simp only [test]
    rw [Array.getElem?_eq_getElem (Array.length_toList ▸ hi), Array.getElem_toList,
      Option.elim_some]
  have hmono : ∀ i j, i ≤ j → test i = true → test j = true := by
    intro i j hij hi
    by_cases hj : j < m.spans.toList.length
    · rw [htest i (by omega)] at hi
      rw [htest j hj]
      rcases Nat.lt_or_eq_of_le hij with hlt | rfl
      · exact hp _ _ (List.pairwise_iff_getElem.mp hsorted i j _ hj hlt) hi
      · exact hi
    · -- behind the last region the test counts as true
      simp only [test]
      rw [Array.getElem?_eq_none (by simpa using hj), Option.elim_none]
  have heq : m.searchSpans p = search m.spans.size test := by
    unfold searchSpans
    congr 1
    funext i
    simp only [test]
    cases m.spans[i]? <;> rfl
  obtain ⟨hle, hbelow, habove⟩ := search_spec hmono m.spans.size
  rw [← heq] at hle hbelow habove
  rw [← Array.length_toList] at hle habove
  refine ⟨hle, ?_⟩
  intro i hi
  rw [← htest i hi]
  by_cases hsearch : m.searchSpans p ≤ i
  · rw [habove i hsearch hi, decide_eq_true hsearch]
  · rw [hbelow i (by omega), decide_eq_false hsearch]

/-- The search splits the regions of an ordered memory where a test of the bases turns true. -/
theorem exists_split_of_searchSpans {m : Memory} (hm : m.Ordered) {p : Addr → Bool}
    (hp : ∀ a b, a ≤ b → p a = true → p b = true) :
    ∃ low high, m.spans.toList = low ++ high ∧ low.length = m.searchSpans p ∧
      (∀ s ∈ low, p s.base = false) ∧ ∀ s ∈ high, p s.base = true := by
  obtain ⟨hle, hspec⟩ := searchSpans_spec hm hp
  refine ⟨m.spans.toList.take (m.searchSpans p), m.spans.toList.drop (m.searchSpans p),
    (List.take_append_drop _ _).symm, ?_, ?_, ?_⟩
  · rw [List.length_take]
    exact Nat.min_eq_left hle
  · intro s hs
    obtain ⟨i, hi, rfl⟩ := List.mem_iff_getElem.mp hs
    rw [List.length_take] at hi
    rw [List.getElem_take, hspec i (by omega)]
    exact decide_eq_false (by omega)
  · intro s hs
    obtain ⟨i, hi, rfl⟩ := List.mem_iff_getElem.mp hs
    rw [List.length_drop] at hi
    rw [List.getElem_drop, hspec _ (by omega)]
    exact decide_eq_true (by omega)

/-- **The search finds the region of an address.** In an ordered memory it is the region that
contains the address. -/
theorem find?_of_contains {m : Memory} (hm : m.Ordered) {s : Span} (hs : s ∈ m.spans) {a : Addr}
    (ha : s.contains a = true) : m.find? a = some s := by
  obtain ⟨i, hi, rfl⟩ := List.mem_iff_getElem.mp (Array.mem_toList_iff.mpr hs)
  have hmono : ∀ b c, b ≤ c → decide (a < b) = true → decide (a < c) = true := by
    intro b c hbc hab
    exact decide_eq_true (Int64.lt_of_lt_of_le (of_decide_eq_true hab) hbc)
  obtain ⟨hle, hspec⟩ := searchSpans_spec hm hmono
  unfold Span.contains at ha
  rw [Bool.and_eq_true, decide_eq_true_iff, decide_eq_true_iff] at ha
  -- the search stops right behind the region: the base of the next one is its end or above
  have hsearch : m.searchSpans (fun base => a < base) = i + 1 := by
    have hlow := hspec i hi
    rw [decide_eq_false (Int64.not_lt.mpr ha.1), eq_comm, decide_eq_false_iff_not] at hlow
    refine Nat.le_antisymm (Nat.not_lt.mp fun hlt => ?_) (Nat.not_le.mp hlow)
    have hnext : i + 1 < m.spans.toList.length := by omega
    have hbefore := List.pairwise_iff_getElem.mp (List.pairwise_map.mp hm) i (i + 1) hi hnext
      (Nat.lt_succ_self i)
    have habove : a < m.spans.toList[i + 1].base := Int64.lt_of_lt_of_le ha.2 hbefore.limit
    have hhigh := hspec (i + 1) hnext
    rw [decide_eq_true habove, eq_comm, decide_eq_true_iff] at hhigh
    omega
  have hget : m.spans[i]? = some m.spans.toList[i] := by
    rw [← Array.getElem?_toList, List.getElem?_eq_getElem hi]
  unfold find?
  rw [hsearch]
  simp only [hget]
  rw [if_pos]
  unfold Span.contains
  rw [Bool.and_eq_true, decide_eq_true_iff, decide_eq_true_iff]
  exact ha

/-- The neighbours of an index are the last region before it and the first one from it on. -/
theorem overlapped?_eq_none_iff {m : Memory} {low high : List Span}
    (hs : m.spans.toList = low ++ high) (base : Addr) (capacity : Int64) :
    m.overlapped? low.length base capacity = none ↔
      (∀ s ∈ low.getLast?, s.limit ≤ base) ∧ ∀ s ∈ high.head?, base + capacity ≤ s.base := by
  have hbefore : (if low.length = 0 then none else m.spans[low.length - 1]?) = low.getLast? := by
    rw [← Array.getElem?_toList, hs, List.getLast?_eq_getElem?]
    cases low with
    | nil => rfl
    | cons s rest => exact List.getElem?_append_left (Nat.lt_succ_self rest.length)
  have hafter : m.spans[low.length]? = high.head? := by
    rw [← Array.getElem?_toList, hs, List.getElem?_append_right (Nat.le_refl _), Nat.sub_self,
      List.head?_eq_getElem?]
  unfold overlapped?
  simp only [hbefore, hafter]
  rcases low.getLast? with _ | s
  · simp [Option.filter_none]
  · by_cases h : base < s.limit
    · simp [Option.filter_some, h, Int64.not_le.mpr h]
    · simp [Option.filter_some, h, Int64.not_lt.mp h]

/-- A region is in the way of a place if it lies below the place and reaches over its base, or lies
above and begins before its end. -/
theorem not_blocked_iff_of_split {m : Memory} {r : RoutineEntry} {low high : List Span}
    (hs : m.spans.toList = low ++ high) (hlow : ∀ s ∈ low, s.base < r.base)
    (hhigh : ∀ s ∈ high, r.base ≤ s.base) :
    ¬m.Blocked r ↔ (∀ s ∈ low, s.limit ≤ r.base) ∧ ∀ s ∈ high, r.limit ≤ s.base := by
  have hbelow : ∀ s ∈ low, s.entry.Blocks r ↔ r.base < s.limit := fun s hmem =>
    RoutineEntry.blocks_iff_of_lt (e := s.entry) (hlow s hmem)
  have habove : ∀ s ∈ high, s.entry.Blocks r ↔ s.base < r.limit := fun s hmem =>
    RoutineEntry.blocks_iff_of_le (e := s.entry) (hhigh s hmem)
  unfold Blocked entries
  rw [hs]
  constructor
  · intro hclear
    constructor
    · intro s hmem
      apply Int64.not_lt.mp
      intro hlt
      exact hclear ⟨s.entry, List.mem_map_of_mem (List.mem_append_left _ hmem),
        (hbelow s hmem).mpr hlt⟩
    · intro s hmem
      apply Int64.not_lt.mp
      intro hlt
      exact hclear ⟨s.entry, List.mem_map_of_mem (List.mem_append_right _ hmem),
        (habove s hmem).mpr hlt⟩
  · rintro ⟨hlimits, hbases⟩ ⟨e, he, hblocks⟩
    obtain ⟨s, hmem, rfl⟩ := List.mem_map.mp he
    rcases List.mem_append.mp hmem with hmem | hmem
    · exact Int64.not_lt.mpr (hlimits s hmem) ((hbelow s hmem).mp hblocks)
    · exact Int64.not_lt.mpr (hbases s hmem) ((habove s hmem).mp hblocks)

/-- If the last of several regions in order ends before a base, all of them do. -/
theorem limits_le_of_getLast? {low : List Span} {base : Addr}
    (hl : low.Pairwise fun a b => a.entry.Before b.entry) (hlow : ∀ s ∈ low, s.base < base)
    (hlast : ∀ s ∈ low.getLast?, s.limit ≤ base) : ∀ s ∈ low, s.limit ≤ base := by
  intro s hmem
  cases hend : low.getLast? with
  | none =>
    rw [List.getLast?_eq_none_iff.mp hend] at hmem
    cases hmem
  | some t =>
    obtain ⟨init, rfl⟩ := List.getLast?_eq_some_iff.mp hend
    rcases List.mem_append.mp hmem with hmem | hmem
    · have hst : s.entry.Before t.entry := (List.pairwise_append.mp hl).2.2 s hmem t (by simp)
      exact Int64.le_trans hst.limit (Int64.le_of_lt (hlow t (by simp)))
    · cases List.mem_singleton.mp hmem
      exact hlast s hend

/-- If the first of several regions in order begins after an address, all of them do. -/
theorem le_bases_of_head? {high : List Span} {a : Addr}
    (hh : high.Pairwise fun a b => a.entry.Before b.entry)
    (hfirst : ∀ s ∈ high.head?, a ≤ s.base) : ∀ s ∈ high, a ≤ s.base := by
  intro s hmem
  cases high with
  | nil => cases hmem
  | cons t rest =>
    have ht : a ≤ t.base := hfirst t rfl
    rcases List.mem_cons.mp hmem with rfl | hmem
    · exact ht
    · have hts : t.entry.Before s.entry := (List.pairwise_cons.mp hh).1 s hmem
      exact Int64.le_trans ht hts.base

/-- In an ordered memory the neighbours of a place stand for all regions: if they are not in the
way of it then no region is. -/
theorem overlapped?_eq_none_iff_not_blocked {m : Memory} (hm : m.Ordered) {r : RoutineEntry}
    {low high : List Span} (hs : m.spans.toList = low ++ high) (hlow : ∀ s ∈ low, s.base < r.base)
    (hhigh : ∀ s ∈ high, r.base ≤ s.base) :
    m.overlapped? low.length r.base r.capacity = none ↔ ¬m.Blocked r := by
  have hpair : (low ++ high).Pairwise fun a b => a.entry.Before b.entry := by
    rw [← hs]
    exact List.pairwise_map.mp hm
  obtain ⟨hl, hh, -⟩ := List.pairwise_append.mp hpair
  rw [overlapped?_eq_none_iff hs, not_blocked_iff_of_split hs hlow hhigh]
  constructor
  · rintro ⟨hlast, hfirst⟩
    exact ⟨limits_le_of_getLast? hl hlow hlast, le_bases_of_head? hh hfirst⟩
  · rintro ⟨hlimits, hbases⟩
    exact ⟨fun s hlast => hlimits s (List.mem_of_getLast? hlast),
      fun s hfirst => hbases s (List.mem_of_head? hfirst)⟩

/-! ### Registration -/

/-- A name that a new region can have: one that is not in the index, or none. -/
def Fresh (m : Memory) (name : String) : Prop := name ≠ "" → m.names.lookup name = none

/-- A region can always go without a name. -/
theorem fresh_empty (m : Memory) : m.Fresh "" := fun h => absurd rfl h

/-- A name that is not in the index can be given. -/
theorem Fresh.of_not_contains {m : Memory} {name : String} (h : ¬m.names.contains name) :
    m.Fresh name :=
  fun _ => Option.not_isSome_iff_eq_none.mp h

/-- A name is refused if it cannot be given. -/
theorem not_fresh_iff {m : Memory} {name : String} :
    ¬m.Fresh name ↔ name ≠ "" ∧ m.names.contains name := by
  unfold Fresh NameMap.contains
  rw [Classical.not_imp, Option.isSome_iff_ne_none]

/-- The index with one more region finds the number of the region under its name. -/
theorem lookup_namesWith_self (m : Memory) {s : Span} (h : s.name ≠ "") :
    (m.namesWith s).lookup s.name = some s.id := by
  unfold namesWith
  rw [if_neg h, NameMap.lookup_insert, if_pos rfl]

/-- One more region hides no other name in the index. -/
theorem lookup_namesWith_of_ne {m : Memory} (s : Span) {name : String} (h : s.name ≠ name) :
    (m.namesWith s).lookup name = m.names.lookup name := by
  unfold namesWith
  split
  · rfl
  · rw [NameMap.lookup_insert, if_neg h.symm]

/-- A region that another region is in the way of is refused, and the memory stays as it is. -/
theorem register_of_blocked {m : Memory} (hm : m.Ordered) {r : RoutineEntry}
    (hname : m.Fresh r.name) (h : m.Blocked r) :
    ∃ other, register r.name r.base r.capacity m = .error (.regionOverlap other) m := by
  obtain ⟨low, high, hs, hi, hlow, hhigh⟩ := exists_split_of_searchSpans hm
    (p := fun b => decide (r.base ≤ b)) (by simpa using fun a b hab ha => Int64.le_trans ha hab)
  have hne : m.overlapped? low.length r.base r.capacity ≠ none := by
    rw [Ne, overlapped?_eq_none_iff_not_blocked hm hs (by simpa using hlow) (by simpa using hhigh)]
    exact not_not_intro h
  obtain ⟨s, hover⟩ := Option.ne_none_iff_exists'.mp hne
  refine ⟨s.name, ?_⟩
  unfold register
  rw [if_neg fun hnot => not_fresh_iff.mpr hnot hname]
  simp only [← hi, hover]

/-- The region that a registration makes. -/
def newSpan (m : Memory) (r : RoutineEntry) : Span :=
  { id := m.spans.size, name := r.name, base := r.base, capacity := r.capacity }

/-- The memory with a new region between two parts of the others. -/
def registered (m : Memory) (r : RoutineEntry) (low high : List Span) : Memory :=
  { m with
    spans := (low ++ m.newSpan r :: high).toArray
    names := m.namesWith (m.newSpan r) }

/-- The new region is one of the regions. -/
theorem mem_registered (m : Memory) (r : RoutineEntry) (low high : List Span) :
    m.newSpan r ∈ (m.registered r low high).spans := by
  simp [registered]

/-- A region that no other region is in the way of is put between those that end before it begins
and those that begin after its end. -/
theorem register_of_clear {m : Memory} (hm : m.Ordered) {r : RoutineEntry}
    (hname : m.Fresh r.name) (h : ¬m.Blocked r) :
    ∃ low high, m.spans.toList = low ++ high ∧ (∀ s ∈ low, s.entry.Before r) ∧
      (∀ s ∈ high, r.Before s.entry) ∧
      register r.name r.base r.capacity m = .ok (m.newSpan r) (m.registered r low high) := by
  obtain ⟨low, high, hs, hi, hlow, hhigh⟩ := exists_split_of_searchSpans hm
    (p := fun b => decide (r.base ≤ b)) (by simpa using fun a b hab ha => Int64.le_trans ha hab)
  simp only [decide_eq_false_iff_not, Int64.not_le, decide_eq_true_eq] at hlow hhigh
  have hover := (overlapped?_eq_none_iff_not_blocked hm hs hlow hhigh).mpr h
  obtain ⟨hlimits, hbases⟩ := (not_blocked_iff_of_split hs hlow hhigh).mp h
  refine ⟨low, high, hs, ?_, ?_, ?_⟩
  · intro s hmem
    exact ⟨Int64.le_of_lt (hlow s hmem), hlimits s hmem⟩
  · intro s hmem
    exact ⟨hhigh s hmem, hbases s hmem⟩
  · have hinsert : m.spans.insertIdxIfInBounds low.length (m.newSpan r) =
        (low ++ m.newSpan r :: high).toArray := by
      have hspans : m.spans = (low ++ high).toArray := by rw [← hs]
      rw [hspans, List.insertIdxIfInBounds_toArray]
      exact congrArg List.toArray (List.modifyTailIdx_add (List.cons (m.newSpan r)) 0 low high)
    unfold register
    rw [if_neg fun hnot => not_fresh_iff.mpr hnot hname]
    simp only [← hi, hover]
    exact congrArg (fun spans => EStateM.Result.ok _
      { m with spans, names := m.namesWith (m.newSpan r) }) hinsert

/-- A registration leaves a memory alone, or changes the regions and their index only. -/
theorem after_register (name : String) (base : Addr) (capacity : Int64) (m : Memory) :
    (register name base capacity).after m = m ∨ ∃ i,
      (register name base capacity).after m = { m with
        spans := m.spans.insertIdxIfInBounds i (m.newSpan { name, base, capacity })
        names := m.namesWith (m.newSpan { name, base, capacity }) } := by
  unfold Action.after register
  by_cases hname : name ≠ "" ∧ m.names.contains name
  · rw [if_pos hname]
    exact .inl rfl
  · rw [if_neg hname]
    dsimp only
    cases m.overlapped? (m.searchSpans fun b => base ≤ b) base capacity with
    | some s => exact .inl rfl
    | none => exact .inr ⟨_, rfl⟩

/-- A name that is taken is refused, and the memory stays as it is. -/
theorem register_of_taken {m : Memory} {name : String} (hname : ¬m.Fresh name) (base : Addr)
    (capacity : Int64) : register name base capacity m = .error (.regionTaken name) m := by
  unfold register
  rw [if_pos (not_fresh_iff.mp hname)]

/-- A region between those that end before it begins and those that begin after its end leaves the
regions in order. -/
theorem ordered_of_split {m : Memory} (hm : m.Ordered) {r : RoutineEntry} {low high : List Span}
    (hs : m.spans.toList = low ++ high) (hlow : ∀ s ∈ low, s.entry.Before r)
    (hhigh : ∀ s ∈ high, r.Before s.entry) :
    (m.registered r low high).Ordered := by
  have hpair := List.pairwise_map.mp hm
  rw [hs] at hpair
  obtain ⟨hl, hh, hlh⟩ := List.pairwise_append.mp hpair
  refine List.pairwise_map.mpr (List.pairwise_append.mpr ⟨hl, ?_, ?_⟩)
  · exact List.pairwise_cons.mpr ⟨hhigh, hh⟩
  · intro s hs t ht
    rcases List.mem_cons.mp ht with rfl | ht
    · exact hlow s hs
    · exact hlh s hs t ht

/-- The regions of a memory after a new one has taken its place among them. -/
structure Inserted (m : Memory) (r : RoutineEntry) (m' : Memory) : Prop where
  ordered : m'.Ordered
  entries : m'.entries.Perm (r :: m.entries)
  /-- In the index is one more name at most. -/
  names : ∀ name, name ≠ r.name → m'.names.lookup name = m.names.lookup name

/-- **Registration keeps the order.** A region that no other region is in the way of is inserted
among the others. -/
theorem exists_inserted_of_clear {m : Memory} (hm : m.Ordered) {r : RoutineEntry}
    (hname : m.Fresh r.name) (h : ¬m.Blocked r) :
    ∃ span m', register r.name r.base r.capacity m = .ok span m' ∧ m.Inserted r m' := by
  obtain ⟨low, high, hs, hlow, hhigh, hreg⟩ := register_of_clear hm hname h
  have hperm : (low ++ m.newSpan r :: high).Perm (m.newSpan r :: m.spans.toList) := by
    rw [hs]
    exact List.perm_middle
  exact ⟨_, _, hreg, ordered_of_split hm hs hlow hhigh, hperm.map Span.entry,
    fun _ hother => lookup_namesWith_of_ne (m.newSpan r) hother.symm⟩

end Memory

end CellMachine
