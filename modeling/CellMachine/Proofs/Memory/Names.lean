import CellMachine.Proofs.Memory.Ordered
import CellMachine.Proofs.Program.Bounds

/-!
# The tables of names

A memory keeps names in three tables beside what they name: an index of the regions that have names,
the addresses of the globals, and the names of the globals in the order of their definition. They
are written where a region is registered and where a global is bound, and nowhere else. The module
says what it means that they agree, and shows that each of these writes keeps it so.

* `Memory.Indexed` — the index holds exactly the names of the regions, each with the number of its
  region; `Memory.Indexed.registered` — a registration keeps it so.
* `Memory.Listed` — the order lists exactly the globals that have addresses, each once;
  `Memory.Listed.bindGlobal` — a new global keeps it so.
* `Memory.Indexed.spanNamed?_eq_none_iff` — so a name that is not found is the name of no region.
-/

namespace CellMachine

namespace Memory

variable {m m' : Memory}

/-! ### The index of regions -/

/-- The names and the numbers of the regions. -/
def tags (m : Memory) : List (String × Nat) := m.spans.toList.map fun s => (s.name, s.id)

/-- A name and a number belong together if a region has both. -/
theorem mem_tags {name : String} {id : Nat} :
    (name, id) ∈ m.tags ↔ ∃ s ∈ m.spans, s.name = name ∧ s.id = id := by
  unfold tags
  simp

/-- The index holds exactly the names of the regions, each with the number of its region. -/
def Indexed (m : Memory) : Prop :=
  ∀ name id, m.names.lookup name = some id ↔ name ≠ "" ∧ (name, id) ∈ m.tags

/-- A change of regions that keeps their names and numbers keeps them as they stand. -/
theorem tags_updateSpan (m : Memory) (id : Nat) {f : Span → Span}
    (hf : ∀ s, (f s).name = s.name ∧ (f s).id = s.id) : (m.updateSpan id f).tags = m.tags := by
  unfold tags updateSpan
  rw [Array.toList_map, List.map_map]
  refine List.map_congr_left fun s _ => ?_
  rw [Function.comp_apply]
  split
  · rw [(hf s).1, (hf s).2]
  · rfl

/-- A registration adds the name and the number of the new region. -/
theorem mem_tags_registered {r : RoutineEntry} {low high : List Span}
    (hs : m.spans.toList = low ++ high) {name : String} {id : Nat} :
    (name, id) ∈ (m.registered r low high).tags ↔
      (name = r.name ∧ id = m.spans.size) ∨ (name, id) ∈ m.tags := by
  unfold tags registered newSpan
  rw [hs]
  simp [or_left_comm]

namespace Indexed

/-- Only the names and numbers of regions count, and the index. -/
theorem of_tags (h : m.Indexed) (hnames : m'.names = m.names) (htags : m'.tags = m.tags) :
    m'.Indexed := by
  unfold Indexed
  rw [hnames, htags]
  exact h

/-- The number in the index is that of a region with the name. -/
theorem exists_span (h : m.Indexed) {name : String} {id : Nat}
    (hid : m.names.lookup name = some id) :
    name ≠ "" ∧ ∃ s ∈ m.spans, s.name = name ∧ s.id = id := by
  obtain ⟨hname, hmem⟩ := (h name id).mp hid
  exact ⟨hname, mem_tags.mp hmem⟩

/-- A region with a name is in the index. -/
theorem lookup_of_mem (h : m.Indexed) {s : Span} (hs : s ∈ m.spans) (hname : s.name ≠ "") :
    m.names.lookup s.name = some s.id :=
  (h s.name s.id).mpr ⟨hname, mem_tags.mpr ⟨s, hs, rfl, rfl⟩⟩

/-- **A registration keeps the index exact**: the new region is in it under its name, which no
other region has. -/
theorem registered (h : m.Indexed) {r : RoutineEntry} {low high : List Span}
    (hs : m.spans.toList = low ++ high) (hfresh : m.Fresh r.name) :
    (m.registered r low high).Indexed := by
  intro name id
  rw [mem_tags_registered hs]
  show (m.namesWith (m.newSpan r)).lookup name = some id ↔ _
  by_cases hnew : name = r.name
  · subst hnew
    by_cases hempty : r.name = ""
    · -- a region without a name leaves the index as it is, which has no empty text
      have hsame : m.namesWith (m.newSpan r) = m.names := if_pos hempty
      rw [hsame, h]
      simp [hempty]
    · have hlookup : (m.namesWith (m.newSpan r)).lookup r.name = some m.spans.size :=
        lookup_namesWith_self m hempty
      have hnone : (r.name, id) ∉ m.tags := by
        intro hmem
        have hold := (h r.name id).mpr ⟨hempty, hmem⟩
        rw [hfresh hempty] at hold
        cases hold
      rw [hlookup, Option.some_inj]
      constructor
      · rintro rfl
        exact ⟨hempty, .inl ⟨rfl, rfl⟩⟩
      · rintro ⟨-, ⟨-, hid⟩ | hmem⟩
        · exact hid.symm
        · exact absurd hmem hnone
  · rw [lookup_namesWith_of_ne (m.newSpan r) (fun heq => hnew heq.symm), h]
    simp [hnew]

/-- In the index are exactly the names that find a region. -/
theorem spanNamed?_eq_none_iff (h : m.Indexed) {name : String} :
    m.spanNamed? name = none ↔ m.names.lookup name = none := by
  unfold spanNamed?
  cases hid : m.names.lookup name with
  | none => exact iff_of_true rfl rfl
  | some id =>
    obtain ⟨-, s, hs, -, hsame⟩ := h.exists_span hid
    refine iff_of_false ?_ nofun
    intro hnone
    exact Array.find?_eq_none.mp hnone s hs (by simpa using hsame)

end Indexed

/-- A name that is not in the index finds no region. -/
theorem spanNamed?_of_not_contains {name : String} (h : ¬m.names.contains name) :
    m.spanNamed? name = none := by
  unfold spanNamed?
  rw [Option.not_isSome_iff_eq_none.mp h]
  rfl

/-! ### The globals -/

/-- The order lists exactly the globals that have addresses, and none of them twice. -/
structure Listed (m : Memory) : Prop where
  once : m.order.Nodup
  bound : ∀ name, name ∈ m.order ↔ m.addresses.contains name

/-- The names of the globals in the order of their definition. -/
theorem map_globals (m : Memory) : m.globals.map Prod.fst = m.order := by
  unfold globals
  rw [List.map_map]
  exact List.map_id m.order

/-- The address of a global after one more was bound. -/
theorem globalAddr?_bindGlobal (m : Memory) (name other : String) (a : Addr) :
    (m.bindGlobal name a).globalAddr? other =
      if other = name then some a else m.globalAddr? other :=
  NameMap.lookup_insert m.addresses name other a

namespace Listed

/-- Only the globals count. -/
theorem of_globals (h : m.Listed) (haddresses : m'.addresses = m.addresses)
    (horder : m'.order = m.order) : m'.Listed := by
  constructor
  · rw [horder]
    exact h.once
  · rw [horder, haddresses]
    exact h.bound

/-- A listed global has an address. -/
theorem exists_address (h : m.Listed) {name : String} (hmem : name ∈ m.order) :
    ∃ a, m.globalAddr? name = some a :=
  Option.isSome_iff_exists.mp ((h.bound name).mp hmem)

/-- **A new global keeps the lists in agreement.** -/
theorem bindGlobal (h : m.Listed) {name : String} (hnew : m.globalAddr? name = none) (a : Addr) :
    (m.bindGlobal name a).Listed := by
  have hout : name ∉ m.order := by
    intro hmem
    obtain ⟨b, hb⟩ := h.exists_address hmem
    rw [hnew] at hb
    cases hb
  constructor
  · refine List.nodup_append.mpr ⟨h.once, List.pairwise_singleton _ name, ?_⟩
    rintro other hmem _ hlast rfl
    exact hout (List.mem_singleton.mp hlast ▸ hmem)
  · intro other
    have hold := h.bound other
    unfold NameMap.contains at hold ⊢
    change other ∈ m.order ++ [name] ↔ ((m.addresses.insert name a).lookup other).isSome
    rw [NameMap.lookup_insert, List.mem_append, List.mem_singleton, hold]
    by_cases hother : other = name
    · simp [hother]
    · simp [hother]

/-- An address in the table is that of a global in the list. -/
theorem mem_globals_iff (h : m.Listed) {name : String} {a : Addr} :
    (name, a) ∈ m.globals ↔ m.globalAddr? name = some a := by
  unfold globals
  rw [List.mem_map]
  constructor
  · rintro ⟨other, hmem, heq⟩
    obtain ⟨rfl, rfl⟩ := Prod.mk.inj heq
    obtain ⟨b, hb⟩ := h.exists_address hmem
    rw [hb, Option.getD_some]
  · intro ha
    have hmem : name ∈ m.order := (h.bound name).mpr (Option.isSome_iff_exists.mpr ⟨a, ha⟩)
    exact ⟨name, hmem, by rw [ha, Option.getD_some]⟩

end Listed

/-- Binding globals changes nothing but the tables of globals. -/
theorem bindGlobals_eq (m : Memory) (globals : List GlobalEntry) :
    m.bindGlobals globals = { m with
      addresses := (m.bindGlobals globals).addresses
      order := m.order ++ globals.map GlobalEntry.name } := by
  induction globals generalizing m with
  | nil =>
    rw [List.map_nil, List.append_nil]
    rfl
  | cons g rest ih =>
    have hrest := ih (m.bindGlobal g.name g.addr)
    rw [List.map_cons, List.append_cons]
    exact hrest

/-- A name that is not among the globals that are bound keeps its address. -/
theorem globalAddr?_bindGlobals_of_not_mem {globals : List GlobalEntry} {name : String}
    (h : name ∉ globals.map GlobalEntry.name) :
    (m.bindGlobals globals).globalAddr? name = m.globalAddr? name := by
  induction globals generalizing m with
  | nil => rfl
  | cons g rest ih =>
    rw [List.map_cons, List.mem_cons, not_or] at h
    have hrest := ih (m := m.bindGlobal g.name g.addr) h.2
    rw [globalAddr?_bindGlobal, if_neg h.1] at hrest
    exact hrest

/-- A global that is bound has its address, if no two of them share a name. -/
theorem globalAddr?_bindGlobals_of_mem {globals : List GlobalEntry}
    (h : (globals.map GlobalEntry.name).Nodup) {g : GlobalEntry} (hg : g ∈ globals) :
    (m.bindGlobals globals).globalAddr? g.name = some g.addr := by
  induction globals generalizing m with
  | nil => cases hg
  | cons first rest ih =>
    obtain ⟨hfirst, hrest⟩ := List.nodup_cons.mp h
    rcases List.mem_cons.mp hg with rfl | hg
    · refine (globalAddr?_bindGlobals_of_not_mem (m := m.bindGlobal g.name g.addr) hfirst).trans ?_
      rw [globalAddr?_bindGlobal, if_pos rfl]
    · exact ih hrest hg

/-- An address after globals were bound is that of one of them, or was there before. -/
theorem address_of_bindGlobals {globals : List GlobalEntry} {name : String} {a : Addr}
    (h : (m.bindGlobals globals).globalAddr? name = some a) :
    (∃ g ∈ globals, g.name = name ∧ g.addr = a) ∨ m.globalAddr? name = some a := by
  induction globals generalizing m with
  | nil => exact .inr h
  | cons g rest ih =>
    rcases ih h with ⟨t, ht, hsame⟩ | hbefore
    · exact .inl ⟨t, List.mem_cons_of_mem g ht, hsame⟩
    · rw [globalAddr?_bindGlobal] at hbefore
      split at hbefore
      · next hname => exact .inl ⟨g, List.mem_cons_self, hname.symm, Option.some.inj hbefore⟩
      · exact .inr hbefore

/-- New globals with distinct names keep the lists in agreement. -/
theorem Listed.bindGlobals {globals : List GlobalEntry} (h : m.Listed)
    (hnew : ∀ g ∈ globals, m.globalAddr? g.name = none)
    (hnames : (globals.map GlobalEntry.name).Nodup) : (m.bindGlobals globals).Listed := by
  induction globals generalizing m with
  | nil => exact h
  | cons g rest ih =>
    obtain ⟨hfirst, hrest⟩ := List.nodup_cons.mp hnames
    refine ih (h.bindGlobal (hnew g List.mem_cons_self) g.addr) ?_ hrest
    intro t ht
    have hother : t.name ≠ g.name := fun heq => hfirst (heq ▸ List.mem_map_of_mem ht)
    rw [globalAddr?_bindGlobal, if_neg hother]
    exact hnew t (List.mem_cons_of_mem g ht)

end Memory

end CellMachine
