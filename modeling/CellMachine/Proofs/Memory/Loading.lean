import CellMachine.Proofs.Memory.Reachable

/-!
# Failed loads

A load that fails in the checks leaves the memory as it was. A registration that fails comes too
late for that: the image has been received, and some of its routines may have been registered. This
module says exactly when it happens.

* `Memory.Clashes` — a routine cannot be registered after those that are listed before it.
* `Memory.TornBy` — the exact condition under which a load fails and leaves a changed memory.
* `Memory.loadImage_atomic_iff` — **a failed load leaves the memory as it was, except exactly under
  that condition.**

The check of the layout accepts an empty routine at the base of another routine, while the registry
of regions does not accept the other routine after the empty one.
-/

namespace CellMachine

open CellMachine.Action

namespace Memory

/-! ### The registration of routines -/

/-- A routine cannot be registered: a region of the memory is in the way of it, or it is not empty
and shares its base with a routine that is registered before it. -/
def Clashes (m : Memory) (before : List RoutineEntry) (r : RoutineEntry) : Prop :=
  m.Blocked r ∨ ∃ t ∈ before, t.base = r.base ∧ r.base < r.limit

/-- One of a list of routines cannot be registered after those before it. -/
def Clashing (m : Memory) (routines : List RoutineEntry) : Prop :=
  ∃ before r after, routines = before ++ r :: after ∧ m.Clashes before r

/-- Routines that only their places can keep from being registered: their names are new and
distinct, and they stand apart from one another. -/
structure Ready (m : Memory) (routines : List RoutineEntry) : Prop where
  ordered : m.Ordered
  names : (routines.map RoutineEntry.name).Nodup
  fresh : ∀ r ∈ routines, m.Fresh r.name
  apart : routines.Pairwise RoutineEntry.Apart

/-- After one routine is registered the others are ready still. -/
theorem Ready.tail {m m' : Memory} {r : RoutineEntry} {rest : List RoutineEntry}
    (h : m.Ready (r :: rest)) (hins : m.Inserted r m') : m'.Ready rest := by
  have hnames := List.nodup_cons.mp h.names
  refine ⟨hins.ordered, hnames.2, ?_, (List.pairwise_cons.mp h.apart).2⟩
  intro t ht hname
  have hother : t.name ≠ r.name := fun heq => hnames.1 (heq ▸ List.mem_map_of_mem ht)
  rw [hins.names t.name hother]
  exact h.fresh t (List.mem_cons_of_mem _ ht) hname

/-- What clashes with the memory or with a routine that is registered first clashes with the memory
after that. -/
theorem clashes_of_inserted_iff {m m' : Memory} {r t : RoutineEntry} {before : List RoutineEntry}
    (hins : m.Inserted r m') (hapart : r.Apart t) :
    m'.Clashes before t ↔ m.Clashes (r :: before) t := by
  have hentries : m'.Blocked t ↔ r.Blocks t ∨ m.Blocked t := by
    simp [Blocked, hins.entries.mem_iff]
  have hbefore : (∃ e ∈ r :: before, e.base = t.base ∧ t.base < t.limit) ↔
      r.Blocks t ∨ ∃ e ∈ before, e.base = t.base ∧ t.base < t.limit := by
    rw [RoutineEntry.blocks_iff_of_apart hapart]
    simp
  unfold Clashes
  rw [hentries, hbefore, ← or_assoc]
  exact or_congr_left or_comm

/-- One of a list of routines cannot be registered if the memory is in the way of the first one, or
if one of the others cannot be registered after it. -/
theorem clashing_cons_iff {m m' : Memory} {r : RoutineEntry} {rest : List RoutineEntry}
    (h : m.Ready (r :: rest)) (hins : m.Inserted r m') :
    m.Clashing (r :: rest) ↔ m.Blocked r ∨ m'.Clashing rest := by
  have hapart := (List.pairwise_cons.mp h.apart).1
  constructor
  · rintro ⟨before, t, after, hsplit, hclash⟩
    cases before with
    | nil =>
      cases hsplit
      rcases hclash with hblocked | ⟨t, ht, -⟩
      · exact .inl hblocked
      · cases ht
    | cons first before =>
      cases hsplit
      refine .inr ⟨before, t, after, rfl, ?_⟩
      rw [clashes_of_inserted_iff hins (hapart t (by simp))]
      exact hclash
  · rintro (hblocked | ⟨before, t, after, rfl, hclash⟩)
    · exact ⟨[], r, rest, rfl, .inl hblocked⟩
    · rw [clashes_of_inserted_iff hins (hapart t (by simp))] at hclash
      exact ⟨r :: before, t, after, rfl, hclash⟩

/-- If the memory is in the way of the first routine, none is registered. -/
theorem registerRoutines_of_blocked {m : Memory} {r : RoutineEntry} {rest : List RoutineEntry}
    (h : m.Ready (r :: rest)) (hblocked : m.Blocked r) :
    ∃ failure, registerRoutines (r :: rest) m = .error failure m := by
  obtain ⟨other, hreg⟩ := register_of_blocked h.ordered (h.fresh r List.mem_cons_self) hblocked
  exact ⟨.regionOverlap other, bind_of_error hreg⟩

/-- If the memory is not in the way of the first routine, that one is inserted and the others are
registered after it. -/
theorem registerRoutines_of_clear {m : Memory} {r : RoutineEntry} {rest : List RoutineEntry}
    (h : m.Ready (r :: rest)) (hclear : ¬m.Blocked r) :
    ∃ m', m.Inserted r m' ∧ registerRoutines (r :: rest) m = registerRoutines rest m' := by
  obtain ⟨span, m₁, hreg, hins⟩ :=
    exists_inserted_of_clear h.ordered (h.fresh r List.mem_cons_self) hclear
  let f : Span → Span := fun s => { s with length := r.capacity.toInt }
  have hsame : (m₁.updateSpan span.id f).entries = m₁.entries :=
    entries_updateSpan m₁ span.id fun _ => rfl
  refine ⟨m₁.updateSpan span.id f, ⟨?_, ?_, hins.names⟩, ?_⟩
  · exact hins.ordered.updateSpan span.id fun _ => rfl
  · rw [hsame]
    exact hins.entries
  · exact bind_of_ok hreg

/-- Routines none of which clashes are registered, all of them. -/
theorem exists_ok_of_not_clashing {routines : List RoutineEntry} :
    ∀ {m : Memory}, m.Ready routines → ¬m.Clashing routines →
      ∃ m', registerRoutines routines m = .ok () m' := by
  induction routines with
  | nil =>
    intro m _ _
    exact ⟨m, rfl⟩
  | cons r rest ih =>
    intro m h hno
    have hclear : ¬m.Blocked r := fun hblocked => hno ⟨[], r, rest, rfl, .inl hblocked⟩
    obtain ⟨m', hins, heq⟩ := registerRoutines_of_clear h hclear
    rw [heq]
    apply ih (h.tail hins)
    intro hclash
    exact hno ((clashing_cons_iff h hins).mpr (.inr hclash))

/-- If one of the routines clashes then the registration fails. The memory stays as it is if that is
the first routine; else it keeps the routines that were registered before. -/
theorem exists_error_of_clashing {routines : List RoutineEntry} :
    ∀ {m : Memory}, m.Ready routines → m.Clashing routines →
      ∃ failure m', registerRoutines routines m = .error failure m' ∧
        ((m' = m ∧ ∃ r ∈ routines.head?, m.Clashes [] r) ∨
          m.entries.length < m'.entries.length) := by
  induction routines with
  | nil =>
    rintro m _ ⟨before, r, after, hsplit, -⟩
    exact absurd hsplit (by simp)
  | cons r rest ih =>
    intro m h hclash
    by_cases hblocked : m.Blocked r
    · obtain ⟨failure, hreg⟩ := registerRoutines_of_blocked h hblocked
      exact ⟨failure, m, hreg, .inl ⟨rfl, r, rfl, .inl hblocked⟩⟩
    · -- the first routine stays registered, so whatever follows ends with more regions
      obtain ⟨m₁, hins, heq⟩ := registerRoutines_of_clear h hblocked
      have hlength : m₁.entries.length = m.entries.length + 1 := hins.entries.length_eq
      have hlater := ((clashing_cons_iff h hins).mp hclash).resolve_left hblocked
      obtain ⟨failure, m', hreg, hstate⟩ := ih (h.tail hins) hlater
      refine ⟨failure, m', heq.trans hreg, .inr ?_⟩
      rcases hstate with ⟨rfl, -⟩ | hmore
      · omega
      · omega

/-! ### Loads that tear the memory -/

/-- An image tears a memory: it passes all checks and one of its routines cannot be registered, when
its cells and globals or an earlier routine have changed the memory already. -/
structure TornBy [BaseOrder] (m : Memory) (img : Image) : Prop where
  admits : m.Admits img
  clashing : m.Clashing img.routines
  changed : m.receive img ≠ m ∨ ∀ r ∈ img.routines.head?, ¬m.Clashes [] r

/-- The routines of an image that passes the checks are ready when the image is received. -/
theorem Admits.ready [BaseOrder] {m : Memory} {img : Image} (h : m.Admits img) (hm : m.Ordered) :
    (m.receive img).Ready img.routines where
  ordered := by
    unfold Ordered
    rwa [entries_receive]
  names := Image.nodup_of_checkLayout h.layout
  fresh r hr := by
    obtain ⟨cells, addresses, hreceive, -⟩ := exists_receive m img
    rw [hreceive]
    exact h.fresh_routines r hr
  apart := Image.apart_of_checkLayout h.layout

/-- Receiving an image changes nothing about the routines that clash. -/
theorem clashes_receive_iff (m : Memory) (img : Image) (before : List RoutineEntry)
    (r : RoutineEntry) : (m.receive img).Clashes before r ↔ m.Clashes before r := by
  unfold Clashes Blocked
  rw [entries_receive]

/-- Receiving an image changes nothing about the lists of routines that clash. -/
theorem clashing_receive_iff (m : Memory) (img : Image) (routines : List RoutineEntry) :
    (m.receive img).Clashing routines ↔ m.Clashing routines := by
  unfold Clashing
  simp only [clashes_receive_iff]

/-- An image that tears a memory fails to load and leaves the memory changed. -/
theorem TornBy.exists_error_ne [BaseOrder] {m : Memory} {img : Image} (h : m.TornBy img)
    (hm : m.Ordered) : ∃ failure m', loadImage img m = .error failure m' ∧ m' ≠ m := by
  obtain ⟨failure, m', hreg, hstate⟩ := exists_error_of_clashing (h.admits.ready hm)
    ((clashing_receive_iff m img _).mpr h.clashing)
  refine ⟨failure, m', (loadImage_of_admits h.admits).trans hreg, ?_⟩
  rintro rfl
  rcases hstate with ⟨heq, r, hr, hclash⟩ | hmore
  · rcases h.changed with hne | hfirst
    · exact hne heq.symm
    · exact hfirst r hr ((clashes_receive_iff m' img [] r).mp hclash)
  · rw [entries_receive] at hmore
    exact Nat.lt_irrefl _ hmore

/-- A load that fails and leaves a changed memory was one of an image that tears the memory. -/
theorem tornBy_of_error [BaseOrder] {m m' : Memory} {img : Image} {failure : Failure}
    (hm : m.Ordered) (h : loadImage img m = .error failure m') (hne : m' ≠ m) : m.TornBy img := by
  by_cases hadmits : m.Admits img
  · have hready := hadmits.ready hm
    rw [loadImage_of_admits hadmits] at h
    refine ⟨hadmits, ?_, ?_⟩
    · rw [← clashing_receive_iff m img]
      apply Classical.byContradiction
      intro hno
      obtain ⟨last, hok⟩ := exists_ok_of_not_clashing hready hno
      rw [hok] at h
      cases h
    · by_cases hreceive : m.receive img = m
      · refine .inr fun r hr hclash => hne ?_
        rw [hreceive] at h hready
        obtain ⟨rest, hsplit⟩ := List.head?_eq_some_iff.mp hr
        rw [hsplit] at h hready
        have hblocked : m.Blocked r := by
          rcases hclash with hblocked | ⟨t, ht, -⟩
          · exact hblocked
          · cases ht
        obtain ⟨cause, hreg⟩ := registerRoutines_of_blocked hready hblocked
        rw [hreg] at h
        cases h
        rfl
      · exact .inl hreceive
  · obtain ⟨cause, herror⟩ := loadImage_of_not_admits hadmits
    rw [herror] at h
    cases h
    exact absurd rfl hne

/-- **When failed loads are atomic.** In every memory that can come about, a failed load of an image
leaves the memory as it was exactly if the image does not tear the memory. -/
theorem loadImage_atomic_iff [BaseOrder] {m : Memory} (hm : m.Reachable) (img : Image) :
    (∀ failure m', loadImage img m = .error failure m' → m' = m) ↔ ¬m.TornBy img := by
  constructor
  · intro hatomic htorn
    obtain ⟨failure, m', hload, hne⟩ := htorn.exists_error_ne hm.ordered
    exact hne (hatomic failure m' hload)
  · intro hno failure m' hload
    apply Classical.byContradiction
    intro hne
    exact hno (tornBy_of_error hm.ordered hload hne)

/-- A memory of sixteen cells, the top eight of which are the stack. -/
def sampleMemory : Memory := { cells := Array.replicate 16 0, limit := 8 }

/-- An image with an empty routine at the base of another one. -/
def sampleImage : Image where
  version := imageVersion
  base := 0
  cells? := some stub
  globals := []
  routines :=
    [{ name := "marker", base := 0, capacity := 0 }, { name := "main", base := 0, capacity := 3 }]

/-- A load that fails in the middle: the cells are copied and the empty routine is registered when
the routine at the same base turns out to be in its way. -/
theorem loadImage_atomic_iff_sample :
    sampleMemory.Reachable ∧ sampleMemory.TornBy sampleImage ∧
      ¬∀ failure m', loadImage sampleImage sampleMemory = .error failure m' →
        m' = sampleMemory := by
  have hnew : Memory.new 16 8 = .ok sampleMemory := rfl
  have htorn : sampleMemory.TornBy sampleImage := by
    refine ⟨⟨rfl, ?_, by decide, rfl, rfl, by decide⟩, ?_, .inl ?_⟩
    · have hsorted : sampleImage.sortedRoutines = sampleImage.routines :=
        Image.sortedRoutines_stable (by decide)
      unfold Image.checkLayout Image.layoutFault?
      rw [hsorted]
      rfl
    · exact ⟨[_], _, [], rfl, .inr ⟨_, List.mem_cons_self, by decide⟩⟩
    · intro h
      have hnext := congrArg Memory.next h
      revert hnext
      decide
  exact ⟨.new hnew, htorn,
    fun hatomic => (loadImage_atomic_iff (.new hnew) sampleImage).mp hatomic htorn⟩

end Memory

end CellMachine
