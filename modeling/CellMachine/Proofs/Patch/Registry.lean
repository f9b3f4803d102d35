import CellMachine.Proofs.Machine.Plain
import CellMachine.Proofs.Memory.Reloading
import CellMachine.Proofs.Patch.Outcome

/-!
# Regions before and after patches

A patch of a region leaves traces in the records of the memory: the lease that was granted, and the
number of cells that were sealed in the region. Everything else that is recorded is as it was, and a
machine looks at nothing of it that has changed.

* `Memory.SameRegistry` — two memories have the same regions, up to what leases leave there.
* `Memory.Idle` — no region is leased or poisoned.
* `Memory.plain_of_idle` — **idle memories with the same regions look the same to a machine**, if
  their cells are the same.
* `Patch.apply_sameRegistry` — a patch of a region that succeeds keeps the regions.
* `Patched.leaves_of_applyAll` — **patches of regions that all succeed write in their regions
  only**, and leave an idle memory idle.
-/

namespace CellMachine

open CellMachine.Action

/-- A region without what leases leave there. -/
def Span.bare (s : Span) : Span := { s with length := 0, lease? := none, poisoned := false }

namespace Memory

variable {m m' m'' : Memory}

/-- The same regions, in the same order, up to what leases leave there. All that is handed out is
the same. -/
structure SameRegistry (m m' : Memory) : Prop extends m.SameHoldings m' where
  spans : m'.spans.map Span.bare = m.spans.map Span.bare
  names : m'.names = m.names

/-- Nothing has happened to the regions. -/
theorem SameRegistry.refl (m : Memory) : m.SameRegistry m := ⟨.refl m, rfl, rfl⟩

/-- Nothing has happened to the regions, and then again nothing. -/
theorem SameRegistry.trans (h : m.SameRegistry m') (h' : m'.SameRegistry m'') :
    m.SameRegistry m'' :=
  ⟨h.toSameHoldings.trans h'.toSameHoldings, h'.spans.trans h.spans, h'.names.trans h.names⟩

/-- The places of regions are nothing that leases leave there. -/
theorem SameRegistry.outline (h : m.SameRegistry m') : m.SameOutline m' := by
  have hentries (m : Memory) : m.entries = (m.spans.map Span.bare).toList.map Span.entry := by
    unfold entries
    rw [Array.toList_map, List.map_map]
    rfl
  refine ⟨h.toSameHoldings, ?_⟩
  rw [hentries, hentries, h.spans]

/-- A change of a region to what leases leave there. -/
theorem SameRegistry.updateSpan (m : Memory) (id : Nat) {f : Span → Span}
    (hf : ∀ s, (f s).bare = s.bare) : m.SameRegistry (m.updateSpan id f) := by
  refine ⟨⟨rfl, rfl, rfl, rfl, rfl⟩, ?_, rfl⟩
  unfold Memory.updateSpan
  rw [Array.map_map]
  refine Array.map_congr_left fun s _ => ?_
  rw [Function.comp_apply]
  by_cases hid : s.id = id
  · rw [if_pos hid]
    exact hf s
  · rw [if_neg hid]

/-- Opening a lease keeps the regions. -/
theorem leaseNamed_sameRegistry {name : String} {id : Nat}
    (h : leaseNamed name m = .ok id m') : m.SameRegistry m' := by
  have hget : (EStateM.get : Action Memory Memory) m = .ok m m := rfl
  unfold leaseNamed at h
  replace h := (bind_of_ok hget).symm.trans h
  cases hname : m.spanNamed? name with
  | none =>
    rw [hname] at h
    cases h
  | some s =>
    rw [hname] at h
    change openLease s m = .ok id m' at h
    rw [openLease_eq] at h
    split at h
    · cases h
    · split at h
      · cases h
      · cases h
        exact (⟨⟨rfl, rfl, rfl, rfl, rfl⟩, rfl, rfl⟩ :
          m.SameRegistry { m with leases := m.leases.push { span := s.id } }).trans
          (.updateSpan _ s.id fun _ => rfl)

/-- A call to a lease keeps the regions. -/
theorem lease_sameRegistry (h : Leasehold) (c : LeaseCall) :
    h.memory.SameRegistry (c.after h).memory := by
  have hclose (span : Span) {f : Span → Span} (hf : ∀ s, (f s).bare = s.bare) :
      h.memory.SameRegistry (h.close span f).memory :=
    (⟨⟨rfl, rfl, rfl, rfl, rfl⟩, rfl, rfl⟩ : h.memory.SameRegistry { h.memory with
      leases := h.memory.leases.modify h.lease fun l => { l with done := true } }).trans
      (.updateSpan _ span.id hf)
  have heffect := c.effect h
  generalize c.after h = h', c.events h = events at heffect
  cases heffect with
  | nothing => exact .refl _
  | wrote v hp hs hin => exact ⟨⟨Array.size_setIfInBounds, rfl, rfl, rfl, rfl⟩, rfl, rfl⟩
  | bound => exact ⟨⟨rfl, rfl, rfl, rfl, rfl⟩, rfl, rfl⟩
  | sealed => exact hclose _ fun _ => rfl
  | poisoned => exact hclose _ fun _ => rfl
  | released => exact hclose _ fun _ => rfl

/-- What an emission does to its region keeps the regions. -/
theorem upheld_sameRegistry (capacity : Nat) :
    Region.Upheld capacity fun h : Leasehold => m.SameRegistry h.memory where
  store offset v _ h hm := hm.trans (lease_sameRegistry h (.store offset v))
  sealUp length h hm := hm.trans (lease_sameRegistry h (.sealUp length))
  poison h hm := hm.trans (lease_sameRegistry h .poison)

/-! ### Idle memories -/

/-- No region is leased or poisoned. -/
def Idle (m : Memory) : Prop := ∀ s ∈ m.spans, s.lease? = none ∧ s.poisoned = false

/-- In an idle memory lengths are all that leases have left. -/
theorem Idle.map_plain (h : m.Idle) : m.spans.map Span.plain = m.spans.map Span.bare := by
  refine Array.map_congr_left fun s hs => ?_
  obtain ⟨hfree, hclean⟩ := h s hs
  unfold Span.plain Span.bare
  rw [hfree, hclean]

/-- **Idle memories with the same regions look the same to a machine** if their cells are the
same. -/
theorem plain_of_idle (h : m.SameRegistry m') (hm : m.Idle) (hm' : m'.Idle)
    (hcells : m'.cells = m.cells) : m'.plain = m.plain := by
  obtain ⟨cells, next, limit, spans, names, leases, addresses, order⟩ := m
  obtain ⟨cells', next', limit', spans', names', leases', addresses', order'⟩ := m'
  have hspans := hm'.map_plain.trans (h.spans.trans hm.map_plain.symm)
  cases hcells
  cases h.limit
  cases h.next
  cases h.names
  cases h.addresses
  cases h.order
  unfold plain
  rw [hspans]

/-- Registering a region leaves an idle memory idle. -/
theorem register_idle (name : String) (base : Addr) (capacity : Int64) :
    Preserves Idle (register name base capacity) := by
  intro m hm
  rcases after_register name base capacity m with hsame | ⟨i, hnew⟩
  · rw [hsame]
    exact hm
  · rw [hnew]
    intro s hs
    change s ∈ m.spans.insertIdxIfInBounds _ _ at hs
    unfold Array.insertIdxIfInBounds at hs
    split at hs
    · rcases Array.mem_insertIdx.mp hs with rfl | hs
      · exact ⟨rfl, rfl⟩
      · exact hm s hs
    · exact hm s hs

/-- A note of a length leaves an idle memory idle. -/
theorem Idle.updateLength (h : m.Idle) (id : Nat) (length : Int) :
    Idle (m.updateSpan id fun s => { s with length }) := by
  intro t ht
  obtain ⟨s, hs, rfl⟩ := mem_updateSpan.mp ht
  by_cases hid : s.id = id
  · rw [if_pos hid]
    exact h s hs
  · rw [if_neg hid]
    exact h s hs

/-- Loading an image leaves an idle memory idle. -/
theorem loadImage_idle [BaseOrder] {img : Image} (hm : m.Idle) (h : loadImage img m = .ok () m') :
    m'.Idle := by
  have hroutines : (routines : List RoutineEntry) → Preserves Idle (registerRoutines routines) := by
    intro routines
    induction routines with
    | nil => exact .pure ()
    | cons r rest ih =>
      exact .bind (register_idle r.name r.base r.capacity) fun _ =>
        .bind (.modify fun _ hm => hm.updateLength _ _) fun _ => ih
  have hadmits := admits_of_loadImage h
  obtain ⟨cells, hcopy⟩ := copy_of_inside (Image.faults_of_checkLayout hadmits.layout).1
    hadmits.start img.cells
  have hreceived : (m.receive img).Idle := by
    obtain ⟨cells, addresses, hreceive, -⟩ := exists_receive m img
    rw [hreceive]
    exact hm
  rw [loadImage_of_admits hadmits] at h
  exact (hroutines img.routines).ok hreceived h

/-- Reserving a region leaves an idle memory idle. -/
theorem reserve_idle (name : String) (n : Int64) : Preserves Idle (reserve name n) := by
  have hspans {α : Type} {x : Action Memory α} (hx : ∀ m, (x.after m).spans = m.spans) :
      Preserves Idle x := by
    intro m hm
    unfold Idle
    rw [hx]
    exact hm
  have halloc : Preserves Idle (alloc n) := by
    refine hspans fun m => ?_
    rcases Tidy.alloc_cases n m with ⟨failure, h⟩ | ⟨-, -, h⟩
    · rw [after_of_error h]
    · rw [after_of_ok h]
  have hfill (base : Addr) : Preserves Idle (fillStub base n) := by
    refine preserves_fillStub (fun cells => hspans fun m => ?_) n
    obtain ⟨cells', hcopy, -⟩ := exists_copy base cells m
    rw [hcopy]
  refine .refuse (.bind .get fun _ => .refuse (.bind halloc fun base => .bind (hfill base) fun _ =>
    .bind (register_idle name base n) fun span => .bind (.modify fun _ hm => ?_) fun _ => .pure _))
  exact hm.updateLength _ _

end Memory

/-! ### Patches of regions -/

namespace Patch

open CellMachine.Memory

variable {m m' : Memory} {p : Patch} {name : String} {routine : Routine}

/-- **A patch of a region that succeeds keeps the regions.** -/
theorem apply_sameRegistry (htarget : p.target = .region name)
    (h : p.apply m = .ok routine m') : m.SameRegistry m' := by
  cases hlease : lease p.target m with
  | error failure m₁ =>
    rw [apply_of_refused hlease] at h
    cases h
  | ok id m₁ =>
    have hleased : m.SameRegistry m₁ := by
      rw [htarget] at hlease
      exact leaseNamed_sameRegistry hlease
    rw [apply_of_lease hlease] at h
    cases hopen : Context.openDynamic (Leasehold.mk id m₁) with
    | error cause h₁ =>
      unfold overwrite at h
      rw [hopen] at h
      cases hrelease : Leasehold.release h₁ with
      | ok _ h₂ => simp only [hrelease, reduceCtorEq] at h
      | error _ h₂ => simp only [hrelease, reduceCtorEq] at h
    | ok context h₁ =>
      have hfresh : Workspace.freshContext .dynamic (Leasehold.mk id m₁) = .ok context h₁ := hopen
      have hbound : m.SameRegistry h₁.memory := by
        have hafter := Estate.freshContext_after .dynamic (Leasehold.mk id m₁)
        rw [after_of_ok hfresh] at hafter
        rcases hafter with rfl | rfl
        · exact hleased
        · exact hleased.trans (lease_sameRegistry ⟨id, m₁⟩ .attest)
      have hkeeping : (Emission.start .dynamic h₁).Keeping (Region.capacity h₁)
          fun h : Leasehold => m.SameRegistry h.memory :=
        ⟨hbound, rfl, fun _ _ hsite => nomatch hsite⟩
      rw [Estate.freshContext_fits hfresh] at hopen
      rw [overwrite_of_open hopen] at h
      cases hwrite : p.write (globalSymbol m.addresses) (Emission.start .dynamic h₁) with
      | error failure e =>
        rw [hwrite] at h
        cases h
      | ok done e =>
        rw [hwrite] at h
        cases h
        have hpreserves := write_preserves (fun c _ he =>
          EmissionCall.preserves (upheld_sameRegistry (m := m) (Region.capacity h₁)) c he) p
          (globalSymbol m.addresses)
        exact (hpreserves.ok hkeeping hwrite).region

/-- A patch of a region that succeeds is one of a region that there is. -/
theorem exists_spanNamed (htarget : p.target = .region name) (h : p.apply m = .ok routine m') :
    ∃ s, m.spanNamed? name = some s := by
  have hget : (EStateM.get : Action Memory Memory) m = .ok m m := rfl
  cases hname : m.spanNamed? name with
  | some s => exact ⟨s, rfl⟩
  | none =>
    have hlease : lease p.target m = .error (.unknownRegion name) m := by
      rw [htarget]
      refine (bind_of_ok hget).trans ?_
      rw [hname]
      rfl
    rw [apply_of_refused hlease] at h
    cases h

/-- What patches of regions leave of a memory: `patched` tells the names of the regions. -/
structure Leaves (m : Memory) (patched : String → Prop) (m' : Memory) : Prop where
  reachable : ∃ w : Estate, w.Reachable ∧ w.memory = m'
  registry : m.SameRegistry m'
  idle : m'.Idle
  /-- Cells outside the regions that were patched are as they were. -/
  cells : ∀ a : Nat, (∀ e ∈ m.entries, e.name ≠ "" → patched e.name →
    ¬(e.base.toInt ≤ a ∧ (a : Int) < e.base.toInt + e.capacity.toInt)) →
    m'.cells[a]? = m.cells[a]?

/-- **A patch of a region that succeeds writes in the region only**, and leaves an idle memory
idle. -/
theorem leaves_of_apply (hw : ∃ w : Estate, w.Reachable ∧ w.memory = m) (htidy : m.Tidy)
    (hidle : m.Idle) (htarget : p.target = .region name) (h : p.apply m = .ok routine m') :
    Leaves m (· = name) m' := by
  obtain ⟨w, hw, rfl⟩ := hw
  obtain ⟨w', hw', hm', -⟩ := apply_reachable hw p
  rw [after_of_ok h] at hm'
  obtain ⟨s, hs⟩ := exists_spanNamed htarget h
  obtain ⟨hname, hmem, hsname⟩ :=
    (hw.tables.1.spanNamed?_eq_some_iff hw.sound.tables).mp hs
  have hfree := (hidle s hmem).1
  obtain ⟨size, stack, m₀, hnew, hpath⟩ := hw.path
  obtain ⟨-, -, -, hsize⟩ := hpath.bounds hnew
  have houtcome := outcome_of_sound hw.sound.ordered hw.sound.tables hsize p
    (htarget ▸ .region hs) (htidy.encloses hmem) hfree
  rw [h] at houtcome
  cases houtcome with
  | patched hcalls hcells hlength hroom hwritten hrest hspan hframe =>
    refine ⟨⟨w', hw', hm'⟩, apply_sameRegistry htarget h, ?_, ?_⟩
    · intro t ht
      by_cases hid : t.id = s.id
      · -- the region itself is known, since no other one has its number
        have hsound := hw'.sound.tables
        rw [hm'] at hsound
        rw [hsound.eq_of_id ht hspan hid]
        exact ⟨hfree, rfl⟩
      · exact hidle t ((hframe.spans t hid).mp ht)
    · intro a ha
      have hentry : s.entry ∈ w.memory.entries := mem_entries_of_mem hmem
      refine hframe.cells a (ha s.entry hentry ?_ hsname)
      show s.name ≠ ""
      rw [hsname]
      exact hname

end Patch

namespace Patched

/-- **Patches of regions that all succeed write in their regions only**, and leave an idle memory
idle. -/
theorem leaves_of_applyAll (patches : List Patch) : ∀ {s s' : Patched},
    (∃ w : Estate, w.Reachable ∧ w.memory = s.memory) → s.memory.Tidy → s.memory.Idle →
    (∀ p ∈ patches, ∃ name, p.target = .region name) → applyAll patches s = .ok () s' →
    Patch.Leaves s.memory (fun name => ∃ p ∈ patches, p.target = .region name) s'.memory := by
  induction patches with
  | nil =>
    intro s s' hw _ hidle _ h
    cases h
    exact ⟨hw, .refl _, hidle, fun _ _ => rfl⟩
  | cons p rest ih =>
    intro s s' hw htidy hidle htargets h
    obtain ⟨⟨⟩, s₁, hfirst, hrest⟩ := ok_of_bind h
    obtain ⟨name, htarget⟩ := htargets p List.mem_cons_self
    obtain ⟨routine, happly⟩ : ∃ routine, p.apply s.memory = .ok routine s₁.memory := by
      unfold apply at hfirst
      split at hfirst
      · next routine _ happly =>
        cases hfirst
        exact ⟨routine, happly⟩
      · cases hfirst
    have hone := Patch.leaves_of_apply hw htidy hidle htarget happly
    have hsame := hone.registry.outline
    have hmore := ih hone.reachable (htidy.of_sameOutline hsame) hone.idle
      (fun q hq => htargets q (List.mem_cons_of_mem _ hq)) hrest
    refine ⟨hmore.reachable, hone.registry.trans hmore.registry, hmore.idle, ?_⟩
    intro a ha
    refine (hmore.cells a ?_).trans (hone.cells a ?_)
    · rw [hsame.entries]
      rintro e he hname ⟨q, hq, hqname⟩
      exact ha e he hname ⟨q, List.mem_cons_of_mem _ hq, hqname⟩
    · rintro e he hname rfl
      exact ha e he hname ⟨p, List.mem_cons_self, htarget⟩

end Patched

end CellMachine
