import CellMachine.Proofs.Emission.Ready
import CellMachine.Proofs.Memory.Reloading
import CellMachine.Proofs.Patch.Twins

/-!
# Patches do not look at cells

A patch looks names up and writes cells. It never reads a cell: neither the contents of a variable
nor what its region held before can show in what it does. So in two memories that differ in their
cells only, a patch does the same.

* `Memory.SameButCells` — two memories are the same in everything but what their cells hold.
* `Leasehold.Veiled` — two such memories, seen through one lease; some first cells of the region are
  the same, too.
* `Leasehold.twinned_veiled` — all that an emission does to a leased region is blind to cells.
* `Patch.apply_blind` — **a patch does the same in two memories that differ in their cells only**:
  it fails with the same failure, or emits the same routine with the same cells.
-/

namespace CellMachine

open CellMachine.Action

namespace Memory

/-- Two memories are the same in everything but what their cells hold. -/
structure SameButCells (m m' : Memory) : Prop where
  size : m'.cells.size = m.cells.size
  next : m'.next = m.next
  limit : m'.limit = m.limit
  spans : m'.spans = m.spans
  names : m'.names = m.names
  leases : m'.leases = m.leases
  addresses : m'.addresses = m.addresses
  order : m'.order = m.order

variable {m m' : Memory}

/-- The other memory has the cells that it has, and is otherwise the one. -/
theorem SameButCells.eq_withCells (h : m.SameButCells m') : m' = withCells m'.cells m := by
  obtain ⟨cells, next, limit, spans, names, leases, addresses, order⟩ := m
  obtain ⟨cells', next', limit', spans', names', leases', addresses', order'⟩ := m'
  obtain ⟨hsize, rfl, rfl, rfl, rfl, rfl, rfl, rfl⟩ := h
  rfl

/-- A memory with other cells, as many as before. -/
theorem sameButCells_withCells {cells : Array Cell} (hsize : cells.size = m.cells.size) :
    m.SameButCells (withCells cells m) := ⟨hsize, rfl, rfl, rfl, rfl, rfl, rfl, rfl⟩

/-- The addresses of the cells are the same. -/
theorem SameButCells.inBounds (h : m.SameButCells m') (a : Addr) :
    m'.inBounds a = m.inBounds a := by
  unfold Memory.inBounds
  rw [h.size]

/-! ### Leases -/

/-- Opening a lease does not look at cells. -/
theorem openLease_commutes (cells : Array Cell) (s : Span) :
    Commutes (withCells cells) (openLease s) := by
  intro m
  rw [openLease_eq, openLease_eq]
  by_cases hleased : s.lease?.isSome
  · rw [if_pos hleased, if_pos hleased]
    rfl
  · rw [if_neg hleased, if_neg hleased]
    by_cases hrunning : 0 < s.running
    · rw [if_pos hrunning, if_pos hrunning]
      rfl
    · rw [if_neg hrunning, if_neg hrunning]
      rfl

/-- The lease of a patch does not look at cells. -/
theorem lease_commutes (cells : Array Cell) (target : PatchTarget) :
    Commutes (withCells cells) (Patch.lease target) := by
  cases target with
  | region name =>
    refine .get_bind (fun m => rfl) fun m => ?_
    cases m.spanNamed? name with
    | none => exact .throw _
    | some s => exact openLease_commutes cells s
  | range base capacity =>
    refine .get_bind (fun m => rfl) fun m => .refuse ?_
    cases m.find? base with
    | none => exact .bind (register_commutes cells "" base capacity) (openLease_commutes cells)
    | some s => exact .refuse (openLease_commutes cells s)

/-- The lease of a patch leaves the cells alone. -/
theorem lease_cells (target : PatchTarget) (cells : Array Cell) :
    Preserves (fun m : Memory => m.cells = cells) (Patch.lease target) := by
  have hopen (s : Span) : Preserves (fun m : Memory => m.cells = cells) (openLease s) := by
    intro m hm
    unfold after
    rw [openLease_eq]
    by_cases hleased : s.lease?.isSome
    · rwa [if_pos hleased]
    · rw [if_neg hleased]
      by_cases hrunning : 0 < s.running
      · rwa [if_pos hrunning]
      · rwa [if_neg hrunning]
  cases target with
  | region name =>
    refine .get_bind fun m _ => ?_
    cases m.spanNamed? name with
    | none => exact .throw _
    | some s => exact hopen s
  | range base capacity =>
    refine .get_bind fun m _ => .refuse ?_
    cases m.find? base with
    | none => exact .bind (fun m hm => (register_cells "" base capacity m).trans hm) hopen
    | some s => exact .refuse (hopen s)

/-- **The lease of a patch is opened in both memories, or refused in both.** -/
theorem SameButCells.lease (h : m.SameButCells m') (target : PatchTarget) :
    InStep SameButCells (Patch.lease target m) (Patch.lease target m') := by
  have hsame := lease_commutes m'.cells target m
  rw [← h.eq_withCells] at hsame
  have hcells := lease_cells target m.cells m rfl
  rw [hsame]
  cases hlease : Patch.lease target m with
  | ok id m₁ =>
    rw [after_of_ok hlease] at hcells
    exact .ok (sameButCells_withCells (by rw [hcells]; exact h.size))
  | error failure m₁ =>
    rw [after_of_error hlease] at hcells
    exact .error ⟨rfl, sameButCells_withCells (by rw [hcells]; exact h.size)⟩

end Memory

/-! ### Leased regions -/

namespace Leasehold

variable {n : Nat} {h h' : Leasehold}

/-- Two memories that differ in their cells only, seen through one lease. The first `n` cells of the
region can be read and are the same, too. -/
structure Veiled (n : Nat) (h h' : Leasehold) : Prop where
  lease : h'.lease = h.lease
  memory : h.memory.SameButCells h'.memory
  cells : ∀ i : Nat, i < n → ∃ v, Region.load h i = .ok v ∧ Region.load h' i = .ok v

/-- Memories that differ in their cells only, without a look at the region. -/
theorem veiled_zero (hlease : h'.lease = h.lease) (hmemory : h.memory.SameButCells h'.memory) :
    Veiled 0 h h' := ⟨hlease, hmemory, fun i hi => absurd hi (Nat.not_lt_zero i)⟩

/-- The lease and its region are the same. -/
theorem Veiled.parts? (hv : Veiled n h h') : h'.parts? = h.parts? := by
  unfold Leasehold.parts? Memory.span?
  rw [hv.lease, hv.memory.leases, hv.memory.spans]

/-- The lease stands in both memories or in none. -/
theorem Veiled.stands (hv : Veiled n h h') (lease : Lease) (span : Span) :
    h'.stands lease span = h.stands lease span := by
  unfold Leasehold.stands
  rw [hv.lease]

/-- The cells of the region do not matter. -/
theorem Veiled.forget (hv : Veiled n h h') : Veiled 0 h h' := veiled_zero hv.lease hv.memory

/-- Writing one cell leaves all differences in cells. -/
theorem Veiled.wrote_memory (hv : Veiled n h h') (a : Addr) (v : Cell) :
    (h.wrote a v).memory.SameButCells (h'.wrote a v).memory := by
  have hm := hv.memory
  refine ⟨?_, hm.next, hm.limit, hm.spans, hm.names, ?_, hm.addresses, hm.order⟩
  · unfold wrote
    dsimp only
    rw [Array.size_setIfInBounds, Array.size_setIfInBounds, hm.size]
  · unfold wrote
    dsimp only
    rw [hm.leases, hv.lease]

/-- Closing the lease leaves all differences in cells. -/
theorem Veiled.close_memory (hv : Veiled n h h') (span : Span) (f : Span → Span) :
    (h.close span f).memory.SameButCells (h'.close span f).memory := by
  have hm := hv.memory
  refine ⟨hm.size, hm.next, hm.limit, ?_, hm.names, ?_, hm.addresses, hm.order⟩
  · unfold Leasehold.close Memory.updateSpan
    dsimp only
    rw [hm.spans]
  · unfold Leasehold.close Memory.updateSpan
    dsimp only
    rw [hm.leases, hv.lease]

/-- The parts of a lease under which a cell was written. -/
theorem parts?_wrote {l : Lease} {s : Span} (hp : h.parts? = some (l, s)) (a : Addr) (v : Cell) :
    (h.wrote a v).parts? = some ({ l with written := true }, s) :=
  parts?_modify hp (fun l => { l with written := true }) (fun _ => rfl) _

/-- The region after one cell was written. -/
theorem load_wrote {lease : Lease} {span : Span} (hp : h.parts? = some (lease, span)) {a : Addr}
    (hin : h.memory.inBounds a) (v : Cell) (i : Nat) :
    Region.load (h.wrote a v) i =
      if span.base + Int64.ofInt i = a then .ok v else Region.load h i := by
  rw [load_of_parts (parts?_wrote hp a v), load_of_parts hp]
  exact Memory.get_set hin v _

/-- The parts of a lease that was closed. -/
theorem parts?_close {lease : Lease} {span : Span} (hp : h.parts? = some (lease, span))
    {f : Span → Span} (hf : ∀ s, (f s).id = s.id) :
    (h.close span f).parts? = some ({ lease with done := true }, f span) := by
  obtain ⟨hlease, hspan⟩ := parts?_eq_some_iff.mp hp
  refine parts?_eq_some_iff.mpr ⟨?_, ?_⟩
  · show (h.memory.leases.modify h.lease _)[h.lease]? = _
    rw [Array.getElem?_modify, if_pos rfl, hlease]
    rfl
  · refine (Memory.span?_updateSpan _ span.id hf lease.span).trans ?_
    change (h.memory.span? lease.span).map _ = _
    rw [hspan, Option.map_some, if_pos rfl]

/-- Closing the lease leaves the cells of the region alone. -/
theorem load_close {lease : Lease} {span : Span} (hp : h.parts? = some (lease, span))
    {f : Span → Span} (hf : ∀ s, (f s).entry = s.entry ∧ (f s).id = s.id) (i : Nat) :
    Region.load (h.close span f) i = Region.load h i := by
  have hbase : (f span).base = span.base := congrArg RoutineEntry.base (hf span).1
  rw [load_of_parts (parts?_close hp fun s => (hf s).2), load_of_parts hp, hbase]
  rfl

/-- Closing the lease in both memories. -/
theorem Veiled.close (hv : Veiled n h h') {lease : Lease} {span : Span}
    (hp : h.parts? = some (lease, span)) {f : Span → Span}
    (hf : ∀ s, (f s).entry = s.entry ∧ (f s).id = s.id) :
    Veiled n (h.close span f) (h'.close span f) := by
  refine ⟨hv.lease, hv.close_memory span f, fun i hi => ?_⟩
  rw [load_close hp hf, load_close (hv.parts?.trans hp) hf]
  exact hv.cells i hi

/-- A write is made in both memories, or refused in both; a cell that was written is the same. -/
theorem Veiled.store {k offset : Nat} (hv : Veiled n h h') (v : Cell)
    (hk : ∀ i < k, i < n ∨ i = offset) :
    InStepTo Veiled k (Leasehold.store offset v h) (Leasehold.store offset v h') := by
  cases hp : h.parts? with
  | none =>
    unfold Leasehold.store
    rw [withParts_of_none hp, withParts_of_none (hv.parts?.trans hp)]
    exact .error ⟨rfl, hv.forget⟩
  | some parts =>
    obtain ⟨lease, span⟩ := parts
    have hp' := hv.parts?.trans hp
    by_cases hs : h.stands lease span
    · have hs' : h'.stands lease span := (hv.stands lease span).trans hs
      by_cases hin : h.memory.inBounds (span.base + Int64.ofInt offset)
      · have hin' : h'.memory.inBounds (span.base + Int64.ofInt offset) :=
          (hv.memory.inBounds _).trans hin
        rw [store_of_inBounds hp hs hin, store_of_inBounds hp' hs' hin']
        refine .ok ⟨hv.lease, hv.wrote_memory _ v, fun i hi => ?_⟩
        rw [load_wrote hp hin, load_wrote hp' hin']
        by_cases hsame : span.base + Int64.ofInt i = span.base + Int64.ofInt offset
        · rw [if_pos hsame, if_pos hsame]
          exact ⟨v, rfl, rfl⟩
        · rw [if_neg hsame, if_neg hsame]
          exact hv.cells i ((hk i hi).resolve_right fun heq => hsame (by rw [heq]))
      · have hin' : ¬h'.memory.inBounds (span.base + Int64.ofInt offset) := by
          rw [hv.memory.inBounds]
          exact hin
        rw [store_of_outside hp hs hin, store_of_outside hp' hs' hin']
        exact .error ⟨rfl, hv.forget⟩
    · have hs : h.stands lease span = false := by simpa using hs
      have hs' : h'.stands lease span = false := (hv.stands lease span).trans hs
      rw [store_of_fallen hp hs, store_of_fallen hp' hs']
      exact .error ⟨rfl, hv.forget⟩

/-- **All that an emission does to a leased region is blind to cells.** -/
theorem twinned_veiled : Region.Twinned Veiled where
  base {n h h'} hv := by
    simp only [Region.base, hv.parts?]
  forget hv := hv.forget
  store offset v hv hk := hv.store v hk
  sealUp {n h h'} length hv := by
    show InStepTo Veiled n (Leasehold.sealUp length h) (Leasehold.sealUp length h')
    cases hp : h.parts? with
    | none =>
      unfold Leasehold.sealUp
      rw [withParts_of_none hp, withParts_of_none (hv.parts?.trans hp)]
      exact .error ⟨rfl, hv.forget⟩
    | some parts =>
      obtain ⟨lease, span⟩ := parts
      rw [sealUp_of_parts hp, sealUp_of_parts (hv.parts?.trans hp)]
      by_cases hdone : lease.done
      · rw [if_pos hdone, if_pos hdone]
        exact .error ⟨rfl, hv.forget⟩
      · rw [if_neg hdone, if_neg hdone]
        exact .ok (hv.close (f := sealedSpan length) hp fun _ => ⟨rfl, rfl⟩)
  poison {n h h'} hv := by
    show InStepTo Veiled n (Leasehold.poison h) (Leasehold.poison h')
    cases hp : h.parts? with
    | none =>
      unfold Leasehold.poison
      rw [withParts_of_none hp, withParts_of_none (hv.parts?.trans hp)]
      exact .error ⟨rfl, hv.forget⟩
    | some parts =>
      obtain ⟨lease, span⟩ := parts
      rw [poison_of_parts hp, poison_of_parts (hv.parts?.trans hp)]
      by_cases hdone : lease.done
      · rw [if_pos hdone, if_pos hdone]
        exact .error ⟨rfl, hv.forget⟩
      · rw [if_neg hdone, if_neg hdone]
        exact .ok (hv.close hp fun _ => ⟨rfl, rfl⟩)

/-- A lease is bound to an emission in both memories, or in none. -/
theorem Veiled.attest (hv : Veiled n h h') :
    InStep (Veiled 0) (Leasehold.attest h) (Leasehold.attest h') := by
  cases hp : h.parts? with
  | none =>
    unfold Leasehold.attest
    rw [withParts_of_none hp, withParts_of_none (hv.parts?.trans hp)]
    exact .error ⟨rfl, hv.forget⟩
  | some parts =>
    obtain ⟨lease, span⟩ := parts
    rw [attest_of_parts hp, attest_of_parts (hv.parts?.trans hp), hv.stands]
    by_cases hs : h.stands lease span = false
    · rw [if_pos hs, if_pos hs]
      exact .error ⟨rfl, hv.forget⟩
    rw [if_neg hs, if_neg hs]
    by_cases hrunning : 0 < span.running
    · rw [if_pos hrunning, if_pos hrunning]
      exact .error ⟨rfl, hv.forget⟩
    rw [if_neg hrunning, if_neg hrunning]
    by_cases hbound : lease.bound
    · rw [if_pos hbound, if_pos hbound]
      exact .error ⟨rfl, hv.forget⟩
    · rw [if_neg hbound, if_neg hbound]
      have hm := hv.memory
      refine .ok (veiled_zero hv.lease
        ⟨hm.size, hm.next, hm.limit, hm.spans, hm.names, ?_, hm.addresses, hm.order⟩)
      unfold bindLease
      dsimp only
      rw [hm.leases, hv.lease]

/-- A lease is given up in both memories. -/
theorem Veiled.release (hv : Veiled n h h') :
    InStep (Veiled 0) (Leasehold.release h) (Leasehold.release h') := by
  cases hp : h.parts? with
  | none =>
    unfold Leasehold.release
    rw [withParts_of_none hp, withParts_of_none (hv.parts?.trans hp)]
    exact .error ⟨rfl, hv.forget⟩
  | some parts =>
    obtain ⟨lease, span⟩ := parts
    rw [release_of_parts hp, release_of_parts (hv.parts?.trans hp)]
    by_cases hdone : lease.done
    · rw [if_pos hdone, if_pos hdone]
      exact .ok hv.forget
    · rw [if_neg hdone, if_neg hdone]
      exact .ok (veiled_zero hv.lease (hv.close_memory span _))

end Leasehold

/-! ### Patches -/

namespace Patch

open CellMachine.Memory CellMachine.Leasehold CellMachine.Emission

variable {n : Nat} {h h' : Leasehold}

/-- A dynamic emission is opened in both memories with the same context, or in none. -/
theorem openDynamic_veiled (hv : Veiled n h h') :
    Matches (fun context r r' => context.cursor = 0 ∧ Veiled 0 r r')
      (fun f g r r' => f = g ∧ Veiled 0 r r') (Context.openDynamic h) (Context.openDynamic h') := by
  have hattest := hv.attest
  have hfresh {r r' : Leasehold} (hr : Veiled 0 r r') :
      Context.fresh .dynamic r' = Context.fresh .dynamic r := by
    have hcapacity : Region.capacity r' = Region.capacity r := by
      simp only [Region.capacity, hr.parts?]
    unfold Context.fresh
    rw [hcapacity]
    rfl
  unfold Context.openDynamic
  change InStep (Veiled 0) (Region.attest h) (Region.attest h') at hattest
  generalize Region.attest h = o, Region.attest h' = o' at hattest
  cases hattest with
  | ok hr =>
    dsimp only
    rw [hfresh hr]
    exact .ok ⟨rfl, hr⟩
  | error hr => exact .error ⟨congrArg Failure.attestRefused hr.1, hr.2⟩

/-- **A body is written alike in twin regions**, or fails in both at the same point. -/
theorem write_twinned {R : Nat → Leasehold → Leasehold → Prop} (hR : Region.Twinned R) (p : Patch)
    (symbols : SymbolTable) {e e' : Emission Leasehold} (he : Paced R e e') :
    Matches
      (fun routine e e' => routine.base = Region.base e.region ∧
        R routine.length e.region e'.region)
      (fun f g e e' => f = g ∧ Stopped R e e') (p.write symbols e) (p.write symbols e') := by
  refine (hR.statements (some symbols) p.body he).bind fun _ f f' hf => ?_
  refine InStepTo.at p.pos ?_
  have hfinal := hR.finalize hf
  generalize Emission.finalize f = o, Emission.finalize f' = o' at hfinal
  cases hfinal with
  | ok h => exact .ok h
  | error h => exact .error ⟨congrArg (Failure.inPatch p.target.text) h.1, h.2⟩

/-- A failed patch is given up in the same way in both memories. -/
theorem abandon_veiled (failure : Failure) {e e' : Emission Leasehold}
    (he : Stopped Veiled e e') :
    (abandon failure e').1 = (abandon failure e).1 ∧
      Veiled 0 (abandon failure e).2 (abandon failure e').2 := by
  have hdiscard := twinned_veiled.discard he
  cases he with
  | @intro c r r' hpos hr =>
    have hrelease := hr.release
    unfold abandon
    by_cases hcursor : c.cursor = 0
    · rw [if_pos hcursor, if_pos hcursor]
      dsimp only
      generalize Leasehold.release r = o, Leasehold.release r' = o' at hrelease
      cases hrelease with
      | ok h => exact ⟨rfl, h⟩
      | error h => exact ⟨rfl, h.2⟩
    · rw [if_neg hcursor, if_neg hcursor]
      generalize Emission.discard (Emission.mk c r) = o, Emission.discard (Emission.mk c r') = o'
        at hdiscard
      have hregions {f f' : Emission Leasehold} (hf : Stopped Veiled f f') :
          Veiled 0 f.region f'.region := by
        cases hf with
        | intro _ hr => exact hr
      cases hdiscard with
      | ok h => exact ⟨rfl, hregions h⟩
      | error h =>
        obtain ⟨rfl, h⟩ := h
        exact ⟨rfl, hregions h⟩

/-- **A leased region is overwritten alike in both memories**, or given up in both. -/
theorem overwrite_veiled (p : Patch) (symbols : SymbolTable) (hv : Veiled n h h') :
    Matches
      (fun routine r r' => routine.base = Region.base r ∧ Veiled routine.length r r')
      (fun f g r r' => f = g ∧ Veiled 0 r r') (p.overwrite symbols h) (p.overwrite symbols h') := by
  have hopen := openDynamic_veiled hv
  unfold overwrite
  generalize Context.openDynamic h = o, Context.openDynamic h' = o' at hopen
  cases hopen with
  | @error f g r r' hr =>
    obtain ⟨rfl, hr⟩ := hr
    have hrelease := hr.release
    dsimp only
    generalize Leasehold.release r = o, Leasehold.release r' = o' at hrelease
    cases hrelease with
    | ok h => exact .error ⟨rfl, h⟩
    | error h => exact .error ⟨rfl, h.2⟩
  | @ok c r r' hr =>
    obtain ⟨hcursor, hr⟩ := hr
    have hpaced : Paced Veiled ⟨c, r⟩ ⟨c, r'⟩ := .intro rfl (hcursor ▸ hr)
    dsimp only
    have hwrite := write_twinned twinned_veiled p symbols hpaced
    generalize p.write symbols (Emission.mk c r) = o, p.write symbols (Emission.mk c r') = o'
      at hwrite
    cases hwrite with
    | ok h =>
      dsimp only
      exact .ok h
    | @error f g e e' h =>
      obtain ⟨rfl, he⟩ := h
      dsimp only
      obtain ⟨hfailure, hregion⟩ := abandon_veiled f he
      exact .error ⟨hfailure.symm, hregion⟩

/-- **A patch does the same in two memories that differ in their cells only.** It fails in both with
the same failure, at the same place; or it leaves the same routine in both, of which every cell is
the same. Either way the memories differ in their cells only afterwards, so that the regions have
the same lengths and flags. -/
theorem apply_blind {m m' : Memory} (h : m.SameButCells m') (p : Patch) :
    Matches
      (fun routine m₁ m₁' => m₁.SameButCells m₁' ∧ ∀ i : Nat, i < routine.length →
        ∃ v, m₁.load (routine.base + Int64.ofInt i) = .ok v ∧
          m₁'.load (routine.base + Int64.ofInt i) = .ok v)
      (fun f g m₁ m₁' => f = g ∧ m₁.SameButCells m₁') (p.apply m) (p.apply m') := by
  have hlease := h.lease p.target
  cases hgrant : lease p.target m with
  | error failure m₁ =>
    rw [hgrant] at hlease
    cases hgrant' : lease p.target m' with
    | ok id m₁' =>
      rw [hgrant'] at hlease
      cases hlease
    | error failure' m₁' =>
      rw [hgrant'] at hlease
      cases hlease with
      | error hsame =>
        obtain ⟨rfl, hsame⟩ := hsame
        rw [apply_of_refused hgrant, apply_of_refused hgrant']
        exact .error ⟨rfl, hsame⟩
  | ok id m₁ =>
    rw [hgrant] at hlease
    cases hgrant' : lease p.target m' with
    | error failure' m₁' =>
      rw [hgrant'] at hlease
      cases hlease
    | ok id' m₁' =>
      rw [hgrant'] at hlease
      cases hlease with
      | ok hsame =>
        have hveiled : Veiled 0 (Leasehold.mk id m₁) (Leasehold.mk id m₁') :=
          veiled_zero rfl hsame
        have hover := overwrite_veiled p (globalSymbol m.addresses) hveiled
        rw [apply_of_lease hgrant, apply_of_lease hgrant', h.addresses]
        generalize p.overwrite (globalSymbol m.addresses) (Leasehold.mk id m₁) = o,
          p.overwrite (globalSymbol m.addresses) (Leasehold.mk id m₁') = o' at hover
        cases hover with
        | error hr => exact .error ⟨hr.1, hr.2.memory⟩
        | @ok routine r r' hr =>
          obtain ⟨hbase, hv⟩ := hr
          refine .ok ⟨hv.memory, fun i hi => ?_⟩
          obtain ⟨v, hload, hload'⟩ := hv.cells i hi
          cases hp : r.parts? with
          | none =>
            have hcrash : Region.load r i = .error .crash := by
              show Leasehold.load r i = _
              unfold Leasehold.load
              rw [hp]
            rw [hcrash] at hload
            cases hload
          | some parts =>
            obtain ⟨l, s⟩ := parts
            rw [load_of_parts hp] at hload
            rw [load_of_parts (hv.parts?.trans hp)] at hload'
            rw [hbase, base_of_parts hp]
            exact ⟨v, load_of_get hload, load_of_get hload'⟩

/-- A memory with a variable and a region, all cells of which hold the same. -/
def sampleFilled (v : Cell) : Memory where
  cells := Array.replicate 16 v
  next := 5
  limit := 8
  spans := #[{ id := 0, name := "hook", base := 1, capacity := 4 }]
  names := ⟨[("hook", 0)]⟩
  addresses := ⟨[("x", 0)]⟩
  order := ["x"]

/-- A patch that loads a variable again and again. -/
def sampleLoading : Patch where
  pos := ⟨1, 1⟩
  target := .region "hook"
  body := [
    { pos := ⟨2, 1⟩, label? := some "top", op? := some "LOAD.P"
      args := [{ pos := ⟨2, 8⟩, text := "&x" }] },
    { pos := ⟨3, 1⟩, op? := some "JREL", args := [{ pos := ⟨3, 6⟩, text := ":top" }] }]

/-- The variable holds zero in the one memory and seven in the other. The patch emits the same four
cells. -/
theorem apply_blind_sample :
    (sampleFilled 0).SameButCells (sampleFilled 7) ∧ ∃ routine m₁ m₁',
      sampleLoading.apply (sampleFilled 0) = .ok routine m₁ ∧
      sampleLoading.apply (sampleFilled 7) = .ok routine m₁' ∧ routine.length = 4 ∧
      ∀ i : Nat, i < 4 → ∃ v, m₁.load (routine.base + Int64.ofInt i) = .ok v ∧
        m₁'.load (routine.base + Int64.ofInt i) = .ok v := by
  have hsame : (sampleFilled 0).SameButCells (sampleFilled 7) :=
    ⟨rfl, rfl, rfl, rfl, rfl, rfl, rfl, rfl⟩
  have hlength : (sampleLoading.apply.result? (sampleFilled 0)).map (fun r => r.1.length) =
      some 4 := by decide +kernel
  obtain ⟨⟨routine, m₁⟩, hresult, hfour⟩ := Option.map_eq_some_iff.mp hlength
  have hone := of_result? hresult
  have hboth := apply_blind hsame sampleLoading
  rw [hone] at hboth
  refine ⟨hsame, routine, m₁, ?_⟩
  cases htwo : sampleLoading.apply (sampleFilled 7) with
  | error failure m₁' =>
    rw [htwo] at hboth
    cases hboth
  | ok routine' m₁' =>
    rw [htwo] at hboth
    cases hboth with
    | ok hcells => exact ⟨m₁', hone, rfl, hfour, fun i hi => hcells.2 i (hfour ▸ hi)⟩

end Patch

end CellMachine
