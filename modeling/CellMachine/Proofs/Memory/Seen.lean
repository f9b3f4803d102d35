import CellMachine.Proofs.Memory.Leases

/-!
# A memory seen through a lease

What a party that holds a lease does to the memory, as far as the others can tell.

* `Memory.Seen` — a memory that came out of another one, seen through one of its leases.
* `Memory.Inside` — moreover, no cell outside one region was written.
* `Memory.upheld_inside` — **an emission on a lease writes inside the region of the lease.**
-/

namespace CellMachine

namespace Memory

variable {m : Memory} {id : Nat} {l : Lease} {s : Span}

/-- A memory that came out of another one, seen through one of its leases. -/
structure Seen (m : Memory) (id : Nat) (h : Leasehold) : Prop where
  same_lease : h.lease = id
  tables : h.memory.Sound
  later : m.Later h.memory

/-- What is done through a lease keeps the view. -/
theorem Seen.call {h : Leasehold} (hseen : m.Seen id h) (c : LeaseCall) :
    m.Seen id (c.after h) where
  same_lease := (c.lease_after h).trans hseen.same_lease
  tables := hseen.tables.lease h.lease c
  later := hseen.later.trans (.lease h.memory h.lease c)

/-- What an emission does through its lease keeps the view. -/
theorem upheld_seen (capacity : Nat) :
    Region.Upheld capacity (m.Seen id) where
  store offset v _ _ hseen := hseen.call (.store offset v)
  sealUp length _ hseen := hseen.call (.sealUp length)
  poison _ hseen := hseen.call .poison

/-- A memory, seen through a lease, that differs from another one inside one region only. -/
structure Inside (m : Memory) (id : Nat) (s : Span) (h : Leasehold) : Prop extends
    m.Seen id h where
  cells : ∀ a : Nat, ¬(s.base.toInt ≤ a ∧ (a : Int) < s.base.toInt + s.capacity.toInt) →
    h.memory.cells[a]? = m.cells[a]?

/-- A call to a lease that writes no cell. -/
theorem Inside.of_cells {h : Leasehold} (hin : m.Inside id s h) (c : LeaseCall)
    (hcells : (c.after h).memory.cells = h.memory.cells) : m.Inside id s (c.after h) := by
  refine ⟨hin.toSeen.call c, ?_⟩
  rw [hcells]
  exact hin.cells

/-- A lease on a region, seen later, is still one on the region, which has not moved. -/
theorem Seen.entry_eq {h : Leasehold} (hseen : m.Seen id h) (hl : m.leases[id]? = some l)
    (hs : s ∈ m.spans) (hsl : s.id = l.span) {l' : Lease} {s' : Span}
    (hp : h.parts? = some (l', s')) : s'.id = s.id ∧ s'.entry = s.entry := by
  obtain ⟨hl', hs', hsl'⟩ := hseen.tables.parts?_eq_some_iff.mp hp
  obtain ⟨l'', hl'', hspan, -⟩ := hseen.later.leases id l hl
  obtain ⟨t, ht, htid, htentry⟩ := hseen.later.spans s hs
  rw [hseen.same_lease, hl''] at hl'
  have hll : l'' = l' := Option.some.inj hl'
  have hst : s' = t := by
    refine hseen.tables.eq_of_id hs' ht ?_
    rw [hsl', ← hll, hspan, ← hsl, htid]
  rw [hst]
  exact ⟨htid, htentry⟩

/-- **An emission on a lease writes inside the region of the lease.** -/
theorem upheld_inside (henc : m.Encloses s) (hsize : m.cells.size ≤ maxCells)
    (hl : m.leases[id]? = some l) (hs : s ∈ m.spans) (hsl : s.id = l.span) :
    Region.Upheld s.capacity.toInt.toNat (m.Inside id s) where
  store offset v ho h hin := by
    show m.Inside id s ((LeaseCall.store offset v).after h)
    refine ⟨hin.toSeen.call (.store offset v), ?_⟩
    have heffect := (LeaseCall.store offset v).effect h
    generalize (LeaseCall.store offset v).after h = h',
      (LeaseCall.store offset v).events h = events at heffect
    cases heffect with
    | nothing => exact hin.cells
    | @wrote l' s' _ _ hp hstands hbounds =>
      have haddr : (s'.base + Int64.ofInt offset).toInt = s.base.toInt + offset := by
        have hbase : s'.base = s.base := congrArg RoutineEntry.base (hin.entry_eq hl hs hsl hp).2
        rw [hbase]
        exact henc.toInt_addr hsize (by omega)
      intro a ha
      rw [← hin.cells a ha]
      refine Array.getElem?_setIfInBounds_ne ?_
      have hpos := henc.base
      omega
  sealUp length h hin := by
    refine hin.of_cells (.sealUp length) ?_
    have heffect := (LeaseCall.sealUp length).effect h
    generalize (LeaseCall.sealUp length).after h = h',
      (LeaseCall.sealUp length).events h = events at heffect
    cases heffect <;> rfl
  poison h hin := by
    refine hin.of_cells .poison ?_
    have heffect := LeaseCall.poison.effect h
    generalize LeaseCall.poison.after h = h', LeaseCall.poison.events h = events at heffect
    cases heffect <;> rfl

end Memory

end CellMachine
