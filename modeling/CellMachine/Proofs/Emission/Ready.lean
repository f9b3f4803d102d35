import CellMachine.Proofs.Emission.Region
import CellMachine.Proofs.Memory.LeaseCalls
import CellMachine.Proofs.Memory.Leases

/-!
# Regions that are ready

A region is ready for an emission if nothing about the region itself can make a call fail: every
write inside it is made, and in the end it can be sealed. The binding of a dynamic emission leaves
the cells alone, so that a region is as ready after it as before.

A buffer is ready until it is sealed or poisoned; a segment is ready if its buffer is and the
program has not moved on; a lease is ready if it stands and all its cells are cells of memory.

* `ReadyRegion` — the laws of regions that are ready.
* `Buffer.ready_of_new`, `Placement.ready_of_openBlock`, `Leasehold.ready_of_encloses` — **what has
  just been opened is ready**: a new buffer, the segment of a new block, and a standing lease on a
  region that lies inside the memory.
-/

namespace CellMachine

/-- A kind of region of which it is known when nothing about a region can make an emission fail. -/
class ReadyRegion (ρ : Type) [Region ρ] [LawfulRegion ρ] where
  /-- The region takes every write inside it and can be sealed. -/
  Ready : ρ → Prop
  /-- What is ready accepts writes. -/
  writable {r : ρ} : Ready r → LawfulRegion.Writable r
  /-- A write inside the region is made, and the region stays ready. -/
  exists_store {r : ρ} {offset : Nat} (v : Cell) : Ready r → offset < Region.capacity r →
    ∃ r', Region.store offset v r = .ok () r' ∧ Ready r'
  /-- A dynamic emission to which the region becomes bound finds it as it was. -/
  attest_ok {r r' : ρ} : Ready r → Region.attest r = .ok () r' →
    Ready r' ∧ Region.SameShape r r' ∧
      ∀ i : Nat, i < Region.capacity r → Region.load r' i = Region.load r i
  /-- A stream that fits the region can be handed over. -/
  exists_sealUp {r : ρ} {length : Nat} : Ready r → length ≤ Region.capacity r →
    ∃ r', Region.sealUp length r = .ok () r'

/-! ### Buffers -/

namespace Buffer

variable {b : Buffer}

/-- A buffer that accepts writes is neither sealed nor poisoned. -/
theorem refusal?_eq_none_iff : b.refusal? = none ↔ b.sealed? = none ∧ b.poisoned = false := by
  unfold refusal?
  cases b.sealed? <;> cases b.poisoned <;> simp

/-- A buffer that accepts writes can be sealed. -/
theorem sealUp_of_writable (h : b.refusal? = none) (length : Int) :
    sealUp length b = .ok () { b with sealed? := some length } := by
  obtain ⟨hsealed, hpoisoned⟩ := refusal?_eq_none_iff.1 h
  unfold sealUp
  rw [if_neg (by simp [hsealed, hpoisoned])]

/-- Binding a buffer notes that it is bound. -/
theorem attest_ok {b' : Buffer} (h : attest b = .ok () b') : b' = { b with bound := true } := by
  unfold attest at h
  split at h
  · cases h
  · split at h
    · cases h
    · cases h
      rfl

end Buffer

instance : ReadyRegion Buffer where
  Ready b := b.refusal? = none
  writable h := h
  exists_store {b offset} v h ho := ⟨_, Buffer.store_of_writable h ho v, h⟩
  attest_ok {b b'} h hattest := by
    cases Buffer.attest_ok hattest
    exact ⟨h, ⟨rfl, rfl, rfl⟩, fun _ _ => rfl⟩
  exists_sealUp {b length} h _ := ⟨_, Buffer.sealUp_of_writable h length⟩

/-- A new buffer is ready. -/
theorem Buffer.ready_of_new {base : Addr} {capacity : Int} {b : Buffer}
    (h : Buffer.new base capacity = .ok b) : b.base = base ∧ ReadyRegion.Ready b := by
  unfold Buffer.new zeroCells at h
  split at h
  · cases h
    exact ⟨rfl, rfl⟩
  · cases h

/-! ### Segments of blocks -/

namespace Placement

/-- What ends well on the buffer ends well on the segment. -/
theorem onBuffer_of_ok {α : Type} {action : Action Buffer α} {s : Placement} {a : α}
    {buffer : Buffer} (h : action s.segment.buffer = .ok a buffer) :
    onBuffer action s = .ok a { s with segment := { s.segment with buffer } } := by
  unfold onBuffer
  rw [h]

/-- A segment of a program that has not moved on can be sealed. -/
theorem exists_sealUp {s : Placement} (hb : s.segment.buffer.refusal? = none)
    (hhere : s.program.here = s.segment.buffer.base) {length : Nat}
    (hlen : length ≤ s.segment.buffer.cells.size) : ∃ s', sealUp length s = .ok () s' := by
  have hcontents : Buffer.contents { s.segment.buffer with sealed? := some (length : Int) } =
      .ok (s.segment.buffer.cells.extract 0 length) := by
    unfold Buffer.contents
    simp [hlen]
  rw [sealUp_eq, if_neg (not_not_intro hhere),
    onBuffer_of_ok (Buffer.sealUp_of_writable hb length)]
  simp only [hcontents]
  exact ⟨_, rfl⟩

end Placement

instance : ReadyRegion Placement where
  Ready s := ReadyRegion.Ready s.segment.buffer ∧ s.program.here = s.segment.buffer.base
  writable h := h.1
  exists_store {s offset} v h ho := by
    have hstore := Placement.onBuffer_of_ok (s := s) (Buffer.store_of_writable h.1 ho v)
    exact ⟨_, hstore, h⟩
  attest_ok {s s'} h hattest := by
    obtain ⟨buffer, hbuffer, rfl⟩ := Placement.onBuffer_ok hattest
    cases Buffer.attest_ok hbuffer
    exact ⟨h, ⟨rfl, rfl, rfl⟩, fun _ _ => rfl⟩
  exists_sealUp h hlen := Placement.exists_sealUp h.1 h.2 hlen

/-- The segment of a block that has just been opened is ready. -/
theorem Placement.ready_of_openBlock {capacity : Int} {p p' : Program} {b : Block}
    (h : Program.openBlock capacity p = .ok b p') :
    ReadyRegion.Ready (Placement.mk b.segment p') := by
  unfold Program.openBlock at h
  split at h
  · cases h
  · split at h
    · cases h
    · split at h
      · cases h
      · next buffer hbuffer =>
        cases h
        obtain ⟨hbase, hready⟩ := Buffer.ready_of_new hbuffer
        exact ⟨hready, hbase.symm⟩

/-! ### Leased memory -/

namespace Leasehold

/-- A lease stands, and every cell of its region is a cell of memory. -/
def Ready (h : Leasehold) : Prop :=
  ∃ lease span, h.parts? = some (lease, span) ∧ h.stands lease span ∧
    ∀ i : Nat, i < span.capacity.toInt.toNat → h.memory.inBounds (span.base + Int64.ofInt i)

variable {h : Leasehold} {lease : Lease} {span : Span}

/-- A standing lease on a region that lies inside the memory is ready. -/
theorem ready_of_encloses (hp : h.parts? = some (lease, span)) (hs : h.stands lease span)
    (hin : h.memory.Encloses span) (hsize : h.memory.cells.size ≤ maxCells) : h.Ready := by
  refine ⟨lease, span, hp, hs, fun i hi => Memory.inBounds_iff.2 ?_⟩
  have hlt : (i : Int) < span.capacity.toInt := by omega
  have hbase := hin.base
  have hlimit := hin.limit
  rw [hin.toInt_addr hsize hlt]
  omega

/-- A change of the record of a lease shows in its parts. -/
theorem parts?_modify (hp : h.parts? = some (lease, span)) (f : Lease → Lease)
    (hf : ∀ l, (f l).span = l.span) (cells : Array Cell) :
    parts? { h with memory := { h.memory with
      cells, leases := h.memory.leases.modify h.lease f } } = some (f lease, span) := by
  obtain ⟨hlease, hspan⟩ := parts?_eq_some_iff.1 hp
  refine parts?_eq_some_iff.2 ⟨?_, ?_⟩
  · show (h.memory.leases.modify h.lease f)[h.lease]? = some (f lease)
    rw [Array.getElem?_modify, if_pos rfl, hlease]
    rfl
  · rw [hf]
    exact hspan

/-- A lease to which an emission was bound is as it was, but for the mark that it is bound. -/
theorem eq_bindLease_of_attest (hp : h.parts? = some (lease, span)) {h' : Leasehold}
    (hattest : attest h = .ok () h') : h' = h.bindLease := by
  rw [attest_of_parts hp] at hattest
  split at hattest
  · cases hattest
  · split at hattest
    · cases hattest
    · split at hattest
      · cases hattest
      · exact (EStateM.Result.ok.inj hattest).2.symm

/-- A write inside the region is made, and the lease stays ready. -/
theorem exists_store (hr : h.Ready) {offset : Nat} (ho : offset < Region.capacity h) (v : Cell) :
    ∃ h', store offset v h = .ok () h' ∧ h'.Ready := by
  obtain ⟨lease, span, hp, hs, hin⟩ := hr
  rw [capacity_of_parts hp] at ho
  refine ⟨_, store_of_inBounds hp hs (hin offset ho) v, _, span, parts?_modify hp _ ?_ _, hs, ?_⟩
  · exact fun _ => rfl
  · intro i hi
    refine Memory.inBounds_iff.2 ?_
    have hbounds := Memory.inBounds_iff.1 (hin i hi)
    show _ ∧ _ < ((h.memory.cells.setIfInBounds _ v).size : Int)
    rwa [Array.size_setIfInBounds]

end Leasehold

instance : ReadyRegion Leasehold where
  Ready := Leasehold.Ready
  writable := fun ⟨lease, span, hp, hs, _⟩ => ⟨lease, span, hp, hs⟩
  exists_store v h ho := Leasehold.exists_store h ho v
  attest_ok {h h'} hr hattest := by
    obtain ⟨lease, span, hp, hs, hin⟩ := hr
    cases Leasehold.eq_bindLease_of_attest hp hattest
    have hp' : h.bindLease.parts? = some ({ lease with bound := true }, span) :=
      Leasehold.parts?_modify hp (fun l => { l with bound := true }) (fun _ => rfl) _
    refine ⟨⟨_, span, hp', hs, hin⟩, ⟨?_, ?_, rfl⟩, fun i _ => ?_⟩
    · rw [Leasehold.base_of_parts hp', Leasehold.base_of_parts hp]
    · rw [Leasehold.capacity_of_parts hp', Leasehold.capacity_of_parts hp]
    · rw [Leasehold.load_of_parts hp', Leasehold.load_of_parts hp]
      rfl
  exists_sealUp {h length} hr _ := by
    obtain ⟨lease, span, hp, hs, _⟩ := hr
    exact ⟨_, Leasehold.sealUp_of_open hp (Leasehold.done_of_stands hs) length⟩

end CellMachine
