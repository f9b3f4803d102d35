import CellMachine.Memory.Lease
import CellMachine.Program.Block
import CellMachine.Proofs.Action

/-!
# The laws of regions

What an emission may rely on in the region that it writes into, and the proof that buffers, the
segments of blocks and leased memory all keep to it.

* `Region.SameShape` — two states of a region with the same place and size.
* `Surrounded` — what is around a region and no write to the region touches.
* `Region.Stored` — one cell of a region was set and nothing else was changed.
* `LawfulRegion` — a region that accepts writes (`Writable`) sets the cell that it is told to set;
  a write inside the region fails by a crash only; sealing leaves the cells alone.

A buffer accepts writes until it is sealed or poisoned, and a segment does as long as its buffer
does. Leased memory accepts writes while the lease stands. The range of a lease may stick out of
memory, and a write outside memory crashes; so the laws speak about writes that were made.
-/

namespace CellMachine

namespace Region

variable {ρ : Type} [Region ρ]

/-- Two states of a region agree about its place and its size. -/
structure SameShape (r r' : ρ) : Prop where
  base : Region.base r' = Region.base r
  capacity : Region.capacity r' = Region.capacity r
  origin : Region.origin r' = Region.origin r

/-- Sharing a shape is transitive. -/
theorem SameShape.trans {r₁ r₂ r₃ : ρ} (h₁ : SameShape r₁ r₂) (h₂ : SameShape r₂ r₃) :
    SameShape r₁ r₃ :=
  ⟨h₂.base.trans h₁.base, h₂.capacity.trans h₁.capacity, h₂.origin.trans h₁.origin⟩

end Region

/-- What is known of a region beyond the region itself. -/
class Surrounded (ρ : Type) where
  Surroundings : Type
  surroundings : ρ → Surroundings

namespace Region

variable {ρ : Type} [Region ρ] [Surrounded ρ]

/-- Two states of a region agree about its shape and about all that is around it. -/
structure Kept (r r' : ρ) : Prop extends SameShape r r' where
  surroundings : Surrounded.surroundings r' = Surrounded.surroundings r

/-- Keeping is reflexive. -/
theorem Kept.refl (r : ρ) : Kept r r := ⟨⟨rfl, rfl, rfl⟩, rfl⟩

/-- Keeping is transitive. -/
theorem Kept.trans {r₁ r₂ r₃ : ρ} (h₁ : Kept r₁ r₂) (h₂ : Kept r₂ r₃) : Kept r₁ r₃ :=
  ⟨h₁.toSameShape.trans h₂.toSameShape, h₂.surroundings.trans h₁.surroundings⟩

/-- The cell at `offset` was set to `v`, and every other cell was left alone. -/
structure Stored (r : ρ) (offset : Nat) (v : Cell) (r' : ρ) : Prop extends Kept r r' where
  load : ∀ i : Nat, i < Region.capacity r →
    Region.load r' i = if i = offset then .ok v else Region.load r i

end Region

/-- A region that keeps to the laws of regions. -/
class LawfulRegion (ρ : Type) [Region ρ] extends Surrounded ρ where
  /-- The region accepts writes. -/
  Writable : ρ → Prop
  /-- A write that was made set its cell, and the region still accepts writes. -/
  store_ok {r r' : ρ} {offset : Nat} {v : Cell} : Writable r → offset < Region.capacity r →
    Region.store offset v r = .ok () r' → Writable r' ∧ Region.Stored r offset v r'
  /-- A write inside the region is never refused. -/
  store_error {r r' : ρ} {offset : Nat} {v : Cell} {failure : Failure} : Writable r →
    offset < Region.capacity r → Region.store offset v r = .error failure r' → failure.crashed
  /-- Sealing leaves the cells where they are. -/
  sealUp_ok {r r' : ρ} {length : Int} : Writable r → Region.sealUp length r = .ok () r' →
    Region.SameShape r r' ∧
      ∀ i : Nat, i < Region.capacity r → Region.load r' i = Region.load r i

/-! ### Buffers -/

namespace Buffer

/-- A cell of a buffer is the cell of its array. -/
theorem load_natCast (b : Buffer) (i : Nat) :
    b.load i = (b.cells[i]?).elim (.error .crash) .ok := by
  unfold load
  rw [if_neg (by omega), Int.toNat_natCast]
  cases b.cells[i]? <;> rfl

/-- A buffer that accepts writes sets one cell of its array. -/
theorem store_of_writable {b : Buffer} (hb : b.refusal? = none) {offset : Nat}
    (ho : offset < b.cells.size) (v : Cell) :
    store offset v b = .ok () { b with cells := b.cells.setIfInBounds offset v } := by
  unfold store
  rw [hb]
  simp only [Int.toNat_natCast]
  rw [if_pos ⟨by omega, ho⟩]

/-- Setting a cell of the array is setting that cell of the buffer. -/
theorem load_set {b : Buffer} {offset : Nat} (v : Cell) (ho : offset < b.cells.size) (i : Nat) :
    load { b with cells := b.cells.setIfInBounds offset v } i =
      if i = offset then .ok v else b.load i := by
  simp only [load_natCast, Array.getElem?_setIfInBounds]
  by_cases hi : offset = i
  · subst hi
    simp [ho]
  · simp [hi, Ne.symm hi]

/-- Sealing touches no cell. -/
theorem sealUp_ok {b b' : Buffer} {length : Int} (h : sealUp length b = .ok () b') :
    b' = { b with sealed? := some length } := by
  unfold sealUp at h
  split at h
  · cases h
  · cases h
    rfl

end Buffer

instance : Surrounded Buffer where
  Surroundings := Unit
  surroundings _ := ()

instance : LawfulRegion Buffer where
  Writable b := b.refusal? = none
  store_ok {b b' offset v} hb ho h := by
    change Buffer.store offset v b = .ok () b' at h
    rw [Buffer.store_of_writable hb ho] at h
    cases h
    refine ⟨hb, ⟨⟨rfl, ?_, rfl⟩, rfl⟩, fun i _ => Buffer.load_set v ho i⟩
    exact Array.size_setIfInBounds
  store_error {b b' offset v failure} hb ho h := by
    change Buffer.store offset v b = .error failure b' at h
    rw [Buffer.store_of_writable hb ho] at h
    cases h
  sealUp_ok {b b' length} _ h := by
    cases Buffer.sealUp_ok h
    exact ⟨⟨rfl, rfl, rfl⟩, fun _ _ => rfl⟩

/-! ### Segments of blocks -/

/-- A program but for its variables, which can be declared at any time. -/
def Program.withoutScope (p : Program) : Program := { p with scope := {} }

namespace Placement

/-- What ends well on a segment did so on its buffer, and touched the buffer alone. -/
theorem onBuffer_ok {α : Type} {action : Action Buffer α} {s s' : Placement} {a : α}
    (h : onBuffer action s = .ok a s') :
    ∃ buffer, action s.segment.buffer = .ok a buffer ∧
      s' = { s with segment := { s.segment with buffer } } := by
  unfold onBuffer at h
  split at h
  · next buffer hbuffer =>
    cases h
    exact ⟨buffer, hbuffer, rfl⟩
  · cases h

/-- What fails on a segment failed on its buffer. -/
theorem onBuffer_error {α : Type} {action : Action Buffer α} {s s' : Placement}
    {failure : Failure} (h : onBuffer action s = .error failure s') :
    ∃ buffer, action s.segment.buffer = .error failure buffer := by
  unfold onBuffer at h
  split at h
  · cases h
  · next buffer hbuffer =>
    cases h
    exact ⟨buffer, hbuffer⟩

/-- Sealing a segment of a place in the program: it fails if the program has moved on, or the buffer
is not open. -/
theorem sealUp_eq (length : Int) (s : Placement) :
    sealUp length s =
      if s.program.here ≠ s.segment.buffer.base then
        .error (.siteMoved s.segment.buffer.base s.program.here) s
      else match onBuffer (Buffer.sealUp length) s with
        | .error failure s' => .error failure s'
        | .ok () s' =>
          match s'.segment.buffer.contents with
          | .error failure => .error failure s'
          | .ok cells => .ok () { s' with program := s'.program.append cells } := by
  have hget (s : Placement) : (MonadState.get : Action Placement Placement) s = .ok s s := rfl
  unfold sealUp
  rw [Action.bind_of_ok (hget s)]
  by_cases hhere : s.program.here ≠ s.segment.buffer.base
  · rw [if_pos hhere, if_pos hhere]
    rfl
  · rw [if_neg hhere, if_neg hhere]
    cases hseal : onBuffer (Buffer.sealUp length) s with
    | error failure s' => exact Action.bind_of_error hseal
    | ok _ s' =>
      refine (Action.bind_of_ok hseal).trans ((Action.bind_of_ok (hget s')).trans ?_)
      dsimp only
      cases s'.segment.buffer.contents with
      | error failure => rfl
      | ok cells => rfl

/-- Sealing a segment seals its buffer and appends the stream to the program, which must still be
where it was when the segment was opened. -/
theorem sealUp_ok {s s' : Placement} {length : Int} (h : sealUp length s = .ok () s') :
    ∃ cells, s.program.here = s.segment.buffer.base ∧
      Buffer.contents { s.segment.buffer with sealed? := some length } = .ok cells ∧
      s' = { segment := { s.segment with
               buffer := { s.segment.buffer with sealed? := some length } }
             program := s.program.append cells } := by
  unfold sealUp at h
  obtain ⟨_, _, hget, h⟩ := Action.ok_of_bind h
  cases hget
  by_cases hhere : s.program.here = s.segment.buffer.base
  · rw [if_neg (not_not_intro hhere)] at h
    obtain ⟨_, s₁, hseal, h⟩ := Action.ok_of_bind h
    obtain ⟨buffer, hbuffer, rfl⟩ := onBuffer_ok hseal
    cases Buffer.sealUp_ok hbuffer
    obtain ⟨_, _, hget, h⟩ := Action.ok_of_bind h
    cases hget
    obtain ⟨cells, _, hcells, h⟩ := Action.ok_of_bind h
    rcases hc : Buffer.contents { s.segment.buffer with sealed? := some length } with f | cs
    · rw [hc] at hcells
      cases hcells
    · rw [hc] at hcells
      cases hcells
      cases h
      exact ⟨_, hhere, rfl, rfl⟩
  · rw [if_pos hhere] at h
    obtain ⟨_, _, hthrow, _⟩ := Action.ok_of_bind h
    cases hthrow

end Placement

instance : Surrounded Placement where
  Surroundings := Addr × Program
  surroundings s := (s.segment.entry, s.program.withoutScope)

instance : LawfulRegion Placement where
  Writable s := LawfulRegion.Writable s.segment.buffer
  store_ok {s s' offset v} hs ho h := by
    obtain ⟨buffer, hbuffer, rfl⟩ := Placement.onBuffer_ok h
    obtain ⟨hw, ⟨hshape, _⟩, hload⟩ := LawfulRegion.store_ok hs ho hbuffer
    refine ⟨hw, ⟨⟨hshape.base, hshape.capacity, ?_⟩, rfl⟩, hload⟩
    show (buffer.base - s.segment.entry).toInt = (s.segment.buffer.base - s.segment.entry).toInt
    rw [show buffer.base = s.segment.buffer.base from hshape.base]
  store_error {s s' offset v failure} hs ho h := by
    obtain ⟨buffer, hbuffer⟩ := Placement.onBuffer_error h
    exact LawfulRegion.store_error hs ho hbuffer
  sealUp_ok {s s' length} _ h := by
    obtain ⟨cells, _, _, rfl⟩ := Placement.sealUp_ok h
    exact ⟨⟨rfl, rfl, rfl⟩, fun _ _ => rfl⟩

/-! ### Leased memory -/

namespace Memory

/-- A write that was made set one cell of memory. -/
theorem put_ok {m m' : Memory} {a : Addr} {v : Cell} (h : put a v m = .ok () m') :
    m.inBounds a ∧ m' = { m with cells := m.cells.setIfInBounds a.toInt.toNat v } := by
  unfold put at h
  split at h
  · next hin =>
    cases h
    exact ⟨hin, rfl⟩
  · cases h

/-- A write that was not made crashed. -/
theorem put_error {m m' : Memory} {a : Addr} {v : Cell} {failure : Failure}
    (h : put a v m = .error failure m') : failure = .crash := by
  unfold put at h
  split at h
  · cases h
  · cases h
    rfl

/-- The bounds of memory as numbers. -/
theorem inBounds_iff {m : Memory} {a : Addr} :
    m.inBounds a ↔ 0 ≤ a.toInt ∧ a.toInt < m.cells.size := by
  simp [inBounds, Int64.le_iff_toInt_le]

/-- A cell that can be read without a check can be read with one. -/
theorem load_of_get {m : Memory} {a : Addr} {v : Cell} (h : m.get a = .ok v) :
    m.load a = .ok v := by
  have hin : m.inBounds a := by
    unfold get at h
    split at h
    · cases h
    · next hneg =>
      split at h
      · next hcell =>
        rw [inBounds_iff]
        rw [Int64.lt_iff_toInt_lt, Int.not_lt] at hneg
        have hlt := (Array.getElem?_eq_some_iff.1 hcell).1
        change 0 ≤ a.toInt at hneg
        omega
      · cases h
  unfold load
  rw [if_pos hin, h]

/-- Setting a cell of memory changes what is read at its address alone. -/
theorem get_set {m : Memory} {a : Addr} (ha : m.inBounds a) (v : Cell) (b : Addr) :
    get { m with cells := m.cells.setIfInBounds a.toInt.toNat v } b =
      if b = a then .ok v else m.get b := by
  obtain ⟨ha₀, ha₁⟩ := inBounds_iff.1 ha
  unfold get
  by_cases hb : b < 0
  · have hne : b ≠ a := by
      rintro rfl
      rw [Int64.lt_iff_toInt_lt] at hb
      exact absurd ha₀ (Int.not_le.2 hb)
    rw [if_pos hb, if_pos hb, if_neg hne]
  · rw [if_neg hb, if_neg hb]
    rw [Int64.lt_iff_toInt_lt, Int.not_lt] at hb
    change 0 ≤ b.toInt at hb
    simp only [Array.getElem?_setIfInBounds]
    by_cases hab : b = a
    · subst hab
      rw [if_pos rfl, if_pos rfl, if_pos (by omega)]
    · have hne : a.toInt.toNat ≠ b.toInt.toNat := by
        intro h
        exact hab (Int64.toInt_inj.1 (by omega))
      rw [if_neg hne, if_neg hab]

/-- Changing a region keeps every number where it was. -/
theorem span?_updateSpan (m : Memory) (id : Nat) {f : Span → Span} (hf : ∀ s, (f s).id = s.id)
    (id' : Nat) :
    (m.updateSpan id f).span? id' = (m.span? id').map fun s => if s.id = id then f s else s := by
  unfold updateSpan span?
  rw [Array.find?_map]
  have hid : ((fun s : Span => s.id == id') ∘ fun s => if s.id = id then f s else s) =
      fun s => s.id == id' := by
    funext s
    simp only [Function.comp_apply]
    split
    · rw [hf]
    · rfl
  rw [hid]

end Memory

namespace Leasehold

/-- The lease is the open lease of its region. -/
def Standing (h : Leasehold) : Prop :=
  ∃ lease span, h.parts? = some (lease, span) ∧ h.stands lease span

/-- The parts of a leasehold are its lease and the region of that lease. -/
theorem parts?_eq_some_iff {h : Leasehold} {lease : Lease} {span : Span} :
    h.parts? = some (lease, span) ↔
      h.memory.leases[h.lease]? = some lease ∧ h.memory.span? lease.span = some span := by
  unfold parts?
  rcases hl : h.memory.leases[h.lease]? with _ | l
  · refine ⟨?_, ?_⟩
    · rintro ⟨⟩
    · rintro ⟨⟨⟩, _⟩
  · rcases hs : h.memory.span? l.span with _ | s
    · refine ⟨fun hp => ?_, ?_⟩
      · change (h.memory.span? l.span).bind (fun s => some (l, s)) = _ at hp
        rw [hs] at hp
        cases hp
      · rintro ⟨⟨⟩, hp⟩
        rw [hs] at hp
        cases hp
    · change (h.memory.span? l.span).bind (fun s => some (l, s)) = _ ↔ _
      rw [hs]
      constructor
      · rintro ⟨⟩
        exact ⟨rfl, hs⟩
      · rintro ⟨⟨⟩, hp⟩
        rw [hs] at hp
        cases hp
        rfl

/-- What is done with the parts of a lease that has them. -/
theorem withParts_of_parts {α : Type} {action : Lease → Span → Action Leasehold α}
    {h : Leasehold} {lease : Lease} {span : Span} (hp : h.parts? = some (lease, span)) :
    withParts action h = action lease span h := by
  unfold withParts
  rw [hp]

/-- A write through a standing lease is a write to memory, and the lease notes it. -/
theorem store_of_standing {h : Leasehold} {lease : Lease} {span : Span}
    (hp : h.parts? = some (lease, span)) (hs : h.stands lease span) (offset : Int) (v : Cell) :
    store offset v h =
      match Memory.put (span.base + Int64.ofInt offset) v h.memory with
      | .ok () m => .ok () { h with memory := { m with
          leases := m.leases.modify h.lease fun l => { l with written := true } } }
      | .error failure m => .error failure { h with memory := m } := by
  unfold store
  rw [withParts_of_parts hp]
  have hget : (get : Action Leasehold Leasehold) h = .ok h h := rfl
  rw [Action.bind_of_ok hget, hs]
  simp only [Bool.not_true, Bool.false_eq_true, if_false]
  rcases hm : Memory.put (span.base + Int64.ofInt offset) v h.memory with ⟨⟨⟩, m⟩ | ⟨failure, m⟩
  · have hon : onMemory (Memory.put (span.base + Int64.ofInt offset) v) h =
        .ok () { h with memory := m } := by
      unfold onMemory
      rw [hm]
    rw [Action.bind_of_ok hon]
    rfl
  · have hon : onMemory (Memory.put (span.base + Int64.ofInt offset) v) h =
        .error failure { h with memory := m } := by
      unfold onMemory
      rw [hm]
    rw [Action.bind_of_error hon]

/-- Sealing closes the lease and publishes the stream; it leaves every cell alone. -/
theorem sealUp_of_parts {h : Leasehold} {lease : Lease} {span : Span}
    (hp : h.parts? = some (lease, span)) (length : Int) :
    sealUp length h =
      if lease.done then .error (.leaseReleased span.label) h
      else .ok () { h with memory :=
        { h.memory with leases := h.memory.leases.modify h.lease fun l =>
            { l with done := true } }.updateSpan span.id fun s =>
              { s with lease? := none, length, poisoned := false } } := by
  unfold sealUp
  rw [withParts_of_parts hp]
  cases hd : lease.done <;> rfl

/-- The place of a leased region. -/
theorem base_of_parts {h : Leasehold} {lease : Lease} {span : Span}
    (hp : h.parts? = some (lease, span)) : Region.base h = span.base := by
  simp only [Region.base, hp]

/-- The size of a leased region. -/
theorem capacity_of_parts {h : Leasehold} {lease : Lease} {span : Span}
    (hp : h.parts? = some (lease, span)) : Region.capacity h = span.capacity.toInt.toNat := by
  simp only [Region.capacity, hp]

/-- The cells of a leased region are cells of memory. -/
theorem load_of_parts {h : Leasehold} {lease : Lease} {span : Span}
    (hp : h.parts? = some (lease, span)) (offset : Int) :
    Region.load h offset = h.memory.get (span.base + Int64.ofInt offset) := by
  show h.load offset = _
  unfold load
  rw [hp]

/-- Offsets inside a region are told apart by their addresses, wherever the region lies. -/
theorem addr_inj {base capacity : Int64} {i j : Nat} (hi : i < capacity.toInt.toNat)
    (hj : j < capacity.toInt.toNat) (h : base + Int64.ofInt i = base + Int64.ofInt j) : i = j := by
  have hcap := capacity.toInt_lt
  rw [Int64.add_right_inj] at h
  have hij := congrArg Int64.toInt h
  rw [Int64.toInt_ofInt_of_le (by omega) (by omega),
    Int64.toInt_ofInt_of_le (by omega) (by omega)] at hij
  omega

end Leasehold

instance : Surrounded Leasehold where
  Surroundings := Array Span × List (String × Addr)
  surroundings h := (h.memory.spans, h.memory.globals)

instance : LawfulRegion Leasehold where
  Writable := Leasehold.Standing
  store_ok {h h' offset v} hw ho hstore := by
    obtain ⟨lease, span, hp, hs⟩ := hw
    change Leasehold.store offset v h = .ok () h' at hstore
    rw [Leasehold.store_of_standing hp hs] at hstore
    split at hstore
    · next m hput =>
      cases hstore
      obtain ⟨hin, rfl⟩ := Memory.put_ok hput
      obtain ⟨hlease, hspan⟩ := Leasehold.parts?_eq_some_iff.1 hp
      have hp' : Leasehold.parts? { h with memory := { h.memory with
          cells := h.memory.cells.setIfInBounds (span.base + Int64.ofInt offset).toInt.toNat v
          leases := h.memory.leases.modify h.lease fun l => { l with written := true } } } =
            some ({ lease with written := true }, span) := by
        refine Leasehold.parts?_eq_some_iff.2 ⟨?_, hspan⟩
        show (h.memory.leases.modify h.lease _)[h.lease]? = _
        rw [Array.getElem?_modify, if_pos rfl, hlease]
        rfl
      refine ⟨⟨_, span, hp', hs⟩, ⟨⟨?_, ?_, rfl⟩, rfl⟩, fun i hi => ?_⟩
      · rw [Leasehold.base_of_parts hp', Leasehold.base_of_parts hp]
      · rw [Leasehold.capacity_of_parts hp', Leasehold.capacity_of_parts hp]
      · rw [Leasehold.capacity_of_parts hp] at ho hi
        rw [Leasehold.load_of_parts hp', Leasehold.load_of_parts hp]
        refine (Memory.get_set hin v (span.base + Int64.ofInt i)).trans ?_
        by_cases hio : i = offset
        · rw [if_pos hio, if_pos (by rw [hio])]
        · rw [if_neg hio, if_neg fun heq => hio (Leasehold.addr_inj hi ho heq)]
    · cases hstore
  store_error {h h' offset v failure} hw _ hstore := by
    obtain ⟨lease, span, hp, hs⟩ := hw
    change Leasehold.store offset v h = .error failure h' at hstore
    rw [Leasehold.store_of_standing hp hs] at hstore
    split at hstore
    · cases hstore
    · next hput =>
      cases hstore
      rw [Memory.put_error hput]
      rfl
  sealUp_ok {h h' length} hw hseal := by
    obtain ⟨lease, span, hp, hs⟩ := hw
    change Leasehold.sealUp length h = .ok () h' at hseal
    rw [Leasehold.sealUp_of_parts hp] at hseal
    split at hseal
    · cases hseal
    · cases hseal
      obtain ⟨hlease, hspan⟩ := Leasehold.parts?_eq_some_iff.1 hp
      let sealed (s : Span) : Span := { s with lease? := none, length, poisoned := false }
      have hid (s : Span) : (sealed s).id = s.id := rfl
      have hp' : Leasehold.parts? { h with memory :=
          { h.memory with leases := h.memory.leases.modify h.lease fun l =>
              { l with done := true } }.updateSpan span.id sealed } =
            some ({ lease with done := true }, sealed span) := by
        refine Leasehold.parts?_eq_some_iff.2 ⟨?_, ?_⟩
        · show (h.memory.leases.modify h.lease _)[h.lease]? = _
          rw [Array.getElem?_modify, if_pos rfl, hlease]
          rfl
        · refine (Memory.span?_updateSpan _ span.id hid lease.span).trans ?_
          change (h.memory.span? lease.span).map _ = _
          rw [hspan, Option.map_some, if_pos rfl]
      refine ⟨⟨?_, ?_, rfl⟩, fun i _ => ?_⟩
      · rw [Leasehold.base_of_parts hp', Leasehold.base_of_parts hp]
      · rw [Leasehold.capacity_of_parts hp', Leasehold.capacity_of_parts hp]
      · rw [Leasehold.load_of_parts hp', Leasehold.load_of_parts hp]
        rfl

end CellMachine
