import CellMachine.Proofs.Memory.Seen
import CellMachine.Proofs.Patch.Body

/-!
# The lease of a patch

A patch opens a lease on its region, perhaps after it has made the region of a range of cells, and
closes the lease in one of three ways. The module says what the memory is like while the lease is
held, and what is left when it has been closed.

* `PatchTarget.Designates` — the region that a target stands for.
* `Memory.lease_cases` — the lease is refused and nothing is changed, or it is opened.
* `Memory.Held` — a lease that is held: nothing outside the region is changed.
* `Memory.Held.progress` — **an emission on the lease goes on holding it.**
* `Patch.Frame` — what a patch leaves alone; `Memory.Held.close` — however the lease is closed.
-/

namespace CellMachine

open CellMachine.Action

/-- The region that a target stands for: one that the memory has, or one that is made of a range. -/
inductive PatchTarget.Designates (m : Memory) : PatchTarget → Span → Prop
  | region {name : String} {s : Span} : m.spanNamed? name = some s → Designates m (.region name) s
  | range {s : Span} : s ∈ m.spans → Designates m (.range s.base s.capacity) s
  | fresh {base : Addr} {capacity : Int64} :
    (∀ t ∈ m.spans, ¬(t.base = base ∧ t.capacity = capacity)) →
    Designates m (.range base capacity) (m.newSpan { name := "", base, capacity })

/-- A region with a lease on record. -/
def Span.leased (s : Span) (id : Nat) : Span := { s with lease? := some id }

namespace Leasehold

variable {s : Span}

/-- A region that was leased and sealed. -/
theorem sealedSpan_leased (hfree : s.lease? = none) (length : Int) (id : Nat) :
    sealedSpan length (s.leased id) = { s with length, poisoned := false } := by
  cases s
  cases hfree
  rfl

/-- A region that was leased and poisoned. -/
theorem poisonedSpan_leased (hfree : s.lease? = none) (id : Nat) :
    poisonedSpan (s.leased id) = { s with poisoned := true } := by
  cases s
  cases hfree
  rfl

/-- A region that was leased and given back without a write. -/
theorem releasedSpan_leased (hfree : s.lease? = none) (id : Nat) :
    releasedSpan false (s.leased id) = s := by
  cases s
  cases hfree
  simp [releasedSpan, Span.leased]

end Leasehold

/-- What a patch of a region leaves alone. -/
structure Patch.Frame (m : Memory) (s : Span) (m' : Memory) : Prop where
  /-- Every cell outside the region is as it was. -/
  cells : ∀ a : Nat, ¬(s.base.toInt ≤ a ∧ (a : Int) < s.base.toInt + s.capacity.toInt) →
    m'.cells[a]? = m.cells[a]?
  /-- Every other region is as it was. -/
  spans : ∀ t : Span, t.id ≠ s.id → (t ∈ m'.spans ↔ t ∈ m.spans)
  /-- No lease on the region is open, and the region records none. -/
  leases : ∀ (id : Nat) l, m'.leases[id]? = some l → l.span = s.id → l.done = true
  free : ∀ t ∈ m'.spans, t.id = s.id → t.lease? = none

/-- If the region records no lease, none on it is open. -/
theorem Patch.Frame.of_free {m m' : Memory} {s : Span} (hm' : m'.Sound)
    (hcells : ∀ a : Nat, ¬(s.base.toInt ≤ a ∧ (a : Int) < s.base.toInt + s.capacity.toInt) →
      m'.cells[a]? = m.cells[a]?)
    (hspans : ∀ t : Span, t.id ≠ s.id → (t ∈ m'.spans ↔ t ∈ m.spans))
    (hfree : ∀ t ∈ m'.spans, t.id = s.id → t.lease? = none) : Patch.Frame m s m' := by
  refine ⟨hcells, hspans, ?_, hfree⟩
  intro id l hl hspan
  obtain ⟨t, ht, hid⟩ := hm'.placed id l hl
  by_contra hopen
  have hrecorded := hm'.recorded id l hl (by simpa using hopen) t ht hid
  rw [hfree t ht (hid.trans hspan)] at hrecorded
  cases hrecorded

/-- Where nothing is changed there is nothing to leave alone. -/
theorem PatchTarget.Designates.frame {m : Memory} {target : PatchTarget} {s : Span}
    (htarget : target.Designates m s) (hm : m.Sound) (hfree : s.lease? = none) :
    Patch.Frame m s m := by
  have hmem (hs : s ∈ m.spans) : ∀ t ∈ m.spans, t.id = s.id → t.lease? = none := by
    intro t ht hid
    rw [hm.eq_of_id ht hs hid]
    exact hfree
  refine .of_free hm (fun _ _ => rfl) (fun _ _ => Iff.rfl) ?_
  cases htarget with
  | region hname => exact hmem (Memory.mem_of_spanNamed? hname)
  | range hs => exact hmem hs
  | fresh hnew =>
    intro t ht hid
    exact absurd hid (Nat.ne_of_lt (hm.below t ht))

namespace Memory

variable {m m₁ : Memory} {s : Span} {h : Leasehold} {l : Lease}

/-! ### Opening -/

/-- A memory with a region among its regions, which may be a new one. -/
structure Prepared (m : Memory) (s : Span) (m₁ : Memory) : Prop where
  tables : m₁.Sound
  cells : m₁.cells = m.cells
  spans : ∀ t, t ∈ m₁.spans ↔ t = s ∨ t ∈ m.spans

/-- A region of the memory needs no preparation. -/
theorem Prepared.of_mem (hm : m.Sound) (hs : s ∈ m.spans) : m.Prepared s m := by
  refine ⟨hm, rfl, fun t => ⟨.inr, ?_⟩⟩
  rintro (rfl | ht)
  · exact hs
  · exact ht

/-- A lease on a region is refused only if the region is executed. -/
theorem openLease_of_free (m : Memory) (hfree : s.lease? = none) :
    (∃ failure, openLease s m = .error failure m ∧ failure.crashed = false) ∨
      s.running = 0 ∧ openLease s m = .ok m.leases.size (m.granted s) := by
  rw [openLease_eq, hfree]
  by_cases hrunning : 0 < s.running
  · rw [if_neg (by decide), if_pos hrunning]
    exact .inl ⟨_, rfl, rfl⟩
  · rw [if_neg (by decide), if_neg hrunning]
    exact .inr ⟨by omega, rfl⟩

/-- **The lease of a patch is refused and nothing is changed, or it is opened on the region** that
the target stands for. -/
theorem lease_cases (hordered : m.Ordered) (hm : m.Sound) (hsize : m.cells.size ≤ maxCells)
    {target : PatchTarget} (htarget : target.Designates m s) (henc : m.Encloses s)
    (hfree : s.lease? = none) :
    (∃ failure, Patch.lease target m = .error failure m ∧ failure.crashed = false) ∨
      ∃ m₁, m.Prepared s m₁ ∧ s.running = 0 ∧
        Patch.lease target m = .ok m₁.leases.size (m₁.granted s) := by
  have hget : (EStateM.get : Action Memory Memory) m = .ok m m := rfl
  cases htarget with
  | @region name s hname =>
    have hlease : Patch.lease (.region name) m = openLease s m := by
      show leaseNamed name m = openLease s m
      unfold leaseNamed
      rw [bind_of_ok hget]
      simp only [hname]
    rw [hlease]
    refine (openLease_of_free m hfree).imp_right fun h => ?_
    exact ⟨m, .of_mem hm (mem_of_spanNamed? hname), h⟩
  | @range s hs =>
    show (∃ failure, leaseAt s.base s.capacity m = .error failure m ∧ _) ∨ ∃ m₁, m.Prepared s m₁ ∧
      s.running = 0 ∧ leaseAt s.base s.capacity m = .ok m₁.leases.size (m₁.granted s)
    rw [leaseAt_eq]
    by_cases hrange : s.capacity ≤ 0 ∨ s.base < 0 ∨ m.next < s.base + s.capacity
    · rw [if_pos hrange]
      exact .inl ⟨_, rfl, rfl⟩
    -- the range is not empty, so its base lies in the region
    have hpos : 0 < s.capacity.toInt := by
      have hnot : ¬s.capacity ≤ 0 := fun h => hrange (.inl h)
      rw [Int64.le_iff_toInt_le, Int.not_le] at hnot
      exact hnot
    have hcontains : s.contains s.base = true := by
      rw [henc.contains_iff hsize]
      omega
    rw [if_neg hrange, find?_of_contains hordered hs hcontains]
    simp only [ne_eq, not_true_eq_false, or_self, if_false]
    refine (openLease_of_free m hfree).imp_right fun h => ?_
    exact ⟨m, .of_mem hm hs, h⟩
  | @fresh base capacity hnew =>
    show (∃ failure, leaseAt base capacity m = .error failure m ∧ _) ∨ ∃ m₁, m.Prepared _ m₁ ∧ _ ∧
      leaseAt base capacity m = .ok m₁.leases.size (m₁.granted _)
    rw [leaseAt_eq]
    by_cases hrange : capacity ≤ 0 ∨ base < 0 ∨ m.next < base + capacity
    · rw [if_pos hrange]
      exact .inl ⟨_, rfl, rfl⟩
    rw [if_neg hrange]
    cases hfind : m.find? base with
    | some t =>
      have hplace : t.base ≠ base ∨ t.capacity ≠ capacity := by
        have hother := hnew t (mem_of_find? hfind)
        rwa [not_and_or] at hother
      simp only [if_pos hplace]
      exact .inl ⟨_, rfl, rfl⟩
    | none =>
      by_cases h : m.Blocked { name := "", base, capacity }
      · obtain ⟨other, hfail⟩ := register_of_blocked hordered m.fresh_empty h
        exact .inl ⟨_, bind_of_error hfail, rfl⟩
      · obtain ⟨low, high, hs, hlow, hhigh, hok⟩ := register_of_clear hordered m.fresh_empty h
        refine .inr ⟨_, ⟨hm.register hs, rfl, fun t => mem_register hs⟩, rfl, ?_⟩
        exact bind_of_ok hok

/-! ### Holding -/

/-- A lease on a region that is held. Other regions, and the cells outside the region, are as they
were. -/
structure Held (m : Memory) (s : Span) (l : Lease) (h : Leasehold) : Prop where
  tables : h.memory.Sound
  parts : h.parts? = some (l, s.leased h.lease)
  unclosed : l.done = false
  size : h.memory.cells.size = m.cells.size
  cells : ∀ a : Nat, ¬(s.base.toInt ≤ a ∧ (a : Int) < s.base.toInt + s.capacity.toInt) →
    h.memory.cells[a]? = m.cells[a]?
  spans : ∀ t : Span, t.id ≠ s.id → (t ∈ h.memory.spans ↔ t ∈ m.spans)

/-- A change of one region leaves the others alone. -/
theorem mem_updateSpan_of_ne {id : Nat} {f : Span → Span} (hid : ∀ s, (f s).id = s.id) {t : Span}
    (ht : t.id ≠ id) : t ∈ (m.updateSpan id f).spans ↔ t ∈ m.spans := by
  rw [mem_updateSpan]
  constructor
  · rintro ⟨u, hu, rfl⟩
    by_cases hui : u.id = id
    · rw [if_pos hui, hid] at ht
      exact absurd hui ht
    · rwa [if_neg hui]
  · intro hmem
    exact ⟨t, hmem, if_neg ht⟩

/-- A lease that was just opened is held. -/
theorem Prepared.held (hprep : m.Prepared s m₁) (hfree : s.lease? = none) :
    m.Held s { span := s.id } { lease := m₁.leases.size, memory := m₁.granted s } := by
  have hs : s ∈ m₁.spans := (hprep.spans s).mpr (.inl rfl)
  have htables := hprep.tables.grant hs hfree
  have hcells : (m₁.granted s).cells = m.cells := hprep.cells
  refine ⟨htables, ?_, rfl, by rw [hcells], fun a _ => by rw [hcells], ?_⟩
  · refine Sound.parts?_eq_some_iff htables |>.mpr ⟨?_, ?_, rfl⟩
    · exact Array.getElem?_push_size
    · exact mem_updateSpan.mpr ⟨s, hs, if_pos rfl⟩
  · intro t ht
    refine (mem_updateSpan_of_ne ?_ ht).trans ((hprep.spans t).trans (or_iff_right ?_))
    · exact fun _ => rfl
    · rintro rfl
      exact ht rfl

namespace Held

/-- The region of a lease that is held is one of the memory. -/
theorem mem (hh : m.Held s l h) :
    h.memory.leases[h.lease]? = some l ∧ s.leased h.lease ∈ h.memory.spans ∧
      s.id = l.span :=
  hh.tables.parts?_eq_some_iff.mp hh.parts

/-- A lease that is held stands. -/
theorem stands (hh : m.Held s l h) : h.stands l (s.leased h.lease) = true :=
  hh.tables.stands_of_open hh.parts hh.unclosed

/-- The size of the region of a lease that is held. -/
theorem capacity (hh : m.Held s l h) : Region.capacity h = s.capacity.toInt.toNat := by
  rw [Leasehold.capacity_of_parts hh.parts]
  rfl

/-- The region lies inside the memory that is seen through the lease, too. -/
theorem encloses (hh : m.Held s l h) (henc : m.Encloses s) :
    h.memory.Encloses (s.leased h.lease) :=
  ⟨henc.base, henc.capacity, hh.size ▸ henc.limit⟩

/-- A lease that is held goes on being held when an emission is bound to it. -/
theorem bindLease (hh : m.Held s l h) : m.Held s { l with bound := true } h.bindLease := by
  obtain ⟨hl, hs, hid⟩ := hh.mem
  have htables : h.bindLease.memory.Sound := by
    refine hh.tables.of_modify h.lease (g := fun l => { l with bound := true }) ?_ rfl rfl
    exact fun _ => ⟨rfl, rfl⟩
  refine ⟨htables, ?_, hh.unclosed, hh.size, hh.cells, hh.spans⟩
  refine Sound.parts?_eq_some_iff htables |>.mpr ⟨?_, hs, hid⟩
  show (h.memory.leases.modify h.lease _)[h.lease]? = _
  rw [Array.getElem?_modify, if_pos rfl, hl]
  rfl

/-- A dynamic emission is opened on a lease that is held, unless the region is executed or another
one was opened before. -/
theorem openDynamic (hh : m.Held s l h) (hrunning : s.running = 0) (hbound : l.bound = false) :
    Context.openDynamic h = .ok (Context.fresh .dynamic h.bindLease) h.bindLease := by
  have hattest : Region.attest h = .ok () h.bindLease := by
    show Leasehold.attest h = _
    have hidle : ¬0 < (s.leased h.lease).running := Nat.not_lt.mpr (Nat.le_of_eq hrunning)
    rw [Leasehold.attest_of_parts hh.parts, hh.stands, hbound]
    simp [hidle]
  unfold Context.openDynamic
  rw [hattest]

/-- A cell of the region is a cell of the memory. -/
theorem load_eq_ok_iff (hh : m.Held s l h) (henc : m.Encloses s) (hsize : m.cells.size ≤ maxCells)
    {i : Nat} (hi : (i : Int) < s.capacity.toInt) {v : Cell} :
    Region.load h i = .ok v ↔ h.memory.cells[s.base.toInt.toNat + i]? = some v := by
  have haddr : (s.base + Int64.ofInt i).toInt = s.base.toInt + i := henc.toInt_addr hsize hi
  have hbase := henc.base
  have hindex : (s.base + Int64.ofInt i).toInt.toNat = s.base.toInt.toNat + i := by omega
  have hpos : ¬s.base + Int64.ofInt i < 0 := by
    rw [Int64.lt_iff_toInt_lt, haddr, Int.not_lt]
    show 0 ≤ s.base.toInt + i
    omega
  rw [Leasehold.load_of_parts hh.parts]
  show Memory.get h.memory (s.base + Int64.ofInt i) = .ok v ↔ _
  unfold Memory.get
  rw [if_neg hpos, hindex]
  cases h.memory.cells[s.base.toInt.toNat + i]? with
  | none => simp
  | some w => simp

/-- A lease that is held can be sealed. -/
theorem sealUp (hh : m.Held s l h) (length : Int) :
    Region.sealUp length h = .ok () (h.close (s.leased h.lease) (Leasehold.sealedSpan length)) :=
  Leasehold.sealUp_of_open hh.parts hh.unclosed length

/-- A lease that is held can be poisoned. -/
theorem poison (hh : m.Held s l h) :
    Region.poison h = .ok () (h.close (s.leased h.lease) Leasehold.poisonedSpan) :=
  Leasehold.poison_of_open hh.parts hh.unclosed

/-- A cell of a region that was sealed is a cell of the memory. -/
theorem load_sealed (hh : m.Held s l h) (henc : m.Encloses s) (hsize : m.cells.size ≤ maxCells)
    {length : Int} {h' : Leasehold} (hseal : Region.sealUp length h = .ok () h') {i : Nat}
    (hi : (i : Int) < s.capacity.toInt) {v : Cell} :
    Region.load h' i = .ok v ↔ h'.memory.cells[s.base.toInt.toNat + i]? = some v := by
  have hw : Leasehold.Standing h := ⟨l, _, hh.parts, hh.stands⟩
  have hin : i < Region.capacity h := by
    rw [hh.capacity]
    omega
  rw [(LawfulRegion.sealUp_ok hw hseal).2 i hin, hh.load_eq_ok_iff henc hsize hi]
  rw [hh.sealUp] at hseal
  rw [← (EStateM.Result.ok.inj hseal).2]
  rfl

/-! ### Emissions -/

/-- What an emission on the lease does to the memory stays inside the region. -/
theorem upheld (hh : m.Held s l h) (henc : m.Encloses s) (hsize : m.cells.size ≤ maxCells) :
    Region.Upheld (Region.capacity h)
      (h.memory.Inside h.lease (s.leased h.lease)) := by
  obtain ⟨hl, hs, hid⟩ := hh.mem
  rw [hh.capacity]
  exact upheld_inside (hh.encloses henc) (hh.size ▸ hsize) hl hs hid

/-- No write inside the region is refused. -/
theorem accepting (hh : m.Held s l h) (henc : m.Encloses s) (hsize : m.cells.size ≤ maxCells) :
    Region.Accepting (Region.capacity h) fun r =>
      h.memory.Inside h.lease (s.leased h.lease) r ∧ LawfulRegion.Writable r := by
  intro offset v r ho ⟨hin, hw⟩
  obtain ⟨hl, hs, hid⟩ := hh.mem
  obtain ⟨l', s', hp, hstands⟩ := hw
  obtain ⟨-, hentry⟩ := hin.entry_eq hl hs hid hp
  have hbase : s'.base = s.base := congrArg RoutineEntry.base hentry
  have hcap : s'.capacity = s.capacity := congrArg RoutineEntry.capacity hentry
  rw [hh.capacity] at ho
  have haddr : (s'.base + Int64.ofInt offset).toInt = s.base.toInt + offset := by
    rw [hbase]
    exact henc.toInt_addr hsize (by omega)
  have hbounds : r.memory.inBounds (s'.base + Int64.ofInt offset) := by
    have hlater : r.memory.cells.size = h.memory.cells.size := hin.later.size
    have hsame := hh.size
    have hpos := henc.base
    have hlimit := henc.limit
    rw [inBounds_iff]
    omega
  have hstore : Region.store (offset : Int) v r =
      .ok () (r.wrote (s'.base + Int64.ofInt offset) v) :=
    Leasehold.store_of_inBounds hp hstands hbounds v
  have hroom : offset < Region.capacity r := by
    rw [Leasehold.capacity_of_parts hp, hcap]
    exact ho
  have hw : Leasehold.Standing r := ⟨l', s', hp, hstands⟩
  refine ⟨_, hstore, ?_, (LawfulRegion.store_ok hw hroom hstore).1⟩
  refine ((hh.upheld henc hsize).store offset v ?_).ok hin hstore
  rwa [hh.capacity]

/-- What happens inside the region, while the lease stands and no region is changed, goes on holding
the lease. -/
theorem of_inside (hh : m.Held s l h) {r : Leasehold}
    (hin : h.memory.Inside h.lease (s.leased h.lease) r) (hkept : Region.Kept h r)
    (hw : LawfulRegion.Writable r) : ∃ l', m.Held s l' r := by
  obtain ⟨hl, hs, hid⟩ := hh.mem
  obtain ⟨l', s', hp, hstands⟩ := hw
  obtain ⟨-, hs', -⟩ := hin.tables.parts?_eq_some_iff.mp hp
  have hspans : r.memory.spans = h.memory.spans := congrArg Prod.fst hkept.surroundings
  have hsame : s' = s.leased r.lease := by
    rw [hin.same_lease]
    refine hin.tables.eq_of_id hs' (hspans ▸ hs) ?_
    exact (hin.entry_eq hl hs hid hp).1
  refine ⟨l', hin.tables, hsame ▸ hp, Leasehold.done_of_stands hstands, ?_, ?_, ?_⟩
  · exact hin.later.size.trans hh.size
  · intro a ha
    exact (hin.cells a ha).trans (hh.cells a ha)
  · intro t ht
    rw [hspans]
    exact hh.spans t ht

/-- An emission that was just opened on the lease has made no progress. -/
theorem start (hh : m.Held s l h) {mode : Mode} :
    Progress (h.memory.Inside h.lease (s.leased h.lease)) mode h [] (Emission.start mode h) :=
  .start mode ⟨l, _, hh.parts, hh.stands⟩ ⟨⟨rfl, hh.tables, .refl _⟩, fun _ _ => rfl⟩

/-- **An emission on the lease goes on holding it**, as long as it is open. -/
theorem progress (hh : m.Held s l h) {mode : Mode} {calls : List Call} {e : Emission Leasehold}
    (hp : Progress (h.memory.Inside h.lease (s.leased h.lease)) mode h calls e) :
    ∃ l', m.Held s l' e.region := by
  obtain ⟨log, items, htracks, -⟩ := hp.tracks
  exact hh.of_inside hp.keeping.region htracks.kept htracks.writable

/-! ### Closing -/

/-- **However a lease is closed, nothing outside the region is changed** and no lease on the region
is left. -/
theorem close (hh : m.Held s l h) {f : Span → Span} (hid : ∀ s, (f s).id = s.id)
    (hf : ∀ s, (f s).lease? = none) :
    Patch.Frame m s (h.close (s.leased h.lease) f).memory ∧
      f (s.leased h.lease) ∈ (h.close (s.leased h.lease) f).memory.spans := by
  obtain ⟨-, hs, -⟩ := hh.mem
  have hmem : f (s.leased h.lease) ∈ (h.close (s.leased h.lease) f).memory.spans :=
    mem_updateSpan.mpr ⟨_, hs, if_pos rfl⟩
  have htables := hh.tables.close hh.parts hh.unclosed hid hf
  refine ⟨.of_free htables hh.cells ?_ ?_, hmem⟩
  · intro t ht
    exact (mem_updateSpan_of_ne hid ht).trans (hh.spans t ht)
  · intro t ht htid
    rw [htables.eq_of_id ht hmem (htid.trans (hid (s.leased h.lease)).symm)]
    exact hf _

end Held

end Memory

end CellMachine
