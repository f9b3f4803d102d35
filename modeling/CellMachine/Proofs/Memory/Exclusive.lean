import CellMachine.Proofs.Memory.Estate

/-!
# Leases exclude each other

Of all the parties that share a memory at most one can write into a region: the one that holds the
open lease of the region. A lease that was closed stays closed, and so does every way to the memory
that leads through it.

* `Move.Through` — a move that is made through a lease, or through an emission on the lease.
* `Estate.Exclusive` — what the parties of an estate can rely on.
* `Estate.Reachable.exclusive` — **they always can**, whatever the others do.
-/

namespace CellMachine

open CellMachine.Action

/-! ### Closed leases -/

/-- A call that closes the lease. -/
def LeaseCall.Closing : LeaseCall → Prop
  | .sealUp _ | .poison | .release => True
  | .store _ _ | .attest => False

namespace Leasehold

/-- The lease of a leasehold is closed. -/
def Closed (h : Leasehold) : Prop := ∃ l, h.memory.leases[h.lease]? = some l ∧ l.done = true

/-- A lease that is closed on a region is found closed. -/
theorem closed_close {h : Leasehold} {lease : Lease} {span : Span}
    (hp : h.parts? = some (lease, span)) (f : Span → Span) : (h.close span f).Closed := by
  obtain ⟨hl, -⟩ := parts?_eq_some_iff.mp hp
  refine ⟨{ lease with done := true }, ?_, rfl⟩
  show (h.memory.leases.modify h.lease _)[h.lease]? = _
  rw [Array.getElem?_modify, if_pos rfl, hl]
  rfl

/-- What a closed lease does to the memory: nothing. -/
theorem upheld_of_closed {h : Leasehold} (hclosed : h.Closed) (capacity : Nat) :
    Region.Upheld capacity (· = h) := by
  obtain ⟨l, hl, hdone⟩ := hclosed
  refine ⟨?_, ?_, ?_⟩
  · rintro offset v - r rfl
    exact LeaseCall.after_of_done (.store offset v) hl hdone
  · rintro length r rfl
    exact LeaseCall.after_of_done (.sealUp length) hl hdone
  · rintro r rfl
    exact LeaseCall.after_of_done .poison hl hdone

/-- A sealing, a poisoning or a release leaves the lease closed, if it was not closed before. -/
theorem closed_of_closing {h : Leasehold} (hm : h.memory.Sound) {l : Lease}
    (hl : h.memory.leases[h.lease]? = some l) {c : LeaseCall} (hc : c.Closing) :
    (c.after h).Closed := by
  obtain ⟨s, hs, hsl⟩ := hm.placed h.lease l hl
  have hp : h.parts? = some (l, s) := hm.parts?_eq_some_iff.mpr ⟨hl, hs, hsl⟩
  cases hdone : l.done with
  | true =>
    rw [c.after_of_done hl hdone]
    exact ⟨l, hl, hdone⟩
  | false =>
    cases c with
    | store offset v => cases hc
    | attest => cases hc
    | sealUp length =>
      have hseal := sealUp_of_open hp hdone length
      rw [show LeaseCall.after (.sealUp length) h = _ from after_of_ok hseal]
      exact closed_close hp _
    | poison =>
      rw [show LeaseCall.after .poison h = _ from after_of_ok (poison_of_open hp hdone)]
      exact closed_close hp _
    | release =>
      rw [show LeaseCall.after .release h = _ from after_of_ok (release_of_open hp hdone)]
      exact closed_close hp _

end Leasehold

/-! ### Moves through leases -/

/-- A move that is made through a lease, or through an emission that was opened on it. -/
def Move.Through (w : Estate) (id : Nat) : Move → Prop
  | .lease i _ => i = id
  | .occupy _ i => i = id
  | .tenant index _ => ∃ t, w.tenants[index]? = some t ∧ t.lease = id
  | .memory _ | .run _ _ _ | .enter _ | .leave _ => False

namespace Estate

/-- A lease of the estate that is closed. -/
def Closed (w : Estate) (id : Nat) : Prop := Leasehold.Closed { lease := id, memory := w.memory }

/-- A lease that is closed stays closed. -/
theorem Closed.run {w : Estate} {id : Nat} (h : w.Closed id) (hw : w.Reachable)
    (moves : List Move) : (w.run moves).Closed id := by
  obtain ⟨l, hl, hdone⟩ := h
  obtain ⟨l', hl', -, -, hkept⟩ := (hw.later moves).leases id l hl
  exact ⟨l', hl', hkept hdone⟩

/-- **Nothing is changed through a lease that is closed.** -/
theorem memory_of_closed {w : Estate} (hw : w.Sound) {id : Nat} (h : w.Closed id) (mv : Move)
    (hmv : mv.Through w id) : (w.after mv).memory = w.memory := by
  obtain ⟨l, hl, hdone⟩ := h
  cases mv with
  | lease i c =>
    obtain rfl : i = id := hmv
    have hsame := c.after_of_done (h := { lease := i, memory := w.memory }) hl hdone
    exact congrArg Leasehold.memory hsame
  | occupy mode i =>
    obtain rfl : i = id := hmv
    obtain ⟨-, hsame | hbound⟩ := occupy_eq w mode i
    · exact hsame
    · rw [hbound, LeaseCall.attest.after_of_done hl hdone]
  | tenant index c =>
    obtain ⟨t, ht, rfl⟩ := hmv
    obtain ⟨l', s, hhoused⟩ := hw.housed t (List.mem_of_getElem? ht)
    rw [after_tenant ht]
    have hupheld := Leasehold.upheld_of_closed (h := { lease := t.lease, memory := w.memory })
      ⟨l, hl, hdone⟩ t.context.capacity
    have hsame := EmissionCall.preserves hupheld c (e := t.emission w.memory)
      ⟨rfl, rfl, hhoused.waiting⟩
    exact congrArg Leasehold.memory hsame.region
  | memory c => cases hmv
  | run processor target? args => cases hmv
  | enter a => cases hmv
  | leave id? => cases hmv

/-- A call to an emission that ends with a sealing or a poisoning of the region leaves the lease of
the emission closed. -/
theorem closed_of_last {w : Estate} (hw : w.Sound) {index : Nat} {t : Tenant}
    (ht : w.tenants[index]? = some t) {c : EmissionCall} (last : LeaseCall) (hlast : last.Closing)
    {h : Leasehold} (hseen : w.memory.Seen t.lease h)
    (hregion : (c.after (t.emission w.memory)).region = last.after h) :
    (w.after (.tenant index c)).Closed t.lease := by
  obtain ⟨l, s, hhoused⟩ := hw.housed t (List.mem_of_getElem? ht)
  obtain ⟨l', hl', -⟩ := hseen.later.leases t.lease l hhoused.lease
  rw [← hseen.same_lease] at hl'
  have hclosed := Leasehold.closed_of_closing hseen.tables hl' hlast
  unfold Leasehold.Closed at hclosed
  rw [last.lease_after, hseen.same_lease, ← hregion] at hclosed
  rw [after_tenant ht]
  exact hclosed

/-- An emission that is finalized leaves its lease closed. -/
theorem closed_of_finalize {w : Estate} (hw : w.Sound) {index : Nat} {t : Tenant}
    (ht : w.tenants[index]? = some t) {routine : Routine} {e : Emission Leasehold}
    (hrun : Emission.finalize (t.emission w.memory) = .ok routine e) :
    (w.after (.tenant index .finalize)).Closed t.lease := by
  obtain ⟨-, hseal, -⟩ := Emission.finalize_ok hrun
  refine closed_of_last hw ht (.sealUp t.context.cursor) trivial
    (h := (t.emission w.memory).region) ⟨rfl, hw.tables, .refl _⟩ ?_
  rw [show EmissionCall.finalize.after (t.emission w.memory) = e from after_of_ok hrun]
  exact (after_of_ok hseal).symm

/-- An emission that is given up leaves its lease closed. -/
theorem closed_of_discard {w : Estate} (hw : w.Sound) {index : Nat} {t : Tenant}
    (ht : w.tenants[index]? = some t) (hopen : t.context.status = .open) {e : Emission Leasehold}
    (hrun : Emission.discard (t.emission w.memory) = .ok () e) :
    (w.after (.tenant index .discard)).Closed t.lease := by
  obtain ⟨l, s, hhoused⟩ := hw.housed t (List.mem_of_getElem? ht)
  have hafter : EmissionCall.discard.after (t.emission w.memory) = e := after_of_ok hrun
  rw [Emission.discard_eq, show (t.emission w.memory).context.status = .open from hopen] at hrun
  obtain ⟨⟨⟩, e₁, hfill, hrun⟩ := ok_of_bind hrun
  obtain ⟨⟨⟩, e₂, hpoison, hrun⟩ := ok_of_bind hrun
  cases hrun
  have hseen := (Emission.fillTraps_preserves (Memory.upheld_seen t.context.capacity)
    t.context.capacity (Nat.le_of_eq (Nat.zero_add _))).ok
    (⟨⟨rfl, hw.tables, .refl _⟩, rfl, hhoused.waiting⟩ :
      (t.emission w.memory).Keeping t.context.capacity (w.memory.Seen t.lease)) hfill
  refine closed_of_last hw ht .poison trivial hseen.region ?_
  rw [hafter]
  unfold Emission.onRegion at hpoison
  split at hpoison
  · next hregion =>
    cases hpoison
    exact (after_of_ok hregion).symm
  · cases hpoison

/-- What the parties of an estate can rely on. -/
structure Exclusive (w : Estate) : Prop where
  /-- A region has at most one lease that is not closed. -/
  unique : ∀ s ∈ w.memory.spans, ∀ (i j : Nat) (l l' : Lease),
    w.memory.leases[i]? = some l → l.span = s.id → l.done = false →
    w.memory.leases[j]? = some l' → l'.span = s.id → l'.done = false → i = j
  /-- That lease is the one that the region records. -/
  recorded : ∀ s ∈ w.memory.spans, ∀ (id : Nat) (l : Lease),
    w.memory.leases[id]? = some l → l.span = s.id → (l.done = false ↔ s.lease? = some id)
  /-- At most one dynamic emission was ever opened on a lease. -/
  single : w.tenants.Pairwise Tenant.Apart
  /-- An emission has a lease on a region. A call to it changes cells only inside the region, and
  only while the lease is open and the one that the region records. -/
  inside : ∀ (index : Nat) (t : Tenant), w.tenants[index]? = some t →
    ∃ l s, w.memory.leases[t.lease]? = some l ∧ s ∈ w.memory.spans ∧ s.id = l.span ∧
      (w.memory.Encloses s → ∀ (c : EmissionCall) (a : Nat),
        (w.after (.tenant index c)).memory.cells[a]? ≠ w.memory.cells[a]? →
        l.done = false ∧ s.lease? = some t.lease ∧
          s.base.toInt ≤ a ∧ (a : Int) < s.base.toInt + s.capacity.toInt)
  /-- A lease that is sealed, poisoned or released is closed. -/
  closes : ∀ id < w.memory.leases.size, ∀ c : LeaseCall, c.Closing →
    (w.after (.lease id c)).Closed id
  /-- The lease of an emission that is finalized is closed. -/
  finalized : ∀ (index : Nat) (t : Tenant) routine e, w.tenants[index]? = some t →
    Emission.finalize (t.emission w.memory) = .ok routine e →
    (w.after (.tenant index .finalize)).Closed t.lease
  /-- The lease of an emission that is given up is closed. -/
  discarded : ∀ (index : Nat) (t : Tenant) e, w.tenants[index]? = some t →
    t.context.status = .open → Emission.discard (t.emission w.memory) = .ok () e →
    (w.after (.tenant index .discard)).Closed t.lease
  /-- Once a lease is closed, no later move through it changes anything in the memory. -/
  closed : ∀ id, w.Closed id → ∀ (moves : List Move) (mv : Move), mv.Through (w.run moves) id →
    ((w.run moves).after mv).memory = (w.run moves).memory

/-- **Leases exclude each other.** In every estate that can come about, whatever the parties did and
in whichever order, each region has at most one open lease, which the region records, each lease has
at most one dynamic emission, an emission writes nowhere but in the region of its own open lease,
and nothing is ever changed through a lease that was closed. -/
theorem Reachable.exclusive {w : Estate} (hw : w.Reachable) : w.Exclusive where
  unique s hs i j l l' hl hls hopen hl' hls' hopen' := by
    have hi := hw.sound.tables.recorded i l hl hopen s hs hls.symm
    have hj := hw.sound.tables.recorded j l' hl' hopen' s hs hls'.symm
    exact Option.some.inj (hi.symm.trans hj)
  recorded s hs id l hl hls := by
    constructor
    · intro hopen
      exact hw.sound.tables.recorded id l hl hopen s hs hls.symm
    · intro hrecorded
      obtain ⟨l', hl', -, hopen⟩ := hw.sound.tables.standing s hs id hrecorded
      rw [show l = l' from Option.some.inj (hl.symm.trans hl')]
      exact hopen
  single := hw.sound.single
  inside index t ht := by
    obtain ⟨l, s, hhoused⟩ := hw.sound.housed t (List.mem_of_getElem? ht)
    refine ⟨l, s, hhoused.lease, hhoused.region.1, hhoused.region.2, ?_⟩
    intro henc c a hchanged
    have hopen : l.done = false := by
      cases hdone : l.done with
      | false => rfl
      | true =>
        have hsame := memory_of_closed hw.sound ⟨l, hhoused.lease, hdone⟩ (.tenant index c)
          ⟨t, ht, rfl⟩
        rw [hsame] at hchanged
        exact absurd rfl hchanged
    refine ⟨hopen, ?_, ?_⟩
    · exact hw.sound.tables.recorded t.lease l hhoused.lease hopen s hhoused.region.1
        hhoused.region.2
    · obtain ⟨size, stack, m₀, hnew, hpath⟩ := hw.path
      obtain ⟨-, -, -, hsize⟩ := hpath.bounds hnew
      have hupheld := Memory.upheld_inside henc hsize hhoused.lease hhoused.region.1
        hhoused.region.2
      rw [← hhoused.fits] at hupheld
      have hin := EmissionCall.preserves hupheld c (e := t.emission w.memory)
        ⟨⟨⟨rfl, hw.sound.tables, .refl _⟩, fun _ _ => rfl⟩, rfl, hhoused.waiting⟩
      rw [after_tenant ht] at hchanged
      by_contra houtside
      exact hchanged (hin.region.cells a houtside)
  closes id hid c hc := by
    have hclosed := Leasehold.closed_of_closing (h := { lease := id, memory := w.memory })
      hw.sound.tables (Array.getElem?_eq_getElem hid) hc
    unfold Leasehold.Closed at hclosed
    rwa [c.lease_after] at hclosed
  finalized index t routine e ht hrun := closed_of_finalize hw.sound ht hrun
  discarded index t e ht hopen hrun := closed_of_discard hw.sound ht hopen hrun
  closed id hclosed moves mv hmv :=
    memory_of_closed (hw.run moves).sound (hclosed.run hw moves) mv hmv

/-- A region that is leased a second time after a rewrite was given up; both emissions are still
there. -/
def sample : Estate :=
  run { memory := { cells := Array.replicate 16 0, limit := 8 } }
    [.memory (.reserve "hook" 4), .memory (.leaseNamed "hook"), .occupy .dynamic 0,
      .tenant 0 (.add (.emitOp none .nop [])), .lease 0 .release, .memory (.leaseNamed "hook"),
      .occupy .dynamic 1]

/-- The first emission tries to go on, and changes nothing. -/
theorem exclusive_sample :
    sample.Reachable ∧ sample.tenants.map Tenant.lease = [0, 1] ∧
      (sample.after (.tenant 0 .discard)).memory = sample.memory := by
  have hnew : Memory.new 16 8 = .ok { cells := Array.replicate 16 0, limit := 8 } := rfl
  have hreach : sample.Reachable := Reachable.run (.new hnew) _
  have hlease : (sample.tenants[0]?).map Tenant.lease = some 0 := by decide +kernel
  have hdone : (sample.memory.leases[0]?).map Lease.done = some true := by decide +kernel
  obtain ⟨t, ht, htlease⟩ := Option.map_eq_some_iff.mp hlease
  obtain ⟨l, hl, hldone⟩ := Option.map_eq_some_iff.mp hdone
  refine ⟨hreach, by decide +kernel, ?_⟩
  exact hreach.exclusive.closed 0 ⟨l, hl, hldone⟩ [] (.tenant 0 .discard) ⟨t, ht, htlease⟩

end Estate

end CellMachine
