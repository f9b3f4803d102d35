import CellMachine.Memory.Lease
import CellMachine.Proofs.Emission.Recording
import CellMachine.Proofs.Emission.Region

/-!
# What can be done through a lease

A lease is written through, bound to an emission, sealed, poisoned or released. This module says
once what each of these does to the memory; what all of them keep is derived from it elsewhere.

* `LeaseCall` — a call to a lease; `LeaseCall.after` and `LeaseCall.events` are the memory that it
  leaves and the writes and sealings that it makes.
* `Leasehold.Effect` — all that a call can do: nothing at all, or one of five changes, each under
  its own condition.
* `LeaseCall.effect` — **a call does nothing else.**
* `LeaseCall.after_of_done` — a lease that is closed changes nothing any more.
-/

namespace CellMachine

open CellMachine.Action

/-- A call to a lease that may change the memory. -/
inductive LeaseCall
  | store (offset : Int) (v : Cell)
  | attest
  | sealUp (length : Int)
  | poison
  | release

namespace LeaseCall

/-- The memory, seen through a lease, after a call to the lease. -/
def after : LeaseCall → Leasehold → Leasehold
  | .store offset v => (Leasehold.store offset v).after
  | .attest => Leasehold.attest.after
  | .sealUp length => (Leasehold.sealUp length).after
  | .poison => Leasehold.poison.after
  | .release => Leasehold.release.after

/-- The writes and sealings that a call makes. -/
def events (c : LeaseCall) (h : Leasehold) : List RegionEvent :=
  match c with
  | .store offset v => ((Recording.note [.stored] (Leasehold.store offset v)).after ⟨h, []⟩).events
  | .sealUp length => ((Recording.note [.sealed] (Leasehold.sealUp length)).after ⟨h, []⟩).events
  | .attest | .poison | .release => []

end LeaseCall

namespace Leasehold

/-! ### The changes -/

/-- One cell is written, and the lease notes that it was. -/
def wrote (h : Leasehold) (a : Addr) (v : Cell) : Leasehold :=
  { h with memory := { h.memory with
      cells := h.memory.cells.setIfInBounds a.toInt.toNat v
      leases := h.memory.leases.modify h.lease fun l => { l with written := true } } }

/-- The lease is bound to an emission. -/
def bindLease (h : Leasehold) : Leasehold :=
  { h with memory := { h.memory with
      leases := h.memory.leases.modify h.lease fun l => { l with bound := true } } }

/-- The lease is closed, and its region is changed. -/
def close (h : Leasehold) (span : Span) (f : Span → Span) : Leasehold :=
  { h with memory :=
      { h.memory with leases := h.memory.leases.modify h.lease fun l =>
          { l with done := true } }.updateSpan span.id f }

/-- The region of a lease that is sealed. -/
def sealedSpan (length : Int) (s : Span) : Span :=
  { s with lease? := none, length, poisoned := false }

/-- The region of a lease that is poisoned. -/
def poisonedSpan (s : Span) : Span := { s with lease? := none, poisoned := true }

/-- The region of a lease that is given up, after a write or without one. -/
def releasedSpan (written : Bool) (s : Span) : Span :=
  { s with lease? := none, poisoned := s.poisoned || written }

variable {h : Leasehold} {lease : Lease} {span : Span}

/-- A lease that does not stand refuses to be written through. -/
theorem store_of_fallen (hp : h.parts? = some (lease, span)) (hs : h.stands lease span = false)
    (offset : Int) (v : Cell) : store offset v h = .error (.leaseReleased span.label) h := by
  have hget : (get : Action Leasehold Leasehold) h = .ok h h := rfl
  unfold store
  rw [withParts_of_parts hp, bind_of_ok hget, hs]
  rfl

/-- A standing lease is written through if the address is one of memory. -/
theorem store_of_inBounds (hp : h.parts? = some (lease, span)) (hs : h.stands lease span)
    {offset : Int} (hin : h.memory.inBounds (span.base + Int64.ofInt offset)) (v : Cell) :
    store offset v h = .ok () (h.wrote (span.base + Int64.ofInt offset) v) := by
  rw [store_of_standing hp hs]
  unfold Memory.put
  rw [if_pos hin]
  rfl

/-- A write outside memory crashes. -/
theorem store_of_outside (hp : h.parts? = some (lease, span)) (hs : h.stands lease span)
    {offset : Int} (hin : ¬h.memory.inBounds (span.base + Int64.ofInt offset)) (v : Cell) :
    store offset v h = .error .crash h := by
  rw [store_of_standing hp hs]
  unfold Memory.put
  rw [if_neg hin]

/-- A lease is bound if it stands, its region is not executed and no emission is bound to it. -/
theorem attest_of_parts (hp : h.parts? = some (lease, span)) :
    attest h =
      if h.stands lease span = false then .error (.leaseReleased span.label) h
      else if 0 < span.running then .error (.regionBusy (.executing span.label)) h
      else if lease.bound then .error (.regionBusy (.bound span.label)) h
      else .ok () h.bindLease := by
  have hget : (get : Action Leasehold Leasehold) h = .ok h h := rfl
  unfold attest
  rw [withParts_of_parts hp, bind_of_ok hget]
  cases hs : h.stands lease span
  · rfl
  · by_cases hrunning : 0 < span.running
    · simp only [Bool.not_true, Bool.false_eq_true, if_false, if_pos hrunning, reduceCtorEq]
      rfl
    · cases hbound : lease.bound
      · simp only [Bool.not_true, Bool.false_eq_true, if_false, if_neg hrunning, reduceCtorEq]
        rfl
      · simp only [Bool.not_true, Bool.false_eq_true, if_false, if_neg hrunning, reduceCtorEq]
        rfl

/-- Poisoning closes the lease and marks the region. -/
theorem poison_of_parts (hp : h.parts? = some (lease, span)) :
    poison h =
      if lease.done then .error (.leaseReleased span.label) h
      else .ok () (h.close span poisonedSpan) := by
  unfold poison
  rw [withParts_of_parts hp]
  cases lease.done <;> rfl

/-- Giving a lease up closes it, and marks a region in which something was written. -/
theorem release_of_parts (hp : h.parts? = some (lease, span)) :
    release h = .ok () (if lease.done then h else h.close span (releasedSpan lease.written)) := by
  unfold release
  rw [withParts_of_parts hp]
  cases lease.done <;> rfl

/-- A lease that is not closed can be sealed. -/
theorem sealUp_of_open (hp : h.parts? = some (lease, span)) (hopen : lease.done = false)
    (length : Int) : sealUp length h = .ok () (h.close span (sealedSpan length)) := by
  rw [sealUp_of_parts hp, hopen]
  rfl

/-- A lease that is not closed can be poisoned. -/
theorem poison_of_open (hp : h.parts? = some (lease, span)) (hopen : lease.done = false) :
    poison h = .ok () (h.close span poisonedSpan) := by
  rw [poison_of_parts hp, hopen]
  rfl

/-- A lease that is not closed can be given up. -/
theorem release_of_open (hp : h.parts? = some (lease, span)) (hopen : lease.done = false) :
    release h = .ok () (h.close span (releasedSpan lease.written)) := by
  rw [release_of_parts hp, hopen]
  rfl

/-- What depends on the parts of a lease that has none crashes. -/
theorem withParts_of_none {α : Type} {action : Lease → Span → Action Leasehold α}
    (hp : h.parts? = none) : withParts action h = .error .crash h := by
  unfold withParts
  rw [hp]

/-! ### One call -/

/-- All that a call to a lease can do. -/
inductive Effect (h : Leasehold) : LeaseCall → List RegionEvent → Leasehold → Prop
  /-- The call is refused or has nothing to do. -/
  | nothing (c : LeaseCall) : Effect h c [] h
  | wrote {lease : Lease} {span : Span} {offset : Int} (v : Cell) :
    h.parts? = some (lease, span) → h.stands lease span →
    h.memory.inBounds (span.base + Int64.ofInt offset) →
    Effect h (.store offset v) [.stored] (h.wrote (span.base + Int64.ofInt offset) v)
  | bound {lease : Lease} {span : Span} :
    h.parts? = some (lease, span) → h.stands lease span → lease.bound = false →
    Effect h .attest [] h.bindLease
  | sealed {lease : Lease} {span : Span} (length : Int) :
    h.parts? = some (lease, span) → lease.done = false →
    Effect h (.sealUp length) [.sealed] (h.close span (sealedSpan length))
  | poisoned {lease : Lease} {span : Span} :
    h.parts? = some (lease, span) → lease.done = false →
    Effect h .poison [] (h.close span poisonedSpan)
  | released {lease : Lease} {span : Span} :
    h.parts? = some (lease, span) → lease.done = false →
    Effect h .release [] (h.close span (releasedSpan lease.written))

end Leasehold

namespace LeaseCall

open Leasehold

variable {h : Leasehold} {lease : Lease} {span : Span}

/-- Without a lease and a region nothing is done. -/
theorem effect_of_none (c : LeaseCall) (hp : h.parts? = none) :
    h.Effect c (c.events h) (c.after h) := by
  have hnone : c.after h = h ∧ c.events h = [] := by
    cases c with
    | store offset v =>
      have hstore : Leasehold.store offset v h = .error .crash h := withParts_of_none hp
      simp [LeaseCall.after, events, Action.after, Recording.note, hstore]
    | attest =>
      have hattest : Leasehold.attest h = .error .crash h := withParts_of_none hp
      simp [LeaseCall.after, events, Action.after, hattest]
    | sealUp length =>
      have hseal : Leasehold.sealUp length h = .error .crash h := withParts_of_none hp
      simp [LeaseCall.after, events, Action.after, Recording.note, hseal]
    | poison =>
      have hpoison : Leasehold.poison h = .error .crash h := withParts_of_none hp
      simp [LeaseCall.after, events, Action.after, hpoison]
    | release =>
      have hrelease : Leasehold.release h = .error .crash h := withParts_of_none hp
      simp [LeaseCall.after, events, Action.after, hrelease]
  rw [hnone.1, hnone.2]
  exact .nothing c

/-- **A call to a lease has one of the six effects.** -/
theorem effect (c : LeaseCall) (h : Leasehold) : h.Effect c (c.events h) (c.after h) := by
  rcases hp : h.parts? with _ | ⟨lease, span⟩
  · exact effect_of_none c hp
  cases c with
  | store offset v =>
    cases hs : h.stands lease span with
    | false =>
      simp only [LeaseCall.after, events, Action.after, Recording.note, store_of_fallen hp hs]
      exact .nothing _
    | true =>
      by_cases hin : h.memory.inBounds (span.base + Int64.ofInt offset)
      · simp only [LeaseCall.after, events, Action.after, Recording.note,
          store_of_inBounds hp hs hin]
        exact .wrote v hp hs hin
      · simp only [LeaseCall.after, events, Action.after, Recording.note,
          store_of_outside hp hs hin]
        exact .nothing _
  | attest =>
    simp only [LeaseCall.after, events, Action.after, attest_of_parts hp]
    cases hs : h.stands lease span with
    | false => exact .nothing _
    | true =>
      by_cases hrunning : 0 < span.running
      · simp only [if_pos hrunning, Bool.true_eq_false, if_false]
        exact .nothing _
      · cases hbound : lease.bound with
        | true =>
          simp only [if_neg hrunning, Bool.true_eq_false, if_false, if_true]
          exact .nothing _
        | false =>
          simp only [if_neg hrunning, Bool.true_eq_false, Bool.false_eq_true, if_false]
          exact .bound hp hs hbound
  | sealUp length =>
    simp only [LeaseCall.after, events, Action.after, Recording.note, sealUp_of_parts hp]
    cases hdone : lease.done with
    | true => exact .nothing _
    | false => exact .sealed length hp hdone
  | poison =>
    simp only [LeaseCall.after, events, Action.after, poison_of_parts hp]
    cases hdone : lease.done with
    | true => exact .nothing _
    | false => exact .poisoned hp hdone
  | release =>
    simp only [LeaseCall.after, events, Action.after, release_of_parts hp]
    cases hdone : lease.done with
    | true => exact .nothing _
    | false => exact .released hp hdone

/-- A call to a lease is one to the same lease afterwards. -/
@[simp] theorem lease_after (c : LeaseCall) (h : Leasehold) : (c.after h).lease = h.lease := by
  have heffect := c.effect h
  generalize c.after h = h', c.events h = events at heffect
  cases heffect <;> rfl

end LeaseCall

namespace Leasehold

/-- A lease that stands is not closed. -/
theorem done_of_stands {h : Leasehold} {lease : Lease} {span : Span}
    (hs : h.stands lease span) : lease.done = false := by
  unfold stands at hs
  simpa using (Bool.and_eq_true_iff.mp hs).1

/-- A lease that stands is the one that its region records. -/
theorem lease?_of_stands {h : Leasehold} {lease : Lease} {span : Span}
    (hs : h.stands lease span) : span.lease? = some h.lease := by
  unfold stands at hs
  simpa using (Bool.and_eq_true_iff.mp hs).2

end Leasehold

/-- **A lease that is closed changes nothing any more.** -/
theorem LeaseCall.after_of_done (c : LeaseCall) {h : Leasehold} {lease : Lease}
    (hlease : h.memory.leases[h.lease]? = some lease) (hdone : lease.done = true) :
    c.after h = h := by
  have hopen {l : Lease} {s : Span} (hp : h.parts? = some (l, s)) : l.done = true := by
    obtain ⟨hl, -⟩ := Leasehold.parts?_eq_some_iff.mp hp
    rw [hlease] at hl
    cases hl
    exact hdone
  have heffect := c.effect h
  generalize c.after h = h', c.events h = events at heffect
  cases heffect with
  | nothing => rfl
  | wrote v hp hs hin => exact absurd (hopen hp) (by simp [Leasehold.done_of_stands hs])
  | bound hp hs hbound => exact absurd (hopen hp) (by simp [Leasehold.done_of_stands hs])
  | sealed length hp hd => exact absurd (hopen hp) (by simp [hd])
  | poisoned hp hd => exact absurd (hopen hp) (by simp [hd])
  | released hp hd => exact absurd (hopen hp) (by simp [hd])

end CellMachine
