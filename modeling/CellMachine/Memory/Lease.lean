import CellMachine.Memory.Basic

/-!
# Leases

A lease lets one emission overwrite a region of memory. While it is open the machine does not enter
the region. Sealing the lease publishes the new stream; poisoning it, or releasing it after a
write, makes the region one that cannot be entered until it is leased and sealed again.

`Leasehold` is a memory seen through one of its leases, and a region in the sense of emissions.
-/

namespace CellMachine

namespace Memory

/-- Opens a lease on a region. -/
def openLease (s : Span) : Action Memory Nat := fun m =>
  if s.lease?.isSome then .error (.regionBusy (.leased s.label)) m
  else if 0 < s.running then .error (.regionBusy (.executing s.label)) m
  else
    let id := m.leases.size
    let m := { m with leases := m.leases.push { span := s.id } }
    .ok id (m.updateSpan s.id fun s => { s with lease? := some id })

/-- Opens a lease on the region of a name. -/
def leaseNamed (name : String) : Action Memory Nat := do
  let m ← EStateM.get
  match m.spanNamed? name with
  | none => throw (.unknownRegion name)
  | some s => openLease s

/-- Opens a lease on a range of cells, which is a region as it stands or lies in memory that is
handed out, outside every region; then it becomes a region without a name. -/
def leaseAt (base : Addr) (capacity : Int64) : Action Memory Nat := do
  let m ← EStateM.get
  if capacity ≤ 0 ∨ base < 0 ∨ m.next < base + capacity then
    throw (.outOfBounds (.unallocated base capacity.toInt))
  match m.find? base with
  | none => openLease (← register "" base capacity)
  | some s =>
    if s.base ≠ base ∨ s.capacity ≠ capacity then throw (.regionOverlap s.label)
    openLease s

end Memory

/-- A memory seen through one of its leases. -/
structure Leasehold where
  lease : Nat
  memory : Memory
  deriving Repr

namespace Leasehold

/-- The lease and its region. -/
def parts? (h : Leasehold) : Option (Lease × Span) := do
  let lease ← h.memory.leases[h.lease]?
  let span ← h.memory.span? lease.span
  return (lease, span)

/-- Does something that depends on the lease and its region. -/
def withParts {α : Type} (action : Lease → Span → Action Leasehold α) : Action Leasehold α :=
  fun h =>
    match h.parts? with
    | some (lease, span) => action lease span h
    | none => .error .crash h

/-- Does something to the memory. -/
def onMemory {α : Type} (action : Action Memory α) : Action Leasehold α := fun h =>
  match action h.memory with
  | .ok a memory => .ok a { h with memory }
  | .error failure memory => .error failure { h with memory }

/-- Changes the record of the lease. -/
def updateLease (f : Lease → Lease) : Action Leasehold Unit :=
  modify fun h =>
    { h with memory := { h.memory with leases := h.memory.leases.modify h.lease f } }

/-- Changes the region. -/
def updateSpan (span : Span) (f : Span → Span) : Action Leasehold Unit :=
  modify fun h => { h with memory := h.memory.updateSpan span.id f }

/-- Whether the lease still stands: it is the open lease of its region. -/
def stands (h : Leasehold) (lease : Lease) (span : Span) : Bool :=
  !lease.done && span.lease? == some h.lease

/-- Reads one cell. -/
def load (h : Leasehold) (offset : Int) : Except Failure Cell :=
  match h.parts? with
  | some (_, span) => h.memory.get (span.base + Int64.ofInt offset)
  | none => .error .crash

/-- Writes one cell. The offset is not compared with the capacity. -/
def store (offset : Int) (v : Cell) : Action Leasehold Unit :=
  withParts fun lease span => do
    if !(← get).stands lease span then throw (.leaseReleased span.label)
    onMemory (Memory.put (span.base + Int64.ofInt offset) v)
    updateLease fun l => { l with written := true }

/-- Binds the lease to one dynamic emission. -/
def attest : Action Leasehold Unit :=
  withParts fun lease span => do
    if !(← get).stands lease span then throw (.leaseReleased span.label)
    if 0 < span.running then throw (.regionBusy (.executing span.label))
    if lease.bound then throw (.regionBusy (.bound span.label))
    updateLease fun l => { l with bound := true }

/-- Closes the lease and publishes the first `length` cells: the region can be entered again. -/
def sealUp (length : Int) : Action Leasehold Unit :=
  withParts fun lease span => do
    if lease.done then throw (.leaseReleased span.label)
    updateLease fun l => { l with done := true }
    updateSpan span fun s => { s with lease? := none, length, poisoned := false }

/-- Closes the lease; the region cannot be entered. -/
def poison : Action Leasehold Unit :=
  withParts fun lease span => do
    if lease.done then throw (.leaseReleased span.label)
    updateLease fun l => { l with done := true }
    updateSpan span fun s => { s with lease? := none, poisoned := true }

/-- Gives the lease up. A region in which nothing was written stays as it was; any other is
poisoned. A lease that was closed before stays closed. -/
def release : Action Leasehold Unit :=
  withParts fun lease span => do
    if !lease.done then
      updateLease fun l => { l with done := true }
      updateSpan span fun s =>
        { s with lease? := none, poisoned := s.poisoned || lease.written }

end Leasehold

instance : Region Leasehold where
  base h := match h.parts? with
    | some (_, span) => span.base
    | none => 0
  capacity h := match h.parts? with
    | some (_, span) => span.capacity.toInt.toNat
    | none => 0
  origin _ := 0
  load := Leasehold.load
  store := Leasehold.store
  attest := Leasehold.attest
  sealUp := Leasehold.sealUp
  poison := Leasehold.poison

end CellMachine
