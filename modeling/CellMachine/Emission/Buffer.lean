import CellMachine.Emission.Region

/-!
# Buffers

A buffer is a region with cells of its own. Its base address is used for computing addresses only.
-/

namespace CellMachine

/-- The greatest number of cells that storage can be asked for. -/
def maxCells : Nat := 1 <<< 45

/-- A run of zero cells, unless the count is negative or beyond all storage. -/
def zeroCells (count : Int) : Except Failure (Array Cell) :=
  if 0 ≤ count ∧ count ≤ maxCells then .ok (Array.replicate count.toNat 0) else .error .crash

/-- A region with cells of its own. -/
structure Buffer where
  base : Addr
  cells : Array Cell
  /-- The length of the stream that was handed over, once the buffer is sealed. -/
  sealed? : Option Int := none
  poisoned : Bool := false
  /-- Whether a dynamic emission is bound to the buffer. -/
  bound : Bool := false
  deriving Repr

namespace Buffer

/-- A buffer of `capacity` zero cells. -/
def new (base : Addr) (capacity : Int) : Except Failure Buffer :=
  (zeroCells capacity).map fun cells => { base, cells }

/-- Why the buffer does not accept writes, if it does not. -/
def refusal? (b : Buffer) : Option Failure :=
  if b.sealed?.isSome then some (.bufferSealed b.base)
  else if b.poisoned then some (.bufferPoisoned b.base)
  else none

/-- Reads one cell. -/
def load (b : Buffer) (offset : Int) : Except Failure Cell :=
  if offset < 0 then .error .crash
  else match b.cells[offset.toNat]? with
    | some v => .ok v
    | none => .error .crash

/-- Writes one cell. -/
def store (offset : Int) (v : Cell) : Action Buffer Unit := fun b =>
  match b.refusal? with
  | some failure => .error failure b
  | none =>
    if 0 ≤ offset ∧ offset.toNat < b.cells.size then
      .ok () { b with cells := b.cells.setIfInBounds offset.toNat v }
    else .error .crash b

/-- Binds the buffer to one dynamic emission. -/
def attest : Action Buffer Unit := fun b =>
  match b.refusal? with
  | some failure => .error failure b
  | none => if b.bound then .error (.bufferBound b.base) b else .ok () { b with bound := true }

/-- Hands the first `length` cells over. -/
def sealUp (length : Int) : Action Buffer Unit := fun b =>
  if b.sealed?.isSome ∨ b.poisoned then .error (.bufferReleased b.base) b
  else .ok () { b with sealed? := some length }

/-- Marks the buffer as never to be entered. -/
def poison : Action Buffer Unit := fun b =>
  if b.sealed?.isSome then .error (.bufferSealed b.base) b
  else .ok () { b with poisoned := true }

/-- The cells of the stream that was handed over, or all cells while the buffer is not sealed. -/
def contents (b : Buffer) : Except Failure (Array Cell) :=
  match b.sealed? with
  | none => .ok b.cells
  | some length =>
    if 0 ≤ length ∧ length ≤ b.cells.size then .ok (b.cells.extract 0 length.toNat)
    else .error .crash

end Buffer

instance : Region Buffer where
  base := Buffer.base
  capacity b := b.cells.size
  origin _ := 0
  load := Buffer.load
  store := Buffer.store
  attest := Buffer.attest
  sealUp := Buffer.sealUp
  poison := Buffer.poison

end CellMachine
