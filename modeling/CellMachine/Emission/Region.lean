import CellMachine.Failure

/-!
# Regions

A region is what an emission writes into: a run of cells with a base address. Offsets count from
the base. Sealing hands the first cells over as a finished stream; poisoning marks the region as
never to be entered. A region may start in the middle of a routine; its origin is then the distance
from the start of the routine, and absolute label operands are counted from there.
-/

namespace CellMachine

/-- The operations of a region whose whole state is a value of `ρ`. -/
class Region (ρ : Type) where
  /-- The address of the first cell. -/
  base : ρ → Addr
  /-- The number of cells. -/
  capacity : ρ → Nat
  /-- The distance of the first cell from the start of its routine. -/
  origin : ρ → Int
  /-- Reads one cell. -/
  load : ρ → (offset : Int) → Except Failure Cell
  /-- Writes one cell. It fails once the region no longer accepts writes. -/
  store : (offset : Int) → Cell → Action ρ Unit
  /-- Binds the region to one dynamic emission. It fails unless the region accepts writes, is not
  being executed and was never bound before. -/
  attest : Action ρ Unit
  /-- Hands the first `length` cells over as a finished stream. -/
  sealUp : (length : Int) → Action ρ Unit
  /-- Marks the region as never to be entered. -/
  poison : Action ρ Unit

end CellMachine
