import CellMachine.Emission.Mode
import CellMachine.Word

/-!
# Finished streams

A routine is what a finalized emission leaves behind: where its stream starts, how long it is and
where its labels are. Only a successful finalization makes one, so its cells are complete.
-/

namespace CellMachine

/-- A finished stream. -/
structure Routine where
  base : Addr
  length : Nat
  mode : Mode
  /-- The labels with their offsets, in the order of their names. -/
  labels : List (String × Nat)
  deriving DecidableEq, Repr

namespace Routine

/-- The address of a label. -/
def label? (r : Routine) (name : String) : Option Addr :=
  (r.labels.lookup name).map fun offset => r.base + Int64.ofNat offset

end Routine

end CellMachine
