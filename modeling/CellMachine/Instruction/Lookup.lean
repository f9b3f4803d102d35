import CellMachine.Failure
import CellMachine.Instruction.Generic

/-!
# Looking up instructions

An instruction is found by its mnemonic and must be given operands of its shape: as many as it has
slots, each of a kind that its slot takes. The first slot that does not fit is reported.
-/

namespace CellMachine

/-- The first position, counted from `slot`, whose kind does not fit, with both kinds. -/
def firstMisfit? : (slot : Nat) → (slots shape : List Kind) → Option (Nat × Kind × Kind)
  | slot, wanted :: slots, given :: shape =>
    if wanted.accepts given then firstMisfit? (slot + 1) slots shape
    else some (slot, wanted, given)
  | _, _, _ => none

namespace Op

/-- Checks the kinds of the operands supplied to an instruction. -/
def checkShape (op : Op) (shape : List Kind) : Except Failure Unit :=
  if shape.length ≠ op.slots.length then .error (.operandCount op shape.length)
  else match firstMisfit? 1 op.slots shape with
    | some (slot, wanted, given) => .error (.slotKind op slot wanted given)
    | none => .ok ()

/-- The instruction of a mnemonic, if operands of the given kinds fit it. -/
def lookup (mnemonic : String) (shape : List Kind) : Except Failure Op :=
  match ofMnemonic? mnemonic with
  | none => .error (.unknownMnemonic mnemonic)
  | some op => (op.checkShape shape).map fun _ => op

end Op

/-- The instruction that a generic mnemonic stands for, for a variable of a storage class. -/
def selectVariant (mnemonic : String) (storage : StorageClass) : Except Failure Op :=
  match Generic.ofMnemonic? mnemonic with
  | none => .error (.notGeneric mnemonic)
  | some g =>
    match g.select? storage with
    | none => .error (.noVariant storage)
    | some op => .ok op

end CellMachine
