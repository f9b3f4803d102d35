import CellMachine.Text.Digits

/-!
# Words of the machine

The cell is the machine's only unit: opcodes, operands, data and stack slots take one cell each.
Cells and addresses are 64-bit signed numbers and all arithmetic on them wraps around.
-/

namespace CellMachine

/-- A word of the machine. -/
abbrev Cell := Int64

/-- The index of a cell in memory. An address may lie outside every memory. -/
abbrev Addr := Int64

/-- The text of an address: `@` and hexadecimal digits, filled up with zeros to four characters.
A minus sign counts as one of the four. -/
def Addr.text (a : Addr) : String :=
  if a.toInt < 0 then "@-" ++ Text.padLeft '0' 3 (Text.hexUpper a.toInt.natAbs)
  else "@" ++ Text.padLeft '0' 4 (Text.hexUpper a.toInt.natAbs)

/-- The cell for a truth value. -/
def Cell.ofBool (b : Bool) : Cell :=
  if b then 1 else 0

/-- Where a variable lives. -/
inductive StorageClass
  /-- At a fixed address. -/
  | global
  /-- At an offset from the frame pointer. -/
  | frame
  /-- A class that no instruction serves. -/
  | other (code : UInt8)
  deriving DecidableEq, Repr, Inhabited

/-- The storage class with a given code. -/
def StorageClass.ofCode : UInt8 → StorageClass
  | 0 => .global
  | 1 => .frame
  | n => .other n

/-- The text of a storage class. -/
def StorageClass.text : StorageClass → String
  | .global => "global"
  | .frame => "local"
  | .other n => s!"StorageClass({n})"

end CellMachine
