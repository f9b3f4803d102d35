/-!
# Operand kinds, patch rules and registers

The vocabulary of the instruction table: what an operand slot holds, how a label operand is
computed once its label is known, and which registers an instruction uses without naming them in a
slot.
-/

namespace CellMachine

/-- What an operand slot holds, or what an operand supplies. -/
inductive Kind
  /-- A literal cell. -/
  | immediate
  /-- The location of a variable: an address, or a frame offset. -/
  | address
  /-- A position in the same stream. -/
  | label
  /-- A kind that no slot has. -/
  | other (code : UInt8)
  deriving DecidableEq, Repr, Inhabited

namespace Kind

/-- The kind with a given code. -/
def ofCode : UInt8 → Kind
  | 1 => .immediate
  | 2 => .address
  | 3 => .label
  | n => .other n

/-- The text of a kind. -/
def text : Kind → String
  | .immediate => "imm"
  | .address => "addr"
  | .label => "label"
  | .other n => s!"OperandKind({n})"

/-- Whether a slot of kind `slot` takes an operand of kind `supplied`. A location may stand where a
literal is wanted, but not the other way round. -/
def accepts (slot supplied : Kind) : Bool :=
  slot == supplied || (slot == .immediate && supplied == .address)

end Kind

/-- The text of a list of operand kinds. -/
def shapeText (shape : List Kind) : String :=
  "(" ++ ", ".intercalate (shape.map Kind.text) ++ ")"

/-- How a label operand is computed once the label is known. -/
inductive PatchRule
  /-- There is no label operand. -/
  | none
  /-- The offset of the label in the stream. -/
  | absolute
  /-- The offset of the label less the offset of the operand cell. -/
  | relative
  /-- A rule that no instruction has. -/
  | other (code : UInt8)
  deriving DecidableEq, Repr, Inhabited

namespace PatchRule

/-- The rule with a given code. -/
def ofCode : UInt8 → PatchRule
  | 0 => .none
  | 1 => .absolute
  | 2 => .relative
  | n => .other n

/-- The text of a rule. -/
def text : PatchRule → String
  | .none => "none"
  | .absolute => "absolute"
  | .relative => "relative"
  | .other n => s!"PatchRule({n})"

/-- The operand for the label offset `label` at the operand cell `site`. -/
def apply (rule : PatchRule) (label site : Int) : Int64 :=
  if rule = .relative then Int64.ofInt (label - site) else Int64.ofInt label

end PatchRule

/-- The registers that an instruction uses besides its operands. -/
inductive Implicit
  | none
  | p
  | s
  | both
  deriving DecidableEq, Repr, Inhabited

namespace Implicit

/-- The registers as a bit set, `P` first. -/
def ofCode? : UInt8 → Option Implicit
  | 0 => some .none
  | 1 => some .p
  | 2 => some .s
  | 3 => some .both
  | _ => Option.none

/-- The text of a set of registers. -/
def text : Implicit → String
  | .none => "-"
  | .p => "P"
  | .s => "S"
  | .both => "P,S"

end Implicit

/-- The text of a code within a family of named codes: the name, if the code has one. -/
def codeText (family : String) (name? : Option String) (code : Int) : String :=
  name?.getD s!"{family}({code})"

end CellMachine
