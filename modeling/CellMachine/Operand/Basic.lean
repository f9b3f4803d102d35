import CellMachine.Instruction.Kind
import CellMachine.Word

/-!
# Operands

An operand as a source states it, before names are looked up. A variable is given by its name or by
a raw location; an operand asks for its location or for its contents.
-/

namespace CellMachine

/-- A variable, by name or by a raw location. -/
inductive SymbolRef
  | named (name : String)
  | raw (addr : Addr)
  deriving DecidableEq, Repr

namespace SymbolRef

/-- The variable of a name. The empty name is the raw location zero. -/
def ofName (name : String) : SymbolRef :=
  if name.isEmpty then .raw 0 else .named name

/-- The text of a variable. -/
def text : SymbolRef → String
  | .named name => name
  | .raw addr => Addr.text addr

end SymbolRef

/-- An operand of an instruction. -/
inductive Operand
  /-- A literal cell. -/
  | immediate (value : Cell)
  /-- The location of a variable, never its contents. -/
  | location (var : SymbolRef)
  /-- The contents that a variable is known to have before the program runs. -/
  | contents (var : SymbolRef)
  /-- A label of the same stream. -/
  | label (name : String)
  deriving DecidableEq, Repr

namespace Operand

/-- The kind of slot that the operand fills. -/
def kind : Operand → Kind
  | .immediate _ => .immediate
  | .location _ => .address
  | .contents _ => .immediate
  | .label _ => .label

/-- The text of an operand. -/
def text : Operand → String
  | .immediate value => toString value.toInt
  | .location var => "&" ++ var.text
  | .contents var => var.text
  | .label name => ":" ++ name

end Operand

/-- The kinds of a list of operands. -/
def shapeOf (operands : List Operand) : List Kind :=
  operands.map Operand.kind

end CellMachine
