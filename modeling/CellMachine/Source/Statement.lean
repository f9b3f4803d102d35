import CellMachine.Source.Token

/-!
# Statements

A line of source holds at most one statement: a label, an instruction or directive with its
arguments, or both. Arguments are kept as texts that are read as operands later.
-/

namespace CellMachine

/-- An argument as the source states it, without blanks. -/
structure Arg where
  pos : Position
  text : RawText
  deriving DecidableEq, Repr

/-- One line of source. -/
structure Statement where
  pos : Position
  /-- The label that the line defines, without its colon. -/
  label? : Option String := none
  /-- The mnemonic, or the directive with its dot. -/
  op? : Option String := none
  args : List Arg := []
  deriving DecidableEq, Repr

namespace Statement

/-- Whether the statement is a directive. -/
def isDirective (s : Statement) : Bool :=
  match s.op? with
  | some op => op.toList.head? == some '.'
  | none => false

/-- The instruction or directive with its arguments. -/
def opText (op : String) (args : List Arg) : RawText :=
  if args.isEmpty then op
  else .ofString (op ++ " ") ++ (RawText.ofString ", ").intercalate (args.map Arg.text)

/-- The statement in the form in which it can be read again. -/
def text (s : Statement) : RawText :=
  match s.label?, s.op? with
  | none, none => []
  | some label, none => RawText.ofString (label ++ ":")
  | none, some op => opText op s.args
  | some label, some op => RawText.ofString (label ++ ": ") ++ opText op s.args

end Statement

end CellMachine
