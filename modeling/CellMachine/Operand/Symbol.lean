import CellMachine.Word

/-!
# Symbols

What is known about a named variable while code is being emitted, and tables of symbols. A table is
a function, so that the variables of a program, of a memory or of a list serve alike.
-/

namespace CellMachine

/-- A named variable. -/
structure Symbol where
  name : String
  storage : StorageClass
  /-- The address of a global variable, the frame offset of a local one. -/
  location : Cell
  /-- The contents before the program runs, if they are known. -/
  contents? : Option Cell := none
  deriving DecidableEq, Repr

/-- The variables that can be named. -/
abbrev SymbolTable := String → Option Symbol

/-- The table of a list of symbols. The last symbol of a name counts. -/
def SymbolTable.ofList (symbols : List Symbol) : SymbolTable :=
  fun name => symbols.reverse.find? fun s => s.name == name

end CellMachine
