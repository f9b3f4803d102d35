import CellMachine.Failure
import CellMachine.Operand.Symbol

/-!
# Scopes

The variables that a program under construction can name: its globals, and the locals of the open
frames. An inner local hides an outer one, and a local hides a global.
-/

namespace CellMachine

/-- A global variable of a program. -/
structure DeclaredGlobal where
  name : String
  addr : Addr
  /-- The contents of its data cell. -/
  init : Cell
  deriving DecidableEq, Repr

/-- The variables of a program under construction. -/
structure Scope where
  /-- The globals in the order of their declaration. -/
  globals : List DeclaredGlobal := []
  /-- The locals of the open frames, innermost first. -/
  frames : List (List Symbol) := []
  deriving DecidableEq, Repr

namespace Scope

/-- Opens a frame. -/
def push (s : Scope) : Scope := { s with frames := [] :: s.frames }

/-- The number of open frames. -/
def depth (s : Scope) : Nat := s.frames.length

/-- Closes the innermost frame. -/
def pop : Action Scope Unit := fun s =>
  match s.frames with
  | [] => .error .noFrame s
  | _ :: frames => .ok () { s with frames }

/-- Declares a local of the innermost frame at a frame offset. -/
def declareLocal (name : String) (offset : Cell) : Action Scope Unit := fun s =>
  match s.frames with
  | [] => .error (.localOutside name) s
  | frame :: frames =>
    if frame.any fun symbol => symbol.name == name then .error (.duplicateLocal name) s
    else
      let symbol := { name, storage := .frame, location := offset }
      .ok () { s with frames := (symbol :: frame) :: frames }

/-- Declares a global. -/
def declareGlobal (name : String) (addr : Addr) (init : Cell) : Action Scope Unit := fun s =>
  if s.globals.any fun g => g.name == name then .error (.duplicateGlobal name) s
  else .ok () { s with globals := s.globals ++ [{ name, addr, init }] }

/-- The local of a name, from the innermost frame that has it. -/
def local? (frames : List (List Symbol)) (name : String) : Option Symbol :=
  frames.findSome? fun frame => frame.find? fun symbol => symbol.name == name

/-- The global of a name. -/
def global? (s : Scope) (name : String) : Option Symbol :=
  (s.globals.find? fun g => g.name == name).map fun g =>
    { name, storage := .global, location := g.addr, contents? := some g.init }

/-- The variable of a name. -/
def symbol? (s : Scope) : SymbolTable := fun name =>
  (local? s.frames name).or (s.global? name)

end Scope

end CellMachine
