/-!
# Modes and states of an emission

A static emission makes part of a program that is being built; a dynamic one overwrites memory
that is already loaded. An emission is open until it is finalized or discarded.
-/

namespace CellMachine

/-- What the output of an emission is for. -/
inductive Mode
  /-- Part of a program under construction. -/
  | static
  /-- New contents of loaded memory. -/
  | dynamic
  deriving DecidableEq, Repr, Inhabited

namespace Mode

/-- The mode with a given code. -/
def ofCode? : UInt8 → Option Mode
  | 0 => some .static
  | 1 => some .dynamic
  | _ => none

/-- The text of a mode. -/
def text : Mode → String
  | .static => "static"
  | .dynamic => "dynamic"

end Mode

/-- How far an emission has come. -/
inductive Status
  | open
  | finalized
  | discarded
  deriving DecidableEq, Repr, Inhabited

namespace Status

/-- The status with a given code. -/
def ofCode? : UInt8 → Option Status
  | 0 => some .open
  | 1 => some .finalized
  | 2 => some .discarded
  | _ => none

/-- The text of a status. -/
def text : Status → String
  | .open => "open"
  | .finalized => "finalized"
  | .discarded => "discarded"

end Status

end CellMachine
