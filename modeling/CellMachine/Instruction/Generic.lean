import CellMachine.Instruction.Op

/-!
# Generic mnemonics

A generic mnemonic names an access to a variable without saying where the variable lives. The
storage class of the variable selects the instruction: one for a fixed address, one for a frame
offset.
-/

namespace CellMachine

/-- The accesses that have a variant for each storage class. -/
inductive Generic
  /-- The address of the variable. -/
  | addrP
  | dec
  | inc
  | loadP
  | loadS
  | storP
  | storS
  deriving DecidableEq, Repr

namespace Generic

/-- Every generic mnemonic once, in the order of their names. -/
def all : List Generic := [.addrP, .dec, .inc, .loadP, .loadS, .storP, .storS]

/-- The name in source text. -/
def mnemonic : Generic → String
  | .addrP => "ADDR.U.P"
  | .dec => "DEC.U"
  | .inc => "INC.U"
  | .loadP => "LOAD.U.P"
  | .loadS => "LOAD.U.S"
  | .storP => "STOR.U.P"
  | .storS => "STOR.U.S"

/-- The generic access with a given name, in either case. -/
def ofMnemonic? (mnemonic : String) : Option Generic :=
  all.find? fun g => g.mnemonic == Text.capitals mnemonic

/-- The variant for a variable at a fixed address. The address of such a variable is a literal. -/
def global : Generic → Op
  | .addrP => .constP
  | .dec => .decG
  | .inc => .incG
  | .loadP => .loadP
  | .loadS => .loadS
  | .storP => .storP
  | .storS => .storS

/-- The variant for a variable at a frame offset. -/
def frame : Generic → Op
  | .addrP => .addrLP
  | .dec => .decL
  | .inc => .incL
  | .loadP => .loadLP
  | .loadS => .loadLS
  | .storP => .storLP
  | .storS => .storLS

/-- The variant for a storage class, if the class has one. -/
def select? (g : Generic) : StorageClass → Option Op
  | .global => some g.global
  | .frame => some g.frame
  | .other _ => none

end Generic

end CellMachine
