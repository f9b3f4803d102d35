import CellMachine.Word
import CellMachine.Instruction.Kind

/-!
# Labels

A label names a position of a stream. It may be used before it is defined: the cells that wait for
it are kept as sites and written when the definition comes. Absolute operands are counted from the
start of the routine, which lies `origin` cells before the stream.
-/

namespace CellMachine

/-- An operand cell that waits for a label. -/
structure Site where
  offset : Nat
  rule : PatchRule
  deriving DecidableEq, Repr

/-- A label of a stream. -/
structure Label where
  name : String
  /-- The offset of the definition, once there is one. -/
  offset? : Option Nat := none
  /-- The cells that wait for the definition. -/
  pending : List Site := []
  deriving DecidableEq, Repr

/-- The labels of a stream, each name once. -/
structure LabelTable where
  origin : Int
  labels : List Label := []
  deriving DecidableEq, Repr

namespace LabelTable

/-- The cell for a label at `label`, seen from the operand cell at `site`. -/
def operand (t : LabelTable) (rule : PatchRule) (label site : Nat) : Cell :=
  if rule = .absolute then rule.apply (label + t.origin) site else rule.apply label site

/-- The label of a name. -/
def find? (t : LabelTable) (name : String) : Option Label :=
  t.labels.find? fun l => l.name == name

/-- The offset at which a label is defined. -/
def offset? (t : LabelTable) (name : String) : Option Nat :=
  (t.find? name).bind Label.offset?

/-- The cells that wait for a label. -/
def pending (t : LabelTable) (name : String) : List Site :=
  match t.find? name with
  | some l => l.pending
  | none => []

/-- Changes the label of a name, which is a new one if the name was not there. -/
def updateLabels (name : String) (f : Label → Label) : List Label → List Label
  | [] => [f { name }]
  | l :: rest => if l.name = name then f l :: rest else l :: updateLabels name f rest

/-- Changes the label of a name. -/
def update (t : LabelTable) (name : String) (f : Label → Label) : LabelTable :=
  { t with labels := updateLabels name f t.labels }

/-- Notes a use of a label at the operand cell `site`. The cell to write is the operand itself if
the label is defined, and else a placeholder, for which the cell is queued. -/
def reference (t : LabelTable) (name : String) (site : Nat) (rule : PatchRule) :
    Cell × LabelTable :=
  match t.offset? name with
  | some offset => (t.operand rule offset site, t)
  | none => (0, t.update name fun l => { l with pending := l.pending ++ [⟨site, rule⟩] })

/-- Records the definition of a label. -/
def define (t : LabelTable) (name : String) (offset : Nat) : LabelTable :=
  t.update name fun l => { l with offset? := some offset }

/-- Forgets the cells that waited for a label. -/
def settle (t : LabelTable) (name : String) : LabelTable :=
  t.update name fun l => { l with pending := [] }

/-- The names of the labels that were used and never defined, in the order of their characters. -/
def unresolved (t : LabelTable) : List String :=
  let open_ := t.labels.filter fun l => l.offset?.isNone && !l.pending.isEmpty
  (open_.map Label.name).mergeSort fun a b => !(b < a)

/-- The labels that are defined, with their offsets, in the order of their names. -/
def resolved (t : LabelTable) : List (String × Nat) :=
  (t.labels.filterMap fun l => l.offset?.map fun o => (l.name, o)).mergeSort
    fun a b => !(b.1 < a.1)

end LabelTable

end CellMachine
