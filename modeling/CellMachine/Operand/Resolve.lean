import CellMachine.Instruction.Lookup
import CellMachine.Operand.Symbol
import CellMachine.Text.Name

/-!
# Resolving operands

A resolver turns the operands of an instruction into cells. Names are looked up in a symbol table;
a label stays open, together with the rule by which its cell will be computed. The storage class of
a variable must be the one that the instruction works on, and the contents of a variable are known
to a static emission alone.
-/

namespace CellMachine

/-- The cell of an operand, or the label that it waits for. -/
inductive Encoded
  | cell (value : Cell)
  | label (name : String) (rule : PatchRule)
  deriving DecidableEq, Repr

/-- What operands are resolved with. -/
structure Resolver where
  mode : Mode
  /-- The symbols at hand, if there is a table at all. -/
  symbols? : Option SymbolTable := none

namespace Resolver

/-- The symbol of a name. -/
def lookup (r : Resolver) (name : String) : Except Failure Symbol :=
  match r.symbols? with
  | none => .error (.noSymbolTable name)
  | some table =>
    match table name with
    | none => .error (.unknownSymbol name)
    | some symbol => .ok symbol

/-- The storage class that a slot of an instruction wants of a variable whose location it is given.
A location that stands for a literal must be a fixed address. -/
def wantedStorage (op : Op) (slot : Kind) : StorageClass :=
  if slot = .address then op.storage else .global

/-- Encodes an operand for a slot whose kind it fits. -/
def encode (r : Resolver) (op : Op) (slot : Kind) : Operand → Except Failure Encoded
  | .immediate value => .ok (.cell value)
  | .location (.raw addr) => .ok (.cell addr)
  | .location (.named name) => do
    let symbol ← r.lookup name
    let wanted := wantedStorage op slot
    if symbol.storage = wanted then .ok (.cell symbol.location)
    else .error (.wrongStorage symbol.name symbol.storage op wanted)
  | .contents var =>
    if r.mode = .static then
      match var with
      | .raw _ => .error .contentsOfRaw
      | .named name => do
        let symbol ← r.lookup name
        match symbol.contents? with
        | none => .error (.noContents symbol.name)
        | some value => .ok (.cell value)
    else .error (.contentsUnknown var r.mode)
  | .label name =>
    if Text.isName name then .ok (.label name op.patch) else .error (.labelName name)

/-- Encodes an operand for the slot with index `slot`, which may be no slot of the instruction. -/
def resolve (r : Resolver) (op : Op) (slot : Int) (operand : Operand) : Except Failure Encoded :=
  let result : Except Failure Encoded :=
    match if slot < 0 then none else op.slots[slot.toNat]? with
    | none => .error (.noSlot op)
    | some wanted =>
      if wanted.accepts operand.kind then r.encode op wanted operand
      else .error (.unfit wanted operand.kind)
  result.mapError (.inOperand op (Int64.ofInt (slot + 1)).toInt operand)

/-- Encodes the operands from the slot `slot` on; the first failure is reported. -/
def resolveFrom (r : Resolver) (op : Op) : (slot : Nat) → List Operand →
    Except Failure (List Encoded)
  | _, [] => .ok []
  | slot, operand :: rest => do
    let cell ← r.resolve op slot operand
    let cells ← r.resolveFrom op (slot + 1) rest
    return cell :: cells

/-- Encodes every operand of an instruction. -/
def resolveAll (r : Resolver) (op : Op) (operands : List Operand) :
    Except Failure (List Encoded) := do
  op.checkShape (shapeOf operands)
  r.resolveFrom op 0 operands

/-- The storage class of the first variable among the operands. A raw location counts as global. -/
def classify (r : Resolver) : List Operand → Except Failure StorageClass
  | [] => .error .noSymbolOperand
  | .location (.raw _) :: _ | .contents (.raw _) :: _ => .ok .global
  | .location (.named name) :: _ | .contents (.named name) :: _ =>
    (r.lookup name).map Symbol.storage
  | .immediate _ :: rest | .label _ :: rest => r.classify rest

/-- The instruction that a mnemonic means with the given operands. In a static emission a generic
mnemonic is replaced by the variant for its variable. -/
def chooseOp (r : Resolver) (mnemonic : String) (operands : List Operand) : Except Failure Op :=
  if r.mode = .static ∧ (Generic.ofMnemonic? mnemonic).isSome then do
    let storage ← (r.classify operands).mapError (.inSelection mnemonic)
    let op ← selectVariant mnemonic storage
    op.checkShape (shapeOf operands)
    return op
  else Op.lookup mnemonic (shapeOf operands)

end Resolver

end CellMachine
