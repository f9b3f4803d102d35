import CellMachine.Emission.Label
import CellMachine.Emission.Region
import CellMachine.Emission.Routine
import CellMachine.Operand.Resolve

/-!
# Emission

An emission writes encoded instructions into a region, one after the other. Its context holds the
cursor, the labels and the status; the region holds the cells. An instruction is written whole or
not at all, labels may be used before they are defined, and finalizing seals the region as long as
no used label is missing. Discarding fills the region with traps and poisons it.

The symbols are an argument of each emitting action and not part of the context: they are looked up
in whatever the program or the memory holds at that moment.
-/

namespace CellMachine

/-- How far an emission has come. -/
structure Context where
  mode : Mode
  /-- The number of cells of the region. -/
  capacity : Nat
  /-- The offset of the next instruction. -/
  cursor : Nat := 0
  status : Status := .open
  labels : LabelTable
  /-- The number of instructions written. -/
  emitted : Nat := 0
  deriving Repr

namespace Context

/-- The number of cells that are left. -/
def remaining (c : Context) : Nat := c.capacity - c.cursor

/-- A fresh context for a region. -/
def fresh {ρ : Type} [Region ρ] (mode : Mode) (region : ρ) : Context where
  mode
  capacity := Region.capacity region
  labels := { origin := Region.origin region }

/-- Opens a static emission. -/
def openStatic {ρ : Type} [Region ρ] (region : ρ) : Context := fresh .static region

/-- Opens a dynamic emission, to which the region becomes bound. -/
def openDynamic {ρ : Type} [Region ρ] : Action ρ Context := fun region =>
  match Region.attest region with
  | .ok () region => .ok (fresh .dynamic region) region
  | .error cause region => .error (.attestRefused cause) region

end Context

/-- A context together with the region that it writes into. -/
structure Emission (ρ : Type) where
  context : Context
  region : ρ
  deriving Repr

namespace Emission

variable {ρ : Type}

/-- Does something to the region; `report` says how its failure is reported. -/
def onRegion {α : Type} (report : Failure → Failure) (action : Action ρ α) :
    Action (Emission ρ) α := fun e =>
  match action e.region with
  | .ok a region => .ok a { e with region }
  | .error cause region => .error (report cause) { e with region }

/-- Changes the context. -/
def modifyContext (f : Context → Context) : Action (Emission ρ) Unit :=
  modify fun e => { e with context := f e.context }

/-- The context. -/
def getContext : Action (Emission ρ) Context := fun e => .ok e.context e

/-- Fails unless the emission is open. -/
def checkOpen : Action (Emission ρ) Unit := fun e =>
  if e.context.status = .open then .ok () e else .error (.notOpen e.context.status) e

/-- The cell to write for a use of a label. -/
def reference (name : String) (site : Nat) (rule : PatchRule) : Action (Emission ρ) Cell :=
  fun e =>
    let (v, labels) := e.context.labels.reference name site rule
    .ok v { e with context := { e.context with labels } }

variable [Region ρ]

/-- Writes one cell of the region. -/
def store (offset : Nat) (v : Cell) : Action (Emission ρ) Unit :=
  onRegion .storeRefused (Region.store offset v)

/-! ### Instructions -/

/-- Writes operand cells from `offset` on. -/
def writeOperands : (offset : Nat) → List Encoded → Action (Emission ρ) Unit
  | _, [] => pure ()
  | offset, .cell v :: rest => do
    store offset v
    writeOperands (offset + 1) rest
  | offset, .label name rule :: rest => do
    let v ← reference name offset rule
    store offset v
    writeOperands (offset + 1) rest

/-- Writes one instruction at the cursor. -/
def emitOp (symbols? : Option SymbolTable) (op : Op) (operands : List Operand) :
    Action (Emission ρ) Unit := do
  checkOpen
  let c ← getContext
  let cells ← Action.ofExcept (Resolver.resolveAll ⟨c.mode, symbols?⟩ op operands)
  if c.capacity < c.cursor + op.width then throw (.overflow op c.cursor c.capacity)
  store c.cursor op.cell
  writeOperands (c.cursor + 1) cells
  modifyContext fun c => { c with cursor := c.cursor + op.width, emitted := c.emitted + 1 }

/-- Writes the instruction of a mnemonic at the cursor. -/
def emit (symbols? : Option SymbolTable) (mnemonic : String) (operands : List Operand) :
    Action (Emission ρ) Unit := do
  checkOpen
  let c ← getContext
  let op ← Action.ofExcept (Resolver.chooseOp ⟨c.mode, symbols?⟩ mnemonic operands)
  emitOp symbols? op operands

/-! ### Labels -/

/-- Writes the cells that waited for the label at `target`. -/
def writeSites (labels : LabelTable) (target : Nat) : List Site → Action (Emission ρ) Unit
  | [] => pure ()
  | site :: rest => do
    store site.offset (labels.operand site.rule target site.offset)
    writeSites labels target rest

/-- Defines a label at the cursor and writes every cell that waited for it. -/
def defineLabel (name : String) : Action (Emission ρ) Unit := do
  checkOpen
  if !Text.isName name then throw (.labelName name)
  let c ← getContext
  match c.labels.offset? name with
  | some offset => throw (.duplicateLabel name offset)
  | none =>
    modifyContext fun c => { c with labels := c.labels.define name c.cursor }
    writeSites c.labels c.cursor (c.labels.pending name)
    modifyContext fun c => { c with labels := c.labels.settle name }

/-! ### Closing -/

/-- Closes the emission and seals the region. It fails, and changes nothing, if a label was used
and never defined. -/
def finalize : Action (Emission ρ) Routine := do
  checkOpen
  let c ← getContext
  if !c.labels.unresolved.isEmpty then throw (.unresolvedLabels c.labels.unresolved)
  onRegion .sealRefused (Region.sealUp c.cursor)
  modifyContext fun c => { c with status := .finalized }
  let e ← get
  return {
    base := Region.base e.region
    length := c.cursor
    mode := c.mode
    labels := c.labels.resolved }

/-- Writes traps into `count` cells from `offset` on. -/
def fillTraps : (count offset : Nat) → Action (Emission ρ) Unit
  | 0, _ => pure ()
  | count + 1, offset => do
    onRegion (fun cause => .discardRefused (.storeRefused cause))
      (Region.store offset Op.trap.cell)
    fillTraps count (offset + 1)

/-- Gives the emission up: fills the region with traps and poisons it. A second time does nothing;
a finalized emission cannot be given up. -/
def discard : Action (Emission ρ) Unit := do
  let c ← getContext
  match c.status with
  | .discarded => pure ()
  | .finalized => throw (.notOpen .finalized)
  | .open =>
    fillTraps c.capacity 0
    onRegion .poisonRefused Region.poison
    modifyContext fun c => { c with status := .discarded }

/-- The first `count` cells of the region. -/
def cells (e : Emission ρ) (count : Nat) : Except Failure (List Cell) :=
  (List.range count).mapM fun (i : Nat) => Region.load e.region i

end Emission

end CellMachine
