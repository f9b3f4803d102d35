import CellMachine.Emission.Context
import CellMachine.Proofs.Action
import CellMachine.Proofs.Operand.Resolve

/-!
# Assembling in two passes

A stream can be assembled without any patching if all of it is known. `assembleCalls?` is that
assembler: it reads each call as an item (`Call.item`), places the labels by adding up widths
(`placeLabels`), and then writes every cell (`writeItems?`).

* `Call` — what can be asked of an open emission; `Emission.runCalls` makes calls one after the
  other, passes over those that are refused and keeps a record of the others.
* `Item` — what a call adds to the stream: an instruction with resolved operands, or a label.
* `stream` — the cells of items, as far as they are known before the labels are placed.

Nothing here looks at a label table or at a region. That a one-pass emission comes to the same
cells is shown elsewhere.
-/

namespace CellMachine

/-! ### Calls -/

/-- A call that adds to an emission, with the symbols that are at hand when it is made. -/
inductive Call
  /-- Emits the instruction of a mnemonic. -/
  | emit (symbols? : Option SymbolTable) (mnemonic : String) (operands : List Operand)
  /-- Emits an instruction of the table. -/
  | emitOp (symbols? : Option SymbolTable) (op : Op) (operands : List Operand)
  /-- Defines a label. -/
  | label (name : String)

namespace Call

/-- Makes the call. -/
def perform {ρ : Type} [Region ρ] : Call → Action (Emission ρ) Unit
  | .emit symbols? mnemonic operands => Emission.emit symbols? mnemonic operands
  | .emitOp symbols? op operands => Emission.emitOp symbols? op operands
  | .label name => Emission.defineLabel name

/-- The operands of a call. -/
def operands : Call → List Operand
  | .emit _ _ operands | .emitOp _ _ operands => operands
  | .label _ => []

/-- Whether the call emits an instruction. -/
def emits : Call → Bool
  | .emit _ _ _ | .emitOp _ _ _ => true
  | .label _ => false

end Call

/-- A call that was carried out, with the cursor before it. -/
structure Done where
  cursor : Nat
  call : Call

namespace Emission

variable {ρ : Type} [Region ρ]

/-- An emission that has just been opened on a region. -/
def start (mode : Mode) (region : ρ) : Emission ρ :=
  { context := Context.fresh mode region, region }

/-- Makes calls one after the other and records those that were carried out. -/
def runCalls : List Call → Emission ρ → Except Failure (List Done × Emission ρ) :=
  Action.runAll Call.perform fun call e => [⟨e.context.cursor, call⟩]

end Emission

/-! ### Items -/

/-- What a call adds to a stream. -/
inductive Item
  | instruction (op : Op) (operands : List Encoded)
  | label (name : String)
  deriving DecidableEq, Repr

namespace Item

/-- The number of cells of an item. -/
def width : Item → Nat
  | .instruction op _ => op.width
  | .label _ => 0

/-- Whether the item is an instruction. -/
def isInstruction : Item → Bool
  | .instruction _ _ => true
  | .label _ => false

/-- The cells of an item; label operands are open. -/
def cells : Item → List Encoded
  | .instruction op operands => .cell op.cell :: operands
  | .label _ => []

end Item

/-- The cells of items, one after the other. -/
def stream (items : List Item) : List Encoded := items.flatMap Item.cells

/-- The item that a call adds in an emission of the given mode. -/
def Call.item (mode : Mode) : Call → Except Failure Item
  | .emit symbols? mnemonic operands => do
    let op ← Resolver.chooseOp ⟨mode, symbols?⟩ mnemonic operands
    let cells ← Resolver.resolveAll ⟨mode, symbols?⟩ op operands
    return .instruction op cells
  | .emitOp symbols? op operands => do
    let cells ← Resolver.resolveAll ⟨mode, symbols?⟩ op operands
    return .instruction op cells
  | .label name => return .label name

/-- The calls of a log are read as the items, the first of which stands at `pos`. -/
inductive Recorded (mode : Mode) : (pos : Nat) → List Done → List Item → Prop
  | nil (pos : Nat) : Recorded mode pos [] []
  | cons {pos : Nat} {call : Call} {item : Item} {log : List Done} {items : List Item}
      (head : call.item mode = .ok item) (tail : Recorded mode (pos + item.width) log items) :
      Recorded mode pos (⟨pos, call⟩ :: log) (item :: items)

/-! ### The two passes -/

/-- Pass one: each label with the sum of the widths of the items before it, counted from `pos`. -/
def placeLabels : (pos : Nat) → List Item → List (String × Nat)
  | _, [] => []
  | pos, .label name :: rest => (name, pos) :: placeLabels pos rest
  | pos, .instruction op _ :: rest => placeLabels (pos + op.width) rest

/-- The operand for a label at `offset`, in the operand cell at `site`. An absolute operand counts
from the start of the routine, a relative one from its own cell; there are no others. -/
def labelCell? (origin : Int) (offset site : Nat) : PatchRule → Option Cell
  | .absolute => some (Int64.ofInt (offset + origin))
  | .relative => some (Int64.ofInt (offset - site))
  | _ => none

/-- The operand cells of an instruction, the first of which stands at `site`. -/
def operandCells? (origin : Int) (labels : List (String × Nat)) :
    (site : Nat) → List Encoded → Option (List Cell)
  | _, [] => some []
  | site, .cell v :: rest => (operandCells? origin labels (site + 1) rest).map (v :: ·)
  | site, .label name rule :: rest =>
    (labels.lookup name).bind fun offset =>
      (labelCell? origin offset site rule).bind fun v =>
        (operandCells? origin labels (site + 1) rest).map (v :: ·)

/-- Pass two: the cells of items, the first of which stands at `pos`. -/
def writeItems? (origin : Int) (labels : List (String × Nat)) :
    (pos : Nat) → List Item → Option (List Cell)
  | _, [] => some []
  | pos, .label _ :: rest => writeItems? origin labels pos rest
  | pos, .instruction op operands :: rest =>
    (operandCells? origin labels (pos + 1) operands).bind fun cells =>
      (writeItems? origin labels (pos + op.width) rest).map fun more => op.cell :: cells ++ more

/-- The cells that calls amount to, in a stream that starts `origin` cells into its routine. There
are none if a call cannot be read or a label is missing. -/
def assembleCalls? (mode : Mode) (origin : Int) (calls : List Call) : Option (List Cell) :=
  match calls.mapM (Call.item mode) with
  | .error _ => none
  | .ok items => writeItems? origin (placeLabels 0 items) 0 items

/-! ### What items look like -/

namespace Call

/-- Operands that are resolved make the item of an instruction. -/
theorem item_emitOp {mode : Mode} {symbols? : Option SymbolTable} {op : Op}
    {operands : List Operand} {encs : List Encoded}
    (h : Resolver.resolveAll ⟨mode, symbols?⟩ op operands = .ok encs) :
    (Call.emitOp symbols? op operands).item mode = .ok (.instruction op encs) := by
  simp only [item, h]
  rfl

/-- A mnemonic stands for the instruction that is chosen for it. -/
theorem item_emit {mode : Mode} {symbols? : Option SymbolTable} {mnemonic : String} {op : Op}
    {operands : List Operand}
    (h : Resolver.chooseOp ⟨mode, symbols?⟩ mnemonic operands = .ok op) :
    (Call.emit symbols? mnemonic operands).item mode =
      (Call.emitOp symbols? op operands).item mode := by
  simp only [item, h]
  rfl

/-- The item of an instruction has resolved operands. -/
theorem item_emitOp_ok {mode : Mode} {symbols? : Option SymbolTable} {op : Op}
    {operands : List Operand} {item : Item}
    (h : (Call.emitOp symbols? op operands).item mode = .ok item) :
    ∃ encs, item = .instruction op encs ∧
      Resolver.resolveAll ⟨mode, symbols?⟩ op operands = .ok encs := by
  simp only [Call.item] at h
  rcases hres : Resolver.resolveAll ⟨mode, symbols?⟩ op operands with failure | encs
  · rw [hres] at h
    cases h
  · rw [hres] at h
    cases h
    exact ⟨encs, rfl, rfl⟩

/-- An item is the label of a definition, or an instruction whose operands were resolved. -/
theorem item_ok {mode : Mode} {call : Call} {item : Item} (h : call.item mode = .ok item) :
    (∃ name, call = .label name ∧ item = .label name) ∨
      ∃ symbols? op encs, call.emits = true ∧ item = .instruction op encs ∧
        Resolver.resolveAll ⟨mode, symbols?⟩ op call.operands = .ok encs := by
  cases call with
  | emit symbols? mnemonic operands =>
    rcases hop : Resolver.chooseOp ⟨mode, symbols?⟩ mnemonic operands with failure | op
    · simp only [Call.item] at h
      rw [hop] at h
      cases h
    · rw [item_emit hop] at h
      obtain ⟨encs, hitem, hres⟩ := item_emitOp_ok h
      exact .inr ⟨symbols?, op, encs, rfl, hitem, hres⟩
  | emitOp symbols? op operands =>
    obtain ⟨encs, hitem, hres⟩ := item_emitOp_ok h
    exact .inr ⟨symbols?, op, encs, rfl, hitem, hres⟩
  | label name =>
    cases h
    exact .inl ⟨name, rfl, rfl⟩

/-- The item of a call has as many cells as its width says. -/
theorem length_cells_of_item {mode : Mode} {call : Call} {item : Item}
    (h : call.item mode = .ok item) : item.cells.length = item.width := by
  rcases item_ok h with ⟨name, _, rfl⟩ | ⟨symbols?, op, encs, _, rfl, hres⟩
  · rfl
  · show encs.length + 1 = 1 + op.slots.length
    rw [Resolver.length_of_resolveAll hres, Nat.add_comm]

/-- A label operand of a call carries a rule for labels. -/
theorem rule_of_item {mode : Mode} {call : Call} {op : Op} {encs : List Encoded}
    (h : call.item mode = .ok (.instruction op encs)) {name : String} {rule : PatchRule}
    (hmem : Encoded.label name rule ∈ encs) : rule = .absolute ∨ rule = .relative := by
  rcases item_ok h with ⟨name, _, ⟨⟩⟩ | ⟨symbols?, _, _, _, ⟨⟩, hres⟩
  obtain ⟨hslot, rfl⟩ := Resolver.label_of_resolveAll hres hmem
  exact Op.patch_of_label hslot

end Call

/-- The cells of two runs of items one after the other. -/
theorem stream_append (a b : List Item) : stream (a ++ b) = stream a ++ stream b :=
  List.flatMap_append

/-- One more item adds its cells at the end. -/
theorem stream_concat (items : List Item) (item : Item) :
    stream (items ++ [item]) = stream items ++ item.cells := by
  rw [stream_append]
  exact congrArg (stream items ++ ·) (List.append_nil _)

/-- One more call stands behind the cells of those before it. -/
theorem Recorded.concat {mode : Mode} {call : Call} {item : Item}
    (hitem : call.item mode = .ok item) {pos : Nat} {log : List Done} {items : List Item}
    (h : Recorded mode pos log items) :
    Recorded mode pos (log ++ [⟨pos + (stream items).length, call⟩]) (items ++ [item]) := by
  induction h with
  | nil pos => exact .cons hitem (.nil _)
  | @cons pos call' item' log items head tail ih =>
    refine .cons head ?_
    have hlen : pos + (stream (item' :: items)).length =
        pos + item'.width + (stream items).length := by
      rw [← Call.length_cells_of_item head, Nat.add_assoc, ← List.length_append]
      rfl
    rw [hlen]
    exact ih

/-- Pass one of two runs of items one after the other. -/
theorem placeLabels_append {mode : Mode} {pos : Nat} {log : List Done} {items : List Item}
    (h : Recorded mode pos log items) (more : List Item) :
    placeLabels pos (items ++ more) =
      placeLabels pos items ++ placeLabels (pos + (stream items).length) more := by
  induction h with
  | nil pos => rfl
  | @cons pos call item log items head tail ih =>
    have hlen := Call.length_cells_of_item head
    cases item with
    | instruction op encs =>
      show placeLabels (pos + op.width) (items ++ more) = _
      refine ih.trans ?_
      show _ = placeLabels (pos + op.width) items ++
        placeLabels (pos + (Item.cells (.instruction op encs) ++ stream items).length) more
      rw [List.length_append, hlen, ← Nat.add_assoc]
      rfl
    | label name =>
      show (name, pos) :: placeLabels pos (items ++ more) = _
      exact congrArg ((name, pos) :: ·) ih

end CellMachine
