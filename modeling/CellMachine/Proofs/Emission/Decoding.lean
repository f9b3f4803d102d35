import CellMachine.Instruction.Listing
import CellMachine.Proofs.Emission.Backpatching
import Mathlib.Data.List.Forall2

/-!
# Reading back what was emitted

A reader takes cells apart without knowing how they came about. On the cells of a finalized
emission it finds the instructions that were emitted and nothing else.

* `Reader.Reads` — readings one after the other, each of which finds an instruction or a lone cell.
* `Decodes` — what was read is the instruction of a call, with its final operands.
* `Recorded.reads` — cells that pass two wrote are read as the instructions of its items, wherever
  they stand among other cells.
* `reads_of_finalize` — **reading undoes emitting.**
-/

namespace CellMachine

namespace Reader

/-- Readings one after the other, from the first reader to the last. -/
inductive Reads : Reader → List Decoded → Reader → Prop
  | nil (r : Reader) : Reads r [] r
  | cons {r r₁ r₂ : Reader} {d : Decoded} {ds : List Decoded}
      (head : r.next = .ok (.decoded d, r₁)) (tail : Reads r₁ ds r₂) : Reads r (d :: ds) r₂

/-- Readings may be continued. -/
theorem Reads.append {r₁ r₂ r₃ : Reader} {ds ds' : List Decoded} (h : Reads r₁ ds r₂)
    (h' : Reads r₂ ds' r₃) : Reads r₁ (ds ++ ds') r₃ := by
  induction h with
  | nil r => exact h'
  | cons head _ ih => exact .cons head (ih h')

/-- Readings may be broken off. -/
theorem Reads.of_append {r' : Reader} {ds' : List Decoded} : (ds : List Decoded) →
    ∀ {r : Reader}, Reads r (ds ++ ds') r' → ∃ r₁, Reads r ds r₁
  | [], r, _ => ⟨r, .nil r⟩
  | _ :: rest, _, .cons head tail => by
    obtain ⟨r₁, h⟩ := of_append rest tail
    exact ⟨r₁, .cons head h⟩

/-- An opcode cell with enough cells behind it is read as its instruction. -/
theorem next_instruction (before after : List Cell) {operands : List Cell} {op : Op}
    (hlen : operands.length = op.slots.length) {pos : Nat} (hpos : before.length = pos) :
    next ⟨before ++ (op.cell :: operands ++ after), pos⟩ =
      .ok (.decoded { offset := pos, code := op.code, op? := some op, operands },
        ⟨before ++ (op.cell :: operands ++ after), (pos + op.width : Nat)⟩) := by
  have hdrop : (before ++ (op.cell :: operands ++ after)).drop pos =
      op.cell :: (operands ++ after) := by
    rw [← hpos, List.drop_left]
    rfl
  have htake : (operands ++ after).take op.slots.length = operands := by
    rw [← hlen, List.take_left]
  have hread : readCells pos op.cell (operands ++ after) =
      .decoded { offset := pos, code := op.code, op? := some op, operands } := by
    unfold readCells
    simp only [Op.ofCell?_cell, Op.opcodeOf_cell, htake]
    rw [if_neg (by omega)]
  unfold next
  simp only [Int.toNat_natCast, hdrop, hread]
  rw [if_neg (by omega)]
  have hwidth : (pos : Int) + (Decoded.width
      { offset := pos, code := op.code, op? := some op, operands } : Nat) =
        ((pos + op.width : Nat) : Int) := by
    unfold Decoded.width Op.width
    rw [hlen]
    omega
  rw [hwidth]

end Reader

/-- What was read is the instruction that a call emitted into a stream whose first cell is at
`shift`. Its operands are the resolved ones, with the final values of the labels. -/
structure Decodes (mode : Mode) (origin : Int) (labels : List (String × Nat)) (shift : Nat)
    (done : Done) (d : Decoded) : Prop where
  offset : d.offset = shift + done.cursor
  instruction : ∃ op encs, done.call.item mode = .ok (.instruction op encs) ∧
    d.op? = some op ∧ d.code = op.code ∧
    operandCells? origin labels (done.cursor + 1) encs = some d.operands

/-- There is one operand cell for each operand. -/
theorem length_of_operandCells? {origin : Int} {labels : List (String × Nat)} :
    (encs : List Encoded) → ∀ {site : Nat} {cells : List Cell},
      operandCells? origin labels site encs = some cells → cells.length = encs.length
  | [], _, _, h => by
    cases h
    rfl
  | .cell v :: rest, site, cells, h => by
    simp only [operandCells?, Option.map_eq_some_iff] at h
    obtain ⟨more, hmore, rfl⟩ := h
    exact congrArg (· + 1) (length_of_operandCells? rest hmore)
  | .label name rule :: rest, site, cells, h => by
    simp only [operandCells?, Option.bind_eq_some_iff, Option.map_eq_some_iff] at h
    obtain ⟨offset, _, v, _, more, hmore, rfl⟩ := h
    exact congrArg (· + 1) (length_of_operandCells? rest hmore)

/-- Pass two writes an instruction as its opcode, its operands and the items behind it. -/
theorem writeItems?_instruction {origin : Int} {labels : List (String × Nat)} {pos : Nat}
    {op : Op} {encs : List Encoded} {items : List Item} {cells : List Cell}
    (h : writeItems? origin labels pos (.instruction op encs :: items) = some cells) :
    ∃ operands more, operandCells? origin labels (pos + 1) encs = some operands ∧
      writeItems? origin labels (pos + op.width) items = some more ∧
      cells = op.cell :: operands ++ more := by
  simp only [writeItems?, Option.bind_eq_some_iff, Option.map_eq_some_iff] at h
  obtain ⟨operands, hoperands, more, hmore, rfl⟩ := h
  exact ⟨operands, more, hoperands, hmore, rfl⟩

/-- The calls of a log that emit. -/
def emitsOf (log : List Done) : List Done := log.filter fun done => done.call.emits

/-- The calls that emit are as many as the items that are instructions. -/
theorem Recorded.length_emitsOf {mode : Mode} {pos : Nat} {log : List Done} {items : List Item}
    (h : Recorded mode pos log items) :
    (emitsOf log).length = items.countP Item.isInstruction := by
  unfold emitsOf
  rw [← List.countP_eq_length_filter]
  induction h with
  | nil pos => rfl
  | @cons pos call item log items head tail ih =>
    have hemits : call.emits = item.isInstruction := by
      rcases Call.item_ok head with ⟨name, rfl, rfl⟩ | ⟨_, op, encs, hcall, rfl, _⟩
      · rfl
      · exact hcall
    rw [List.countP_cons, List.countP_cons, ih, hemits]

/-- **Cells that pass two wrote are read as its instructions**, wherever they stand among other
cells. -/
theorem Recorded.reads {mode : Mode} {origin : Int} {labels : List (String × Nat)} {pos : Nat}
    {log : List Done} {items : List Item} (h : Recorded mode pos log items) {cells : List Cell}
    (hcells : writeItems? origin labels pos items = some cells) {shift : Nat}
    (before : List Cell) (hbefore : before.length = shift + pos) (after : List Cell) :
    ∃ ds, Reader.Reads ⟨before ++ (cells ++ after), (shift + pos : Nat)⟩ ds
        ⟨before ++ (cells ++ after), (shift + pos + cells.length : Nat)⟩ ∧
      List.Forall₂ (Decodes mode origin labels shift) (emitsOf log) ds := by
  induction h generalizing cells before with
  | nil pos =>
    cases hcells
    exact ⟨[], .nil _, .nil⟩
  | @cons pos call item log items head tail ih =>
    rcases Call.item_ok head with ⟨name, rfl, rfl⟩ | ⟨symbols?, op, encs, hcall, rfl, hres⟩
    · exact ih hcells before hbefore
    · obtain ⟨operands, more, hoperands, hmore, rfl⟩ := writeItems?_instruction hcells
      have hlen : operands.length = op.slots.length := by
        rw [length_of_operandCells? encs hoperands, Resolver.length_of_resolveAll hres]
      have hwidth : (op.cell :: operands).length = op.width := by
        rw [List.length_cons, hlen]
        exact Nat.add_comm ..
      have hbefore' : (before ++ (op.cell :: operands)).length = shift + (pos + op.width) := by
        rw [List.length_append, hbefore, hwidth, Nat.add_assoc]
      obtain ⟨ds, hreads, hds⟩ := ih hmore _ hbefore'
      -- the same cells, grouped for the first reading and for those after it
      have hgroup : before ++ (op.cell :: operands) ++ (more ++ after) =
          before ++ (op.cell :: operands ++ more ++ after) := by
        simp only [List.append_assoc]
      have hend : shift + (pos + op.width) + more.length =
          shift + pos + (op.cell :: operands ++ more).length := by
        rw [List.length_append, hwidth]
        omega
      have hnext := Reader.next_instruction before (more ++ after) hlen hbefore
      rw [← List.append_assoc before, hgroup] at hnext
      change Reader.Reads ⟨_, (shift + (pos + op.width) : Nat)⟩ ds
        ⟨_, (shift + (pos + op.width) + more.length : Nat)⟩ at hreads
      rw [hgroup, hend, ← Nat.add_assoc] at hreads
      refine ⟨_ :: ds, .cons hnext hreads, ?_⟩
      · have hfilter : emitsOf (⟨pos, call⟩ :: log) = ⟨pos, call⟩ :: emitsOf log :=
          List.filter_cons_of_pos hcall
        rw [hfilter]
        exact .cons ⟨rfl, op, encs, head, rfl, rfl, hoperands⟩ hds

variable {ρ : Type} [Region ρ] [LawfulRegion ρ]

/-- **Reading undoes emitting.** A reader that starts at the first cell of a finalized emission
finds exactly the instructions that were emitted, in their order, and ends behind the last one. -/
theorem reads_of_finalize {mode : Mode} {region : ρ} {calls : List Call} {log : List Done}
    {e e' : Emission ρ} {routine : Routine} (hw : LawfulRegion.Writable region)
    (hrun : Emission.runCalls calls (Emission.start mode region) = .ok (log, e))
    (hfin : Emission.finalize e = .ok routine e') :
    ∃ cells ds, e'.cells routine.length = .ok cells ∧ cells.length = routine.length ∧
      Reader.Reads { cells } ds { cells, pos := routine.length } ∧
      ds.length = e'.context.emitted ∧
      List.Forall₂ (Decodes mode (Region.origin region) routine.labels 0) (emitsOf log) ds := by
  obtain ⟨items, cells, h⟩ := Emission.finished_of_runCalls hw hrun hfin
  obtain ⟨ds, hreads, hds⟩ := h.recorded.reads h.assembled [] rfl []
  refine ⟨cells, ds, ?_, h.length.symm, ?_, ?_, hds⟩
  · rw [h.length]
    exact Emission.cells_of_load h.written
  · rw [h.length]
    rw [List.nil_append, List.append_nil, Nat.zero_add, Nat.zero_add] at hreads
    exact hreads
  · rw [h.emitted, ← h.recorded.length_emitsOf, hds.length_eq]

/-- The sample calls in a dynamic emission on a buffer: three instructions are read back. -/
theorem reads_of_finalize_sample : ∃ log e routine e' ds,
    Emission.runCalls sampleCalls
        (Emission.start .dynamic (Buffer.mk 40 (Array.replicate 8 0) none false true)) =
          .ok (log, e) ∧
      Emission.finalize e = .ok routine e' ∧
      Reader.Reads { cells := [129, 5, 128, 0, 32, 9] } ds
        { cells := [129, 5, 128, 0, 32, 9], pos := 6 } ∧
      ds.length = 3 ∧ List.Forall₂ (Decodes .dynamic 0 routine.labels 0) (emitsOf log) ds := by
  have houtcome : (Emission.outcome? sampleCalls
      (Emission.start .dynamic (Buffer.mk 40 (Array.replicate 8 0) none false true))).map
        (fun (routine, e') =>
          (routine.length, e'.context.emitted, (e'.cells routine.length).toOption)) =
        some (6, 3, some [129, 5, 128, 0, 32, 9]) := by
    decide +kernel
  obtain ⟨⟨routine, e'⟩, hsome, hvalues⟩ := Option.map_eq_some_iff.1 houtcome
  simp only [Prod.mk.injEq] at hvalues
  obtain ⟨hlength, hemitted, hcells⟩ := hvalues
  obtain ⟨log, e, hrun, hfin⟩ := Emission.of_outcome? hsome
  obtain ⟨cells, ds, hread, _, hreads, hcount, hds⟩ := reads_of_finalize rfl hrun hfin
  rw [hread] at hcells
  cases hcells
  rw [hlength] at hreads
  exact ⟨log, e, routine, e', ds, hrun, hfin, hreads, hcount.trans hemitted, hds⟩

end CellMachine
