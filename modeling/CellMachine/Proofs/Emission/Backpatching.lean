import CellMachine.Proofs.Emission.Invariant

/-!
# One pass is as good as two

An emission writes each cell when its call comes and goes back to the cells that named a label too
early. The two passes of `assembleCalls?` know every label before they write a cell. The module
shows that both come to the same cells.

* `writeItems?_eq` — if every label is known, pass two writes the values of the stream.
* `Finished` — what a finalized emission has come to, without its label table.
* `Tracks.finished` — finalizing an emission that keeps the invariant makes it finished.
* `cells_eq_assembleCalls?` — **the cells of a finalized emission are those of the two passes** over
  the calls that were carried out, and the cells behind them are as they were.
-/

namespace CellMachine

/-! ### Pass two through a label table -/

/-- The values of two streams one after the other. -/
theorem valuesFrom_append (t : LabelTable) : (a b : List Encoded) → ∀ site,
    valuesFrom t site (a ++ b) = valuesFrom t site a ++ valuesFrom t (site + a.length) b
  | [], _, _ => rfl
  | enc :: rest, b, site => by
    simp only [List.cons_append, valuesFrom, List.length_cons]
    rw [valuesFrom_append t rest b, Nat.add_right_comm, Nat.add_assoc]

/-- A label table computes an operand as pass two does. -/
theorem labelCell?_eq (t : LabelTable) {rule : PatchRule}
    (hrule : rule = .absolute ∨ rule = .relative) (offset site : Nat) :
    labelCell? t.origin offset site rule = some (t.operand rule offset site) := by
  rcases hrule with rfl | rfl
  · rfl
  · rfl

/-- Operands whose labels are known have the values that the label table gives them. -/
theorem operandCells?_eq {t : LabelTable} {labels : List (String × Nat)}
    (hlabels : ∀ name, labels.lookup name = t.offset? name) :
    (encs : List Encoded) → ∀ site,
      (∀ name rule, Encoded.label name rule ∈ encs →
        (rule = .absolute ∨ rule = .relative) ∧ ∃ offset, t.offset? name = some offset) →
      operandCells? t.origin labels site encs = some (valuesFrom t site encs)
  | [], _, _ => rfl
  | .cell v :: rest, site, hknown => by
    have ih := operandCells?_eq hlabels rest (site + 1) fun name rule hmem =>
      hknown name rule (List.mem_cons_of_mem _ hmem)
    simp only [operandCells?, ih]
    rfl
  | .label name rule :: rest, site, hknown => by
    have ih := operandCells?_eq hlabels rest (site + 1) fun name rule hmem =>
      hknown name rule (List.mem_cons_of_mem _ hmem)
    obtain ⟨hrule, offset, hoffset⟩ := hknown name rule List.mem_cons_self
    simp only [operandCells?, hlabels, hoffset, Option.bind_some, labelCell?_eq t hrule, ih,
      Option.map_some, valuesFrom, Encoded.value]
    rfl

/-- If every label of the stream is known, pass two writes the values of the stream. -/
theorem writeItems?_eq {t : LabelTable} {labels : List (String × Nat)}
    (hlabels : ∀ name, labels.lookup name = t.offset? name) {mode : Mode} {pos : Nat}
    {log : List Done} {items : List Item} (h : Recorded mode pos log items)
    (hknown : ∀ name rule, Encoded.label name rule ∈ stream items →
      ∃ offset, t.offset? name = some offset) :
    writeItems? t.origin labels pos items = some (valuesFrom t pos (stream items)) := by
  induction h with
  | nil pos => rfl
  | @cons pos call item log items head tail ih =>
    have hsplit : stream (item :: items) = item.cells ++ stream items := rfl
    have ih := ih fun name rule hmem =>
      hknown name rule (hsplit ▸ List.mem_append_right _ hmem)
    have hlen := Call.length_cells_of_item head
    rw [hsplit, valuesFrom_append, hlen]
    cases item with
    | label name => exact ih
    | instruction op encs =>
      have hencs := operandCells?_eq hlabels encs (pos + 1) fun name rule hmem =>
        ⟨Call.rule_of_item head hmem,
          hknown name rule (hsplit ▸ List.mem_append_left _ (List.mem_cons_of_mem _ hmem))⟩
      change writeItems? t.origin labels (pos + op.width) items = _ at ih
      simp only [writeItems?, hencs, ih, Option.bind_some, Option.map_some]
      rfl

/-- Only the look-ups in a list of labels count for the operands. -/
theorem operandCells?_congr {labels labels' : List (String × Nat)}
    (h : ∀ name, labels'.lookup name = labels.lookup name) (origin : Int) :
    (encs : List Encoded) → ∀ site,
      operandCells? origin labels' site encs = operandCells? origin labels site encs
  | [], _ => rfl
  | .cell v :: rest, site => by
    simp only [operandCells?, operandCells?_congr h origin rest]
  | .label name rule :: rest, site => by
    simp only [operandCells?, operandCells?_congr h origin rest, h]

/-- Only the look-ups in a list of labels count for pass two. -/
theorem writeItems?_congr {labels labels' : List (String × Nat)}
    (h : ∀ name, labels'.lookup name = labels.lookup name) (origin : Int) :
    (items : List Item) → ∀ pos,
      writeItems? origin labels' pos items = writeItems? origin labels pos items
  | [], _ => rfl
  | .label name :: rest, pos => by
    simp only [writeItems?, writeItems?_congr h origin rest]
  | .instruction op encs :: rest, pos => by
    simp only [writeItems?, writeItems?_congr h origin rest, operandCells?_congr h]

/-- The calls of a log are read as its items. -/
theorem Recorded.mapM_item {mode : Mode} {pos : Nat} {log : List Done} {items : List Item}
    (h : Recorded mode pos log items) :
    (log.map Done.call).mapM (Call.item mode) = .ok items := by
  induction h with
  | nil pos => rfl
  | cons head tail ih =>
    rw [List.map_cons, List.mapM_cons, head, ih]
    rfl

/-! ### Finalized emissions -/

variable {ρ : Type} [Region ρ] [LawfulRegion ρ]

/-- A finalized emission on a region has carried out the calls of the log, which are the items, and
has left the cells. -/
structure Finished (mode : Mode) (region : ρ) (log : List Done) (items : List Item)
    (cells : List Cell) (routine : Routine) (e : Emission ρ) : Prop where
  recorded : Recorded mode 0 log items
  same_mode : routine.mode = mode
  shape : Region.SameShape region e.region
  base : routine.base = Region.base region
  length : routine.length = cells.length
  length_stream : cells.length = (stream items).length
  room : cells.length ≤ Region.capacity region
  emitted : e.context.emitted = items.countP Item.isInstruction
  /-- The labels of the routine are those that the first pass places. -/
  labels : ∀ name, routine.labels.lookup name = (placeLabels 0 items).lookup name
  /-- The cells are those that the second pass writes. -/
  assembled : writeItems? (Region.origin region) routine.labels 0 items = some cells
  written : ∀ (i : Nat) v, cells[i]? = some v → Region.load e.region i = .ok v
  untouched : ∀ i : Nat, cells.length ≤ i → i < Region.capacity region →
    Region.load e.region i = Region.load region i

/-- Finalizing an emission that keeps the invariant makes it finished. -/
theorem Tracks.finished {mode : Mode} {region : ρ} {log : List Done} {items : List Item}
    {e e' : Emission ρ} {routine : Routine} (h : Tracks mode region log items e)
    (hfin : Emission.finalize e = .ok routine e') :
    ∃ cells, Finished mode region log items cells routine e' := by
  obtain ⟨hu, hseal, hcontext, rfl⟩ := Emission.finalize_ok hfin
  obtain ⟨hshape, hload⟩ := LawfulRegion.sealUp_ok h.writable hseal
  have hshape' := h.kept.toSameShape.trans hshape
  have hlookup := h.distinct.lookup_resolved
  have hlen : (valuesFrom e.context.labels 0 (stream items)).length = (stream items).length :=
    length_valuesFrom ..
  have hcap {i : Nat} (hi : i < Region.capacity region) : i < Region.capacity e.region := by
    rw [h.kept.capacity]
    exact hi
  refine ⟨valuesFrom e.context.labels 0 (stream items), ?_⟩
  refine
    { recorded := h.recorded, same_mode := h.same_mode, shape := hshape', base := hshape'.base
      length := ?_, length_stream := hlen, room := ?_, emitted := ?_, labels := ?_
      assembled := ?_, written := ?_, untouched := ?_ }
  · rw [hlen]
    exact h.cursor
  · rw [hlen]
    exact h.room
  · rw [hcontext]
    exact h.emitted
  · intro name
    exact (hlookup name).trans (h.placed name)
  · rw [← h.origin]
    refine writeItems?_eq hlookup h.recorded fun name rule hmem => ?_
    obtain ⟨i, hi⟩ := List.mem_iff_getElem?.1 hmem
    exact h.placed_of_unresolved hu hi
  · intro i v hi
    have hlt : i < (stream items).length := hlen ▸ (List.getElem?_eq_some_iff.1 hi).1
    rw [getElem?_valuesFrom, Option.map_eq_some_iff] at hi
    obtain ⟨enc, henc, rfl⟩ := hi
    rw [hload i (hcap (Nat.lt_of_lt_of_le hlt h.room)), h.written i enc henc, Nat.zero_add]
  · intro i hi hcap'
    rw [hlen] at hi
    rw [hload i (hcap hcap'), h.untouched i hi hcap']

/-- Calls and a successful finalization leave a finished emission. -/
theorem Emission.finished_of_runCalls {mode : Mode} {region : ρ} {calls : List Call}
    {log : List Done} {e e' : Emission ρ} {routine : Routine}
    (hw : LawfulRegion.Writable region)
    (hrun : Emission.runCalls calls (Emission.start mode region) = .ok (log, e))
    (hfin : Emission.finalize e = .ok routine e') :
    ∃ items cells, Finished mode region log items cells routine e' := by
  obtain ⟨items, h⟩ := (Tracks.start mode hw).run hrun
  exact ⟨items, h.finished hfin⟩

omit [LawfulRegion ρ] in
/-- Cells that are known one by one are the cells of the region. -/
theorem Emission.cells_of_load {e : Emission ρ} {cells : List Cell}
    (h : ∀ (i : Nat) v, cells[i]? = some v → Region.load e.region i = .ok v) :
    e.cells cells.length = .ok cells := by
  unfold Emission.cells
  have hbegin : (n : Nat) → n ≤ cells.length →
      (List.range n).mapM (fun (i : Nat) => Region.load e.region i) = .ok (cells.take n) := by
    intro n
    induction n with
    | zero =>
      intro _
      rfl
    | succ n ih =>
      intro hn
      have hlast : cells[n]? = some cells[n] := List.getElem?_eq_getElem hn
      rw [List.range_succ, List.mapM_append, ih (by omega), List.mapM_cons, List.mapM_nil,
        h n _ hlast, List.take_add_one, hlast]
      rfl
  rw [hbegin cells.length (Nat.le_refl _), List.take_length]

/-- **The cells of a finalized emission are those of two passes** over the calls that were carried
out. The cells behind them are as they were. -/
theorem cells_eq_assembleCalls? {mode : Mode} {region : ρ} {calls : List Call} {log : List Done}
    {e e' : Emission ρ} {routine : Routine} (hw : LawfulRegion.Writable region)
    (hrun : Emission.runCalls calls (Emission.start mode region) = .ok (log, e))
    (hfin : Emission.finalize e = .ok routine e') :
    ∃ cells, assembleCalls? mode (Region.origin region) (log.map Done.call) = some cells ∧
      cells.length = routine.length ∧ routine.length ≤ Region.capacity region ∧
      e'.cells routine.length = .ok cells ∧
      ∀ i : Nat, routine.length ≤ i → i < Region.capacity region →
        Region.load e'.region i = Region.load region i := by
  obtain ⟨items, cells, h⟩ := Emission.finished_of_runCalls hw hrun hfin
  refine ⟨cells, ?_, h.length.symm, h.length ▸ h.room, ?_, ?_⟩
  · unfold assembleCalls?
    rw [h.recorded.mapM_item]
    exact (writeItems?_congr h.labels (Region.origin region) items 0).symm.trans h.assembled
  · rw [h.length]
    exact Emission.cells_of_load h.written
  · rw [h.length]
    exact h.untouched

/-! ### A sample -/

omit [LawfulRegion ρ] in
/-- What calls and a finalization leave, if the emission can be finalized. -/
def Emission.outcome? (calls : List Call) (e : Emission ρ) : Option (Routine × Emission ρ) :=
  match Emission.runCalls calls e with
  | .error _ => none
  | .ok (_, e) =>
    match Emission.finalize e with
    | .ok routine e => some (routine, e)
    | .error _ _ => none

omit [LawfulRegion ρ] in
/-- An outcome comes from calls and a finalization. -/
theorem Emission.of_outcome? {calls : List Call} {e e' : Emission ρ} {routine : Routine}
    (h : Emission.outcome? calls e = some (routine, e')) :
    ∃ log last, Emission.runCalls calls e = .ok (log, last) ∧
      Emission.finalize last = .ok routine e' := by
  unfold Emission.outcome? at h
  split at h
  · cases h
  · next log last hrun =>
    split at h
    · next hfin =>
      cases h
      exact ⟨log, last, hrun, hfin⟩
    · cases h

/-- A segment that was opened two cells into its routine. -/
def sampleSegment : Placement where
  segment := { buffer := { base := 102, cells := #[7, 7, 7, 7, 7, 7, 7] }, entry := 100 }
  program := { dataBase := 100, dataCells := 0, code := #[0, 0] }

/-- Calls that use a label too early and another one late, two of which are refused. -/
def sampleCalls : List Call :=
  [.label "top", .emit none "JREL" [.label "end"], .emit none "HOP" [],
    .emit none "JUMP" [.label "top"], .label "top", .emitOp none .constP [.immediate 9],
    .label "end"]

/-- The sample calls on the sample segment: the relative label is five cells ahead of its operand,
the absolute one stands two cells into the routine, and the last cell is left alone. -/
theorem cells_eq_assembleCalls?_sample : ∃ log e routine e',
    LawfulRegion.Writable sampleSegment ∧
      Emission.runCalls sampleCalls (Emission.start .static sampleSegment) = .ok (log, e) ∧
      Emission.finalize e = .ok routine e' ∧
      e'.cells routine.length = .ok [129, 5, 128, 2, 32, 9] ∧
      assembleCalls? .static 2 (log.map Done.call) = some [129, 5, 128, 2, 32, 9] ∧
      Region.load e'.region 6 = .ok 7 := by
  have houtcome : (Emission.outcome? sampleCalls (Emission.start .static sampleSegment)).map
      (fun (routine, e') => (routine.length, (e'.cells routine.length).toOption)) =
        some (6, some [129, 5, 128, 2, 32, 9]) := by
    decide +kernel
  obtain ⟨⟨routine, e'⟩, hsome, hvalues⟩ := Option.map_eq_some_iff.1 houtcome
  obtain ⟨hlength, hcells⟩ := Prod.mk.inj hvalues
  obtain ⟨log, e, hrun, hfin⟩ := Emission.of_outcome? hsome
  obtain ⟨cells, hassemble, _, _, hread, hrest⟩ := cells_eq_assembleCalls? rfl hrun hfin
  rw [hread] at hcells
  cases hcells
  refine ⟨log, e, routine, e', rfl, hrun, hfin, hread, hassemble, ?_⟩
  exact hrest 6 (by omega) (by decide)

end CellMachine
