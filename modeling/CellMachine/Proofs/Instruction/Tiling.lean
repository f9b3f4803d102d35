import CellMachine.Proofs.Instruction.Lines
import Mathlib.Data.List.Chain

/-!
# The readings of a stream tile it

A stream of cells may hold anything: instructions, data that looks like an opcode, cells outside
sixteen bits, an instruction without all of its operands at the end. Reading it from its start to
its end takes it apart all the same, and every cell belongs to one reading.

* `Tiles` — readings that stand one behind the other up to the end of a stream, told from the cells
  alone; `tiles_readAll` — the readings of a stream are such.
* `Reader.Run` — calls of a reader as long as cells are left; `Tiles.run`, `Reader.Run.unique` —
  the calls end, and they find the readings.
* `Decoded.StandsIn`, `Tiling` — what the readings are: each begins where the one before it ended,
  shows its opcode and its operands, and at most the last one is cut off.
* `Reader.run_tiles` — **reading any stream ends, and its readings tile it.**
-/

namespace CellMachine

/-! ### Readings one behind the other -/

/-- Readings that stand one behind the other from an offset up to the end of a stream. -/
inductive Tiles (cells : List Cell) : Nat → List Reading → Prop
  | done : Tiles cells cells.length []
  | lone {o : Nat} {v : Cell} {rs : List Reading} (hv : cells[o]? = some v)
    (hlone : ∀ op : Op, v ≠ op.cell) (tail : Tiles cells (o + 1) rs) :
    Tiles cells o
      (.decoded { offset := o, code := opcodeOf v, op? := none, operands := [] } :: rs)
  | instruction {o : Nat} {op : Op} {operands : List Cell} {rs : List Reading}
    (hv : cells[o]? = some op.cell)
    (hoperands : (cells.drop (o + 1)).take op.slots.length = operands)
    (hlength : operands.length = op.slots.length) (tail : Tiles cells (o + op.width) rs) :
    Tiles cells o (.decoded { offset := o, code := op.code, op? := some op, operands } :: rs)
  | cut {o : Nat} {op : Op} (hv : cells[o]? = some op.cell)
    (hshort : cells.length < o + op.width) : Tiles cells o [.truncated o op]

/-- The cells from a cell on. -/
theorem drop_of_getElem? {cells : List Cell} {o : Nat} {v : Cell} (h : cells[o]? = some v) :
    cells.drop o = v :: cells.drop (o + 1) := by
  obtain ⟨hlt, rfl⟩ := List.getElem?_eq_some_iff.mp h
  exact List.drop_eq_getElem_cons hlt

/-- A first cell and what stands behind it. -/
theorem getElem?_of_drop {cells rest : List Cell} {o : Nat} {v : Cell}
    (h : cells.drop o = v :: rest) : cells[o]? = some v ∧ cells.drop (o + 1) = rest := by
  constructor
  · rw [← List.head?_drop, h]
    rfl
  · rw [← List.drop_drop, h]
    rfl

/-- **The readings of a stream stand one behind the other.** -/
theorem tiles_readAll (cells : List Cell) (o : Nat) (ho : o ≤ cells.length) :
    Tiles cells o (readAll o (cells.drop o)) := by
  cases hdrop : cells.drop o with
  | nil =>
    have hend : o = cells.length := Nat.le_antisymm ho (List.drop_eq_nil_iff.mp hdrop)
    subst hend
    rw [readAll]
    exact .done
  | cons v rest =>
    obtain ⟨hv, hrest⟩ := getElem?_of_drop hdrop
    have hlt : o < cells.length := (List.getElem?_eq_some_iff.mp hv).1
    have hlength : rest.length = cells.length - (o + 1) := by rw [← hrest, List.length_drop]
    rw [readAll]
    by_cases hlone : ∀ op : Op, v ≠ op.cell
    · simp only [readCells_lone hlone]
      have htail := tiles_readAll cells (o + 1) hlt
      rw [hrest] at htail
      exact .lone hv hlone htail
    · simp only [ne_eq, not_forall, not_not] at hlone
      obtain ⟨op, rfl⟩ := hlone
      by_cases hshort : rest.length < op.slots.length
      · simp only [readCells_short hshort]
        exact .cut hv (by unfold Op.width; omega)
      · have htake : (rest.take op.slots.length).length = op.slots.length := by
          rw [List.length_take]
          omega
        simp only [readCells_instruction htake, Decoded.width, htake]
        have htail := tiles_readAll cells (o + op.width) (by unfold Op.width; omega)
        rw [Op.width, ← Nat.add_assoc, ← List.drop_drop, hrest] at htail
        refine .instruction hv (by rw [hrest]) htake ?_
        rw [Op.width, ← Nat.add_assoc]
        exact htail
termination_by cells.length - o
decreasing_by
  · omega
  · unfold Op.width
    omega

namespace Tiles

variable {cells : List Cell} {o : Nat} {rs : List Reading}

/-- Readings end at the end of the stream, so they begin in it. -/
theorem le (h : Tiles cells o rs) : o ≤ cells.length := by
  cases h with
  | done => exact Nat.le_refl _
  | lone hv _ _ | instruction hv _ _ _ | cut hv _ =>
    exact Nat.le_of_lt (List.getElem?_eq_some_iff.mp hv).1

/-- There are no more readings than cells. -/
theorem length_le (h : Tiles cells o rs) : rs.length + o ≤ cells.length := by
  induction h with
  | done => simp
  | lone _ _ _ ih =>
    rw [List.length_cons]
    omega
  | instruction _ _ _ _ ih =>
    unfold Op.width at ih
    rw [List.length_cons]
    omega
  | cut hv _ =>
    have hlt := (List.getElem?_eq_some_iff.mp hv).1
    simp only [List.length_singleton]
    omega

/-- Each reading is one of the cell at its offset. -/
theorem of_mem (h : Tiles cells o rs) :
    ∀ r ∈ rs, o ≤ r.offset ∧ ∃ v, cells[r.offset]? = some v ∧ r.IsOf v := by
  induction h with
  | done => exact fun _ hr => nomatch hr
  | lone hv hlone _ ih =>
    refine List.forall_mem_cons.mpr ⟨⟨Nat.le_refl _, _, hv, .lone hlone⟩, fun r hr => ?_⟩
    obtain ⟨hle, hcell⟩ := ih r hr
    exact ⟨by omega, hcell⟩
  | instruction hv _ hlength _ ih =>
    refine List.forall_mem_cons.mpr ⟨⟨Nat.le_refl _, _, hv, .instruction rfl hlength⟩,
      fun r hr => ?_⟩
    obtain ⟨hle, hcell⟩ := ih r hr
    exact ⟨by omega, hcell⟩
  | cut hv _ =>
    exact List.forall_mem_singleton.mpr ⟨Nat.le_refl _, _, hv, .cut rfl⟩

end Tiles

/-! ### The calls of a reader -/

namespace Reader

/-- The calls of a reader as long as cells are left, with their outcomes. -/
inductive Run : Reader → List Outcome → Reader → Prop
  | stop {r : Reader} (hmore : r.hasMore = false) : Run r [] r
  | call {r r₁ r₂ : Reader} {outcome : Outcome} {outcomes : List Outcome}
    (hmore : r.hasMore = true) (hnext : r.next = .ok (outcome, r₁))
    (tail : Run r₁ outcomes r₂) : Run r (outcome :: outcomes) r₂

/-- The calls can go on in one way only. -/
theorem Run.unique {r a b : Reader} {as bs : List Outcome} (ha : Run r as a) (hb : Run r bs b) :
    as = bs ∧ a = b := by
  induction ha generalizing bs with
  | stop hmore =>
    cases hb with
    | stop _ => exact ⟨rfl, rfl⟩
    | call hmore' _ _ => cases hmore.symm.trans hmore'
  | call hmore hnext _ ih =>
    cases hb with
    | stop hmore' => cases hmore.symm.trans hmore'
    | call _ hnext' tail' =>
      cases hnext.symm.trans hnext'
      obtain ⟨rfl, rfl⟩ := ih tail'
      exact ⟨rfl, rfl⟩

/-- Cells are left before the end of the stream. -/
theorem hasMore_iff {cells : List Cell} {o : Nat} :
    hasMore ⟨cells, o⟩ = true ↔ o < cells.length := by
  simp [hasMore]

end Reader

/-- **The calls of a reader find the readings**, and end at the end of the stream. -/
theorem Tiles.run {cells : List Cell} {o : Nat} {rs : List Reading} (h : Tiles cells o rs) :
    Reader.Run ⟨cells, o⟩ (rs.map Reading.outcome) ⟨cells, cells.length⟩ := by
  have hend : Reader.Run ⟨cells, cells.length⟩ [] ⟨cells, cells.length⟩ :=
    .stop (by simp [Reader.hasMore])
  have hmore {o : Nat} {v : Cell} (hv : cells[o]? = some v) :
      Reader.hasMore ⟨cells, o⟩ = true :=
    Reader.hasMore_iff.mpr (List.getElem?_eq_some_iff.mp hv).1
  induction h with
  | done => exact hend
  | lone hv hlone tail ih =>
    refine .call (hmore hv) ?_ ih
    rw [Reader.next_eq (drop_of_getElem? hv), readCells_lone hlone]
    rfl
  | @instruction o op operands rs hv hoperands hlength tail ih =>
    refine .call (hmore hv) ?_ ih
    rw [Reader.next_eq (drop_of_getElem? hv),
      readCells_instruction (by rw [hoperands, hlength])]
    simp only [Reading.outcome, Reading.stop, Decoded.width, hoperands, hlength, Op.width]
  | @cut o op hv hshort =>
    refine .call (hmore hv) ?_ hend
    rw [Reader.next_eq (drop_of_getElem? hv), readCells_short ?_]
    · rfl
    · have hlt := (List.getElem?_eq_some_iff.mp hv).1
      unfold Op.width at hshort
      rw [List.length_drop]
      omega

/-- A reading can be told from its outcome. -/
theorem Reading.outcome_injective {r r' : Reading} (h : r.outcome = r'.outcome) : r = r' := by
  cases r <;> cases r' <;> cases h <;> rfl

/-- A stream has its readings in one way only. -/
theorem Tiles.unique {cells : List Cell} {o : Nat} {rs rs' : List Reading} (h : Tiles cells o rs)
    (h' : Tiles cells o rs') : rs = rs' :=
  (List.map_inj_right fun _ _ => Reading.outcome_injective).mp (h.run.unique h'.run).1

/-! ### What the readings are -/

/-- What was read where the cell `v` stands. The opcode is the low sixteen bits of the cell, and the
whole cell if it is that of an instruction; the operands are the cells behind it, one for each
slot. -/
structure Decoded.StandsIn (cells : List Cell) (v : Cell) (d : Decoded) : Prop where
  read : (cells.drop d.offset).take d.width = v :: d.operands
  low : (d.code.toNat : Int) = v.toInt % 2 ^ 16
  whole : d.op? ≠ none → v.toInt = d.code.toNat
  known : ∀ op, d.op? = some op ↔ v = op.cell
  operands : d.operands.length = (d.op?.map fun op => op.slots.length).getD 0

/-- The cell stands at the offset of the reading. -/
theorem Decoded.StandsIn.cell {cells : List Cell} {v : Cell} {d : Decoded}
    (h : d.StandsIn cells v) : cells[d.offset]? = some v := by
  have hread := congrArg List.head? h.read
  rw [Decoded.width, Nat.add_comm, List.head?_take, List.head?_drop] at hread
  exact hread

section Stands

variable {cells : List Cell} {o : Nat} {v : Cell} {op : Op} {operands : List Cell}

/-- A lone cell stands where it was read. -/
theorem Decoded.standsIn_lone (hv : cells[o]? = some v) (hlone : ∀ op : Op, v ≠ op.cell) :
    StandsIn cells v { offset := o, code := opcodeOf v, op? := none, operands := [] } where
  read := by
    rw [drop_of_getElem? hv]
    rfl
  low := toNat_opcodeOf v
  whole := fun h => absurd rfl h
  known := fun op => iff_of_false (fun h => nomatch h) (hlone op)
  operands := rfl

/-- The width of an instruction that was read. -/
theorem Decoded.width_instruction (hlength : operands.length = op.slots.length) :
    width { offset := o, code := op.code, op? := some op, operands } = op.width := by
  unfold Decoded.width Op.width
  rw [hlength]

/-- An instruction stands where it was read, with its operands behind it. -/
theorem Decoded.standsIn_instruction (hv : cells[o]? = some op.cell)
    (hoperands : (cells.drop (o + 1)).take op.slots.length = operands)
    (hlength : operands.length = op.slots.length) :
    StandsIn cells op.cell { offset := o, code := op.code, op? := some op, operands } where
  read := by
    rw [drop_of_getElem? hv, width_instruction hlength, Op.width, Nat.add_comm,
      List.take_succ_cons, hoperands]
  low := by rw [← op.opcodeOf_cell, toNat_opcodeOf]
  whole := fun _ => op.toInt_cell
  known := fun op' => by rw [← Op.ofCell?_iff, Op.ofCell?_cell]
  operands := hlength

end Stands

/-- Where readings end that stand one behind the other from an offset on. -/
def endOf (o : Nat) (ds : List Decoded) : Nat := ds.foldl (fun o d => o + d.width) o

/-- Readings of which at most the last one is cut off. -/
def readingsOf (o : Nat) (ds : List Decoded) (cut : Option Op) : List Reading :=
  ds.map .decoded ++ (cut.map (Reading.truncated (endOf o ds))).toList

/-- The instructions and lone cells `ds` tile a stream from an offset on, up to an instruction that
is cut off if there is one. -/
structure Tiling (cells : List Cell) (o : Nat) (ds : List Decoded) (cut : Option Op) : Prop where
  first : ∀ d ∈ ds.head?, d.offset = o
  /-- Each begins where the one before it ended. -/
  adjacent : ds.IsChain fun d e => e.offset = d.offset + d.width
  stands : ∀ d ∈ ds, ∃ v, d.StandsIn cells v
  /-- The offsets that they take up, and those of the rest, are all offsets once and in order. -/
  covers : (ds.flatMap fun d => List.range' d.offset d.width) ++
    List.range' (endOf o ds) (cells.length - endOf o ds) = List.range' o (cells.length - o)
  cut_iff : ∀ op, cut = some op ↔
    cells[endOf o ds]? = some op.cell ∧ cells.length < endOf o ds + op.width
  whole : cut = none → endOf o ds = cells.length

namespace Tiles

variable {cells : List Cell} {o : Nat} {rs : List Reading}

/-- Without readings the offset is the end of the stream. -/
theorem eq_length (h : Tiles cells o []) : o = cells.length := by
  cases h
  rfl

/-- Where the first of the readings was begun. -/
theorem offset_eq {r : Reading} (h : Tiles cells o (r :: rs)) : r.offset = o := by
  cases h <;> rfl

/-- The first of the readings, and the others behind it. -/
theorem uncons {d : Decoded} (h : Tiles cells o (.decoded d :: rs)) :
    (∃ v, d.StandsIn cells v) ∧ Tiles cells (o + d.width) rs := by
  cases h with
  | lone hv hlone tail => exact ⟨⟨_, Decoded.standsIn_lone hv hlone⟩, tail⟩
  | instruction hv hoperands hlength tail =>
    refine ⟨⟨_, Decoded.standsIn_instruction hv hoperands hlength⟩, ?_⟩
    rw [Decoded.width_instruction hlength]
    exact tail

end Tiles

namespace Tiling

variable {cells : List Cell} {o : Nat} {ds : List Decoded} {cut : Option Op}

/-- At the end of a stream nothing is read. -/
theorem done (cells : List Cell) : Tiling cells cells.length [] none where
  first := fun _ h => nomatch h
  adjacent := .nil
  stands := fun _ h => nomatch h
  covers := rfl
  cut_iff := fun _ => iff_of_false (fun h => nomatch h) fun h =>
    Nat.lt_irrefl _ (List.getElem?_eq_some_iff.mp h.1).1
  whole := fun _ => rfl

/-- An instruction whose operands run past the end is all that is read. -/
theorem short {op : Op} (hv : cells[o]? = some op.cell) (hshort : cells.length < o + op.width) :
    Tiling cells o [] (some op) where
  first := fun _ h => nomatch h
  adjacent := .nil
  stands := fun _ h => nomatch h
  covers := rfl
  cut_iff := fun op' => by
    constructor
    · intro h
      cases h
      exact ⟨hv, hshort⟩
    · rintro ⟨hv', -⟩
      have hcell := Option.some.inj (hv.symm.trans hv')
      exact (Op.ofCell?_cell op).symm.trans (hcell ▸ Op.ofCell?_cell op')
  whole := fun h => nomatch h

/-- One more reading in front. -/
theorem cons {d : Decoded} {v : Cell} (hoffset : d.offset = o) (hd : d.StandsIn cells v)
    (hle : o + d.width ≤ cells.length) (h : Tiling cells (o + d.width) ds cut) :
    Tiling cells o (d :: ds) cut where
  first := by
    rintro _ ⟨⟩
    exact hoffset
  adjacent := List.isChain_cons.mpr ⟨fun e he => by rw [h.first e he, hoffset], h.adjacent⟩
  stands := List.forall_mem_cons.mpr ⟨⟨v, hd⟩, h.stands⟩
  covers := by
    have hrest := h.covers
    rw [List.flatMap_cons, List.append_assoc, hoffset]
    rw [show endOf o (d :: ds) = endOf (o + d.width) ds from rfl, hrest, List.range'_append_1]
    congr 1
    omega
  cut_iff := h.cut_iff
  whole := h.whole

/-- The offsets increase. -/
theorem increasing (h : Tiling cells o ds cut) :
    ds.Pairwise fun d e => d.offset < e.offset := by
  have hchain : ds.IsChain fun d e => d.offset < e.offset := by
    refine h.adjacent.imp fun d e hde => ?_
    rw [hde]
    unfold Decoded.width
    omega
  have : IsTrans Decoded fun d e => d.offset < e.offset := ⟨fun _ _ _ => Nat.lt_trans⟩
  exact hchain.pairwise

end Tiling

/-- Readings one behind the other are instructions and lone cells, and at most one that is cut
off. -/
theorem Tiles.tiling {cells : List Cell} {o : Nat} {rs : List Reading} (h : Tiles cells o rs) :
    ∃ ds cut, rs = readingsOf o ds cut ∧ Tiling cells o ds cut := by
  induction h with
  | done => exact ⟨[], none, rfl, .done cells⟩
  | lone hv hlone tail ih =>
    obtain ⟨ds, cut, rfl, htiling⟩ := ih
    exact ⟨_ :: ds, cut, rfl, .cons rfl (Decoded.standsIn_lone hv hlone) tail.le htiling⟩
  | @instruction o op operands rs hv hoperands hlength tail ih =>
    have hwidth := Decoded.width_instruction (o := o) hlength
    obtain ⟨ds, cut, rfl, htiling⟩ := ih
    refine ⟨_ :: ds, cut, ?_,
      .cons rfl (Decoded.standsIn_instruction hv hoperands hlength) ?_ ?_⟩
    · simp only [readingsOf, endOf, List.foldl_cons, hwidth, List.map_cons, List.cons_append]
    · rw [hwidth]
      exact tail.le
    · rw [hwidth]
      exact htiling
  | cut hv hshort => exact ⟨[], some _, rfl, .short hv hshort⟩

/-- **Reading any stream ends, and its readings tile it.** The calls of a reader from the start as
long as cells are left can go one way only, and end at the end of the stream after no more calls
than there are cells. They find instructions and lone cells, at offsets that increase, and at most
one instruction that is cut off, as the last; together they take up every cell once. A listing of
the stream has one line for each of them. -/
theorem Reader.run_tiles (cells : List Cell) (base : Addr) : ∃ ds cut,
    (∀ outcomes r, Run { cells } outcomes r ↔
      outcomes = (readingsOf 0 ds cut).map Reading.outcome ∧ r = ⟨cells, cells.length⟩) ∧
    (readingsOf 0 ds cut).length ≤ cells.length ∧
    Tiling cells 0 ds cut ∧
    (ds.Pairwise fun d e => d.offset < e.offset) ∧
    Text.linesOf (listing cells base).toList =
      (readingsOf 0 ds cut).map fun r => (r.text base).toList := by
  have htiles := tiles_readAll cells 0 (Nat.zero_le _)
  have hlines := linesOf_listing cells base
  rw [List.drop_zero] at htiles
  obtain ⟨ds, cut, hreadings, htiling⟩ := htiles.tiling
  rw [hreadings] at htiles hlines
  refine ⟨ds, cut, fun outcomes r => ⟨fun h => h.unique htiles.run, ?_⟩, htiles.length_le, htiling,
    htiling.increasing, hlines⟩
  rintro ⟨rfl, rfl⟩
  exact htiles.run

end CellMachine
