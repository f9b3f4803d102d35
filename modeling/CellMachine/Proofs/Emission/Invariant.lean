import CellMachine.Proofs.Emission.Write

/-!
# The invariant of an emission

`Tracks` says what an open emission has come to: the calls that were carried out, the items that
they are read as, and how the region and the label table stand to these items. A cell of the region
holds the value of its item, where a label that is still open counts as zero, and the cells that
wait for a label are exactly the cells of the stream that name it.

* `Tracks.start` — it holds of an emission that was just opened.
* `Tracks.perform` — a call that is carried out adds its item.
* `Tracks.refused` — a call that is refused changes nothing.
* `Tracks.run` — so it holds after any calls.
* `Tracks.placed_of_unresolved` — if no label is missing, no cell of the stream is open.
-/

namespace CellMachine

variable {ρ : Type} [Region ρ] [LawfulRegion ρ]

/-- An open emission on a region has carried out the calls of the log, which are the items. -/
structure Tracks (mode : Mode) (region : ρ) (log : List Done) (items : List Item)
    (e : Emission ρ) : Prop where
  status : e.context.status = .open
  same_mode : e.context.mode = mode
  capacity : e.context.capacity = Region.capacity region
  kept : Region.Kept region e.region
  writable : LawfulRegion.Writable e.region
  recorded : Recorded mode 0 log items
  /-- The cursor is behind the stream. -/
  cursor : e.context.cursor = (stream items).length
  /-- The stream fits into the region. -/
  room : (stream items).length ≤ Region.capacity region
  emitted : e.context.emitted = items.countP Item.isInstruction
  origin : e.context.labels.origin = Region.origin region
  distinct : e.context.labels.Distinct
  /-- The table knows the labels that the first pass would place. -/
  placed : ∀ name, e.context.labels.offset? name = (placeLabels 0 items).lookup name
  /-- The cells that wait for an open label are those that name it. -/
  waiting : ∀ name, e.context.labels.offset? name = none →
    e.context.labels.pending name = sitesOf name 0 (stream items)
  /-- Every cell of the stream is written, as far as its label is known. -/
  written : ∀ (i : Nat) enc, (stream items)[i]? = some enc →
    Region.load e.region i = .ok (enc.value e.context.labels i)
  /-- The cells behind the stream are as they were. -/
  untouched : ∀ i : Nat, (stream items).length ≤ i → i < Region.capacity region →
    Region.load e.region i = Region.load region i

namespace Tracks

variable {mode : Mode} {region : ρ} {log : List Done} {items : List Item} {e e' : Emission ρ}

/-- An emission that was just opened has written nothing. -/
theorem start (mode : Mode) (hw : LawfulRegion.Writable region) :
    Tracks mode region [] [] (Emission.start mode region) where
  status := rfl
  same_mode := rfl
  capacity := rfl
  kept := .refl region
  writable := hw
  recorded := .nil 0
  cursor := rfl
  room := Nat.zero_le _
  emitted := rfl
  origin := rfl
  distinct := List.nodup_nil
  placed _ := rfl
  waiting _ _ := rfl
  written _ _ h := by cases h
  untouched _ _ _ := rfl

/-- A change of the region that leaves its cells alone keeps the invariant. -/
theorem of_region (h : Tracks mode region log items e) {region' : ρ}
    (hkept : Region.Kept e.region region') (hw : LawfulRegion.Writable region')
    (hload : ∀ i : Nat, i < Region.capacity e.region →
      Region.load region' i = Region.load e.region i) :
    Tracks mode region log items { e with region := region' } :=
  { h with
    kept := h.kept.trans hkept
    writable := hw
    written := by
      intro i enc hi
      have hlt : i < (stream items).length := (List.getElem?_eq_some_iff.1 hi).1
      have hcap : i < Region.capacity e.region := by
        rw [h.kept.capacity]
        exact Nat.lt_of_lt_of_le hlt h.room
      exact (hload i hcap).trans (h.written i enc hi)
    untouched := by
      intro i hi hcap
      have hcap' : i < Region.capacity e.region := by
        rw [h.kept.capacity]
        exact hcap
      exact (hload i hcap').trans (h.untouched i hi hcap) }

/-- A cell that waits for an open label names it. -/
theorem getElem?_of_pending (h : Tracks mode region log items e) {name : String}
    (hn : e.context.labels.offset? name = none) {s : Site}
    (hs : s ∈ e.context.labels.pending name) :
    (stream items)[s.offset]? = some (.label name s.rule) := by
  rw [h.waiting name hn] at hs
  obtain ⟨k, hk, hget⟩ := getElem?_of_mem_sitesOf _ hs
  rw [hk, Nat.zero_add]
  exact hget

/-- The cells that wait for an open label lie inside the region. -/
theorem pending_inside (h : Tracks mode region log items e) {name : String}
    (hn : e.context.labels.offset? name = none) :
    ∀ s ∈ e.context.labels.pending name, s.offset < Region.capacity e.region := by
  intro s hs
  have hlt := (List.getElem?_eq_some_iff.1 (h.getElem?_of_pending hn hs)).1
  rw [h.kept.capacity]
  exact Nat.lt_of_lt_of_le hlt h.room

/-! ### One call -/

/-- After an instruction was written every cell of the longer stream is written. -/
theorem load_of_wrote (h : Tracks mode region log items e) {op : Op} {encs : List Encoded}
    (hwrote : Emission.WroteInstruction op encs e e') {i : Nat} {enc : Encoded}
    (hi : (stream items ++ Item.cells (.instruction op encs))[i]? = some enc) :
    Region.load e'.region i = .ok (enc.value e.context.labels i) := by
  have hcursor := h.cursor
  have hroom := h.room
  by_cases hlt : i < (stream items).length
  · -- a cell from before the instruction
    rw [List.getElem?_append_left hlt] at hi
    rw [hwrote.stored.outside i (by rw [h.kept.capacity]; omega) (.inl (by omega))]
    exact h.written i enc hi
  · rw [List.getElem?_append_right (by omega)] at hi
    have hin := hwrote.stored.inside (i - e.context.cursor) (enc.value e.context.labels i) (by
      rw [getElem?_valuesFrom, hcursor]
      show (Item.cells (.instruction op encs))[i - (stream items).length]?.map _ = _
      rw [hi, Option.map_some]
      congr 2
      omega)
    rw [← hin]
    congr 2
    omega

/-- An instruction that was written is one more item. -/
theorem instruction (h : Tracks mode region log items e) {call : Call} {op : Op}
    {encs : List Encoded} (hitem : call.item mode = .ok (.instruction op encs))
    (hroom : e.context.cursor + op.width ≤ e.context.capacity)
    (hwrote : Emission.WroteInstruction op encs e e') :
    Tracks mode region (log ++ [⟨e.context.cursor, call⟩]) (items ++ [.instruction op encs])
      e' := by
  have hwidth : (Item.cells (.instruction op encs)).length = op.width :=
    Call.length_cells_of_item hitem
  have hlen : (stream (items ++ [.instruction op encs])).length =
      (stream items).length + op.width := by
    rw [stream_concat, List.length_append, hwidth]
  have hcursor := h.cursor
  have hcap := h.capacity
  have hstored := hwrote.stored
  have hvalues : (valuesFrom e.context.labels e.context.cursor (.cell op.cell :: encs)).length =
      op.width := (length_valuesFrom ..).trans hwidth
  have hoffset (name : String) :
      e'.context.labels.offset? name = e.context.labels.offset? name := by
    rw [hwrote.context]
    exact LabelTable.offset?_referenceAll ..
  have horigin : e'.context.labels.origin = e.context.labels.origin := by
    rw [hwrote.context]
    exact LabelTable.origin_referenceAll ..
  refine
    { status := ?_, same_mode := ?_, capacity := ?_
      kept := h.kept.trans hstored.toKept
      writable := hwrote.writable
      recorded := ?_, cursor := ?_, room := ?_, emitted := ?_
      origin := horigin.trans h.origin
      distinct := ?_, placed := ?_, waiting := ?_, written := ?_, untouched := ?_ }
  · rw [hwrote.context]
    exact h.status
  · rw [hwrote.context]
    exact h.same_mode
  · rw [hwrote.context]
    exact hcap
  · have hrec := h.recorded.concat hitem
    rw [Nat.zero_add, ← hcursor] at hrec
    exact hrec
  · rw [hwrote.context, hlen, ← hcursor]
  · rw [hlen]
    omega
  · rw [hwrote.context, List.countP_append]
    exact congrArg (· + 1) h.emitted
  · rw [hwrote.context]
    exact h.distinct.referenceAll encs _
  · intro name
    rw [hoffset, h.placed, placeLabels_append h.recorded]
    exact congrArg (fun l => List.lookup name l) (List.append_nil _).symm
  · intro name hname
    rw [hoffset] at hname
    rw [hwrote.context, stream_concat, sitesOf_append, Nat.zero_add, ← hcursor]
    show (e.context.labels.referenceAll (e.context.cursor + 1) encs).pending name = _
    rw [LabelTable.pending_referenceAll encs _ _ _ hname, h.waiting name hname]
    rfl
  · intro i enc hi
    rw [Encoded.value_congr horigin hoffset]
    rw [stream_concat] at hi
    exact h.load_of_wrote hwrote hi
  · intro i hi hcap'
    rw [hlen] at hi
    rw [hstored.outside i (by rw [h.kept.capacity]; exact hcap')
      (.inr (by rw [hvalues]; omega))]
    exact h.untouched i (by omega) hcap'

/-- After a label was placed its offset is the cursor, and the other labels stand where they
stood. -/
theorem offset?_of_placed {name : String} (hplaced : Emission.PlacedLabel name e e') (n : String) :
    e'.context.labels.offset? n =
      if n = name then some e.context.cursor else e.context.labels.offset? n := by
  rw [hplaced.context]
  exact (LabelTable.offset?_settle ..).trans (LabelTable.offset?_define ..)

/-- Placing a label does not move the origin. -/
theorem origin_of_placed {name : String} (hplaced : Emission.PlacedLabel name e e') :
    e'.context.labels.origin = e.context.labels.origin := by
  rw [hplaced.context]
  rfl

/-- After a label was placed the cells that name it are patched, and every other cell of the stream
is written as before. -/
theorem load_of_placed (h : Tracks mode region log items e) {name : String}
    (hnew : e.context.labels.offset? name = none) (hplaced : Emission.PlacedLabel name e e')
    {i : Nat} {enc : Encoded} (hi : (stream items)[i]? = some enc) :
    Region.load e'.region i = .ok (enc.value e'.context.labels i) := by
  have hlt : i < (stream items).length := (List.getElem?_eq_some_iff.1 hi).1
  have hoffset := offset?_of_placed hplaced
  have horigin := origin_of_placed hplaced
  by_cases henc : ∃ rule, enc = .label name rule
  · obtain ⟨rule, rfl⟩ := henc
    have hmem : (⟨i, rule⟩ : Site) ∈ e.context.labels.pending name := by
      rw [h.waiting name hnew, ← Nat.zero_add i]
      exact mem_sitesOf _ hi
    have honly : ∀ s ∈ e.context.labels.pending name, s.offset = i → s = ⟨i, rule⟩ := by
      intro s hs ho
      have hget := h.getElem?_of_pending hnew hs
      rw [ho, hi] at hget
      cases s
      cases hget
      cases ho
      rfl
    refine (hplaced.patched.at_site ⟨i, rule⟩ hmem honly).trans ?_
    simp only [Encoded.value, LabelTable.operand, hoffset, horigin, if_true]
    rfl
  · have hfree : ∀ s ∈ e.context.labels.pending name, s.offset ≠ i := by
      intro s hs ho
      have hget := h.getElem?_of_pending hnew hs
      rw [ho, hi] at hget
      cases hget
      exact henc ⟨s.rule, rfl⟩
    have hcap : i < Region.capacity e.region := by
      rw [h.kept.capacity]
      exact Nat.lt_of_lt_of_le hlt h.room
    rw [hplaced.patched.elsewhere i hcap hfree, h.written i enc hi]
    cases enc with
    | cell v => rfl
    | label n rule =>
      have hne : n ≠ name := fun heq => henc ⟨rule, by rw [heq]⟩
      simp only [Encoded.value, LabelTable.operand, hoffset, horigin, if_neg hne]

/-- A label that was placed is one more item. -/
theorem label (h : Tracks mode region log items e) {name : String}
    (hnew : e.context.labels.offset? name = none) (hplaced : Emission.PlacedLabel name e e') :
    Tracks mode region (log ++ [⟨e.context.cursor, .label name⟩]) (items ++ [.label name]) e' := by
  have hstream : stream (items ++ [.label name]) = stream items :=
    (stream_concat items (.label name)).trans (List.append_nil _)
  have hoffset := offset?_of_placed hplaced
  refine
    { status := ?_, same_mode := ?_, capacity := ?_
      kept := h.kept.trans hplaced.patched.toKept
      writable := hplaced.writable
      recorded := ?_, cursor := ?_, room := ?_, emitted := ?_
      origin := (origin_of_placed hplaced).trans h.origin
      distinct := ?_, placed := ?_, waiting := ?_, written := ?_, untouched := ?_ }
  · rw [hplaced.context]
    exact h.status
  · rw [hplaced.context]
    exact h.same_mode
  · rw [hplaced.context]
    exact h.capacity
  · have hrec := h.recorded.concat (show (Call.label name).item mode = .ok (.label name) from rfl)
    rw [Nat.zero_add, ← h.cursor] at hrec
    exact hrec
  · rw [hplaced.context, hstream]
    exact h.cursor
  · rw [hstream]
    exact h.room
  · rw [hplaced.context, List.countP_append]
    exact h.emitted
  · rw [hplaced.context]
    refine LabelTable.Distinct.update (LabelTable.Distinct.update h.distinct name ?_) name ?_
    · exact fun _ => rfl
    · exact fun _ => rfl
  · intro n
    rw [hoffset, placeLabels_append h.recorded, Nat.zero_add, ← h.cursor, List.lookup_append,
      ← h.placed]
    by_cases hn : n = name
    · rw [if_pos hn, hn, hnew]
      exact List.lookup_cons_self.symm
    · rw [if_neg hn]
      show _ = (e.context.labels.offset? n).or (List.lookup n [(name, e.context.cursor)])
      rw [List.lookup_cons, beq_false_of_ne hn]
      exact (Option.or_none).symm
  · intro n hn
    rw [hoffset] at hn
    by_cases heq : n = name
    · rw [if_pos heq] at hn
      cases hn
    · rw [if_neg heq] at hn
      rw [hplaced.context, hstream]
      show ((e.context.labels.define name e.context.cursor).settle name).pending n = _
      rw [LabelTable.pending_settle, if_neg heq, LabelTable.pending_define]
      exact h.waiting n hn
  · intro i enc hi
    rw [hstream] at hi
    exact h.load_of_placed hnew hplaced hi
  · intro i hi hcap
    rw [hstream] at hi
    have hfree : ∀ s ∈ e.context.labels.pending name, s.offset ≠ i := by
      intro s hs ho
      have hlt := (List.getElem?_eq_some_iff.1 (h.getElem?_of_pending hnew hs)).1
      omega
    rw [hplaced.patched.elsewhere i (by rw [h.kept.capacity]; exact hcap) hfree]
    exact h.untouched i hi hcap

/-- The emission has the capacity of its region. -/
theorem capacity_region (h : Tracks mode region log items e) :
    e.context.capacity = Region.capacity e.region :=
  h.capacity.trans h.kept.capacity.symm

/-- **A call that is carried out** adds its item. -/
theorem perform (h : Tracks mode region log items e) {call : Call}
    (hrun : call.perform e = .ok () e') :
    ∃ item, Tracks mode region (log ++ [⟨e.context.cursor, call⟩]) (items ++ [item]) e' := by
  cases call with
  | emit symbols? mnemonic operands =>
    change Emission.emit symbols? mnemonic operands e = .ok () e' at hrun
    rw [Emission.emit_eq, if_pos h.status, h.same_mode] at hrun
    rcases hop : Resolver.chooseOp ⟨mode, symbols?⟩ mnemonic operands with failure | op
    · rw [hop] at hrun
      cases hrun
    · rw [hop] at hrun
      obtain ⟨encs, hres, hroom, hwrote⟩ := Emission.emitOp_ok hrun h.writable h.capacity_region
      rw [h.same_mode] at hres
      exact ⟨_, h.instruction ((Call.item_emit hop).trans (Call.item_emitOp hres)) hroom hwrote⟩
  | emitOp symbols? op operands =>
    obtain ⟨encs, hres, hroom, hwrote⟩ := Emission.emitOp_ok hrun h.writable h.capacity_region
    rw [h.same_mode] at hres
    exact ⟨_, h.instruction (Call.item_emitOp hres) hroom hwrote⟩
  | label name =>
    obtain ⟨hnew, hplaced⟩ := Emission.defineLabel_ok hrun h.writable h.pending_inside
    exact ⟨_, h.label hnew hplaced⟩

/-- **A call that is refused** changes nothing. -/
theorem refused (h : Tracks mode region log items e) {call : Call} {failure : Failure}
    (hrun : call.perform e = .error failure e') : failure.crashed ∨ e' = e := by
  cases call with
  | emit symbols? mnemonic operands =>
    change Emission.emit symbols? mnemonic operands e = .error failure e' at hrun
    rw [Emission.emit_eq, if_pos h.status] at hrun
    rcases hop : Resolver.chooseOp ⟨e.context.mode, symbols?⟩ mnemonic operands with cause | op
    · rw [hop] at hrun
      cases hrun
      exact .inr rfl
    · rw [hop] at hrun
      exact Emission.emitOp_error hrun h.writable h.capacity_region
  | emitOp symbols? op operands =>
    exact Emission.emitOp_error hrun h.writable h.capacity_region
  | label name => exact Emission.defineLabel_error hrun h.writable h.pending_inside

/-! ### Many calls -/

/-- **The invariant holds after any calls**; the log grows by those that were carried out. -/
theorem run {calls : List Call} {more : List Done}
    (hrun : Emission.runCalls calls e = .ok (more, e')) (h : Tracks mode region log items e) :
    ∃ items', Tracks mode region (log ++ more) items' e' := by
  refine Action.runAll_preserves (P := fun log e => ∃ items, Tracks mode region log items e)
    ?_ ?_ calls hrun ⟨items, h⟩
  · rintro log e e' call ⟨items, h⟩ hcall
    obtain ⟨item, h'⟩ := h.perform hcall
    exact ⟨_, h'⟩
  · rintro log e e' call failure ⟨items, h⟩ hcall
    exact h.refused hcall

/-- If no label is missing, every label of the stream has been placed. -/
theorem placed_of_unresolved (h : Tracks mode region log items e)
    (hu : e.context.labels.unresolved = []) {i : Nat} {name : String} {rule : PatchRule}
    (hi : (stream items)[i]? = some (.label name rule)) :
    ∃ offset, e.context.labels.offset? name = some offset := by
  rcases ho : e.context.labels.offset? name with _ | offset
  · have hmem : (⟨0 + i, rule⟩ : Site) ∈ sitesOf name 0 (stream items) := mem_sitesOf _ hi
    rw [← h.waiting name ho, LabelTable.pending_eq_nil_of_unresolved hu ho] at hmem
    cases hmem
  · exact ⟨offset, rfl⟩

end Tracks

end CellMachine
