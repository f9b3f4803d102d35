import CellMachine.Proofs.Catalog.ByteOrder
import CellMachine.Proofs.Emission.Cursor
import CellMachine.Proofs.Emission.Invariant
import CellMachine.Proofs.Emission.Ready

/-!
# Labels that are missing in the end

An emission may use a label before it is defined, in any order and any number of times, and calls to
it may be refused. When it is finalized, the label table alone decides: a label is missing if a cell
still waits for it. The history decides the same: a label is missing if an instruction that was
emitted names it and no definition of it was carried out.

* `Done.Used`, `Done.Placed`, `Done.Missing` — what a log of calls says about a label.
* `Emission.Accounted` — the label table says what the log says.
* `Emission.Accounted.after` — one move keeps that, whether a call is carried out or refused.
* `Emission.accounted_afterAll` — so it holds after any moves that leave the region ready.
* `Emission.finalize_iff_none_missing` — **finalizing succeeds if and only if no label is missing,
  and else it names those that are**; once these are defined, in any order, it succeeds.
-/

namespace CellMachine

open CellMachine.Action

/-! ### Histories -/

namespace Done

/-- An instruction that was emitted names the label. -/
def Used (log : List Done) (name : String) : Prop :=
  ∃ d ∈ log, Operand.label name ∈ d.call.operands

/-- The label was defined. -/
def Placed (log : List Done) (name : String) : Prop :=
  ∃ offset, ⟨offset, .label name⟩ ∈ log

/-- The label was used and never defined. -/
def Missing (log : List Done) (name : String) : Prop := Used log name ∧ ¬Placed log name

/-- A longer log uses what its parts use. -/
theorem used_append {log more : List Done} {name : String} :
    Used (log ++ more) name ↔ Used log name ∨ Used more name := by
  simp only [Used, List.mem_append, or_and_right, exists_or]

/-- One call uses the labels among its operands. -/
theorem used_singleton {d : Done} {name : String} :
    Used [d] name ↔ Operand.label name ∈ d.call.operands := by
  simp [Used]

end Done

namespace EmissionMove

variable {ρ : Type} [Region ρ]

/-- The call that a move carries out, with the cursor before it. -/
def done (m : EmissionMove ρ) (e : Emission ρ) : List Done :=
  match m with
  | .call (.add c) =>
    match c.perform e with
    | .ok () _ => [⟨e.context.cursor, c⟩]
    | .error _ _ => []
  | .call .finalize | .call .discard | .behind _ => []

/-- The calls that moves carry out, in their order. -/
def doneAll : List (EmissionMove ρ) → Emission ρ → List Done
  | [], _ => []
  | m :: rest, e => m.done e ++ doneAll rest (m.after e)

variable [LawfulRegion ρ] [ReadyRegion ρ]

/-- A move is a call that adds to the stream, or it leaves the region ready and as large as it
was. -/
def Gentle (m : EmissionMove ρ) (e : Emission ρ) : Prop :=
  match m with
  | .call (.add _) => True
  | .call .finalize | .call .discard => False
  | .behind f => ReadyRegion.Ready (f e.region) ∧
      Region.capacity (f e.region) = Region.capacity e.region

/-- Every move is gentle when it comes. -/
def GentleAll : List (EmissionMove ρ) → Emission ρ → Prop
  | [], _ => True
  | m :: rest, e => m.Gentle e ∧ GentleAll rest (m.after e)

end EmissionMove

/-! ### Operands that name labels -/

namespace Resolver

variable {r : Resolver} {op : Op} {operands : List Operand} {encs : List Encoded} {name : String}

/-- The labels among the operand cells are those among the operands. -/
theorem exists_label_iff (h : r.resolveAll op operands = .ok encs) :
    (∃ rule, Encoded.label name rule ∈ encs) ↔ Operand.label name ∈ operands := by
  constructor
  · rintro ⟨rule, hmem⟩
    obtain ⟨operand, hoperand, _, _, _, hencode⟩ := exists_operand h hmem
    exact (encode_eq_label hencode).1 ▸ hoperand
  · intro hmem
    obtain ⟨_, rfl⟩ := eq_singleton_of_label h hmem
    exact ⟨op.patch, List.mem_singleton_self _⟩

/-- A label that an instruction was encoded with has the form of a name. -/
theorem isName_of_resolveAll (h : r.resolveAll op operands = .ok encs)
    (hmem : Operand.label name ∈ operands) : Text.isName name := by
  obtain ⟨_, _, _, _, _, hencode⟩ := exists_encoded h hmem
  simp only [encode] at hencode
  split at hencode
  · assumption
  · cases hencode

end Resolver

/-- A stream has cells that name a label if it has one. -/
theorem sitesOf_ne_nil_iff {name : String} {encs : List Encoded} (pos : Nat) :
    sitesOf name pos encs ≠ [] ↔ ∃ rule, Encoded.label name rule ∈ encs := by
  constructor
  · intro h
    obtain ⟨site, hsite⟩ := List.exists_mem_of_ne_nil _ h
    obtain ⟨k, _, hget⟩ := getElem?_of_mem_sitesOf encs hsite
    exact ⟨site.rule, List.mem_of_getElem? hget⟩
  · rintro ⟨rule, hmem⟩
    obtain ⟨k, hget⟩ := List.mem_iff_getElem?.1 hmem
    exact List.ne_nil_of_mem (mem_sitesOf encs hget)

/-! ### What a label table reports -/

namespace LabelTable

variable {t : LabelTable}

/-- A label of the table is found under its name, with its offset and its waiting cells. -/
theorem Distinct.offset?_of_mem (h : t.Distinct) {l : Label} (hl : l ∈ t.labels) :
    t.offset? l.name = l.offset? ∧ t.pending l.name = l.pending := by
  have hfind := h.find?_eq_some hl
  simp [offset?, pending, hfind]

/-- **The unresolved labels are those that cells wait for and that have no offset.** -/
theorem Distinct.mem_unresolved (h : t.Distinct) {name : String} :
    name ∈ t.unresolved ↔ t.offset? name = none ∧ t.pending name ≠ [] := by
  simp only [unresolved, List.mem_mergeSort, List.mem_map, List.mem_filter, Bool.and_eq_true,
    Option.isNone_iff_eq_none, Bool.not_eq_true', List.isEmpty_eq_false_iff]
  constructor
  · rintro ⟨l, ⟨hl, ho, hp⟩, rfl⟩
    obtain ⟨hoffset, hpending⟩ := h.offset?_of_mem hl
    exact ⟨hoffset.trans ho, hpending ▸ hp⟩
  · rintro ⟨ho, hp⟩
    unfold pending at hp
    rcases hf : t.find? name with _ | l
    · simp [hf] at hp
    · have hl : l ∈ t.labels := List.mem_of_find?_eq_some hf
      have hname : l.name = name := by simpa using List.find?_some hf
      obtain ⟨hoffset, _⟩ := h.offset?_of_mem hl
      refine ⟨l, ⟨hl, ?_, by simpa [hf] using hp⟩, hname⟩
      rw [← hoffset, hname]
      exact ho

/-- Things with distinct names that are sorted by their names stand in the order of the names. -/
theorem pairwise_mergeSort_of_nodup {α : Type} (key : α → String) {le : α → α → Bool}
    (hle : ∀ a b, le a b = true ↔ key a ≤ key b) {l : List α} (h : (l.map key).Nodup) :
    (l.mergeSort le).Pairwise fun a b => key a < key b := by
  have hsorted : (l.mergeSort le).Pairwise fun a b => key a ≤ key b := by
    refine (List.pairwise_mergeSort ?_ ?_ l).imp fun hab => (hle _ _).1 hab
    · intro a b c hab hbc
      rw [hle] at hab hbc ⊢
      exact le_trans hab hbc
    · intro a b
      rw [Bool.or_eq_true, hle, hle]
      exact le_total (key a) (key b)
  have hdistinct : (l.mergeSort le).Pairwise fun a b => key a ≠ key b :=
    List.pairwise_map.1 (((List.mergeSort_perm l le).map key).nodup_iff.2 h)
  exact (hsorted.and hdistinct).imp fun hab => lt_of_le_of_ne hab.1 hab.2

/-- The unresolved labels stand in the order of their names, each once. -/
theorem Distinct.pairwise_unresolved (h : t.Distinct) : t.unresolved.Pairwise (· < ·) := by
  refine pairwise_mergeSort_of_nodup id ?_ ?_
  · simp only [Bool.not_eq_true', decide_eq_false_iff_not, not_lt, id, implies_true]
  · rw [List.map_id]
    exact List.Nodup.sublist (List.filter_sublist.map Label.name) h

/-- The resolved labels stand in the order of their names, each once. -/
theorem Distinct.pairwise_resolved (h : t.Distinct) :
    t.resolved.Pairwise fun a b => a.1 < b.1 := by
  refine pairwise_mergeSort_of_nodup Prod.fst ?_ ?_
  · simp only [Bool.not_eq_true', decide_eq_false_iff_not, not_lt, implies_true]
  · exact List.Nodup.sublist (defined_sublist t.labels) h

/-- The resolved labels are those that have an offset. -/
theorem Distinct.mem_resolved (h : t.Distinct) {name : String} {offset : Nat} :
    (name, offset) ∈ t.resolved ↔ t.offset? name = some offset := by
  rw [← h.lookup_resolved]
  constructor
  · intro hmem
    refine lookup_eq_some_of_mem _ (List.pairwise_map.2 ?_) hmem
    exact h.pairwise_resolved.imp fun hab => ne_of_lt hab
  · intro hlookup
    obtain ⟨l₁, l₂, hsplit, _⟩ := List.lookup_eq_some_iff.1 hlookup
    simp [hsplit]

end LabelTable

/-! ### Calls on regions that are ready -/

namespace Emission

variable {ρ : Type} [Region ρ]

section Accepting

variable {capacity : Nat} {P : ρ → Prop} {e : Emission ρ}

/-- An instruction that fits is written, on a region that refuses no write. -/
theorem exists_writeInstruction (hP : Region.Accepting capacity P) (h : P e.region) {op : Op}
    {encs : List Encoded} (hroom : e.context.cursor + 1 + encs.length ≤ capacity) :
    ∃ e', writeInstruction op encs e = .ok () e' ∧ P e'.region := by
  have hin : e.context.cursor < capacity := by omega
  obtain ⟨region, hstore, hregion⟩ := exists_store hP h hin op.cell
  obtain ⟨e', hwrite, he'⟩ := exists_writeOperands hP encs (e := { e with region }) hregion hroom
  exact ⟨_, (bind_of_ok hstore).trans (bind_of_ok hwrite), he'⟩

/-- A label is placed if the cells that wait for it lie inside a region that refuses no write. -/
theorem exists_placeLabel (hP : Region.Accepting capacity P) (h : P e.region) {name : String}
    (hwaiting : ∀ s ∈ e.context.labels.pending name, s.offset < capacity) :
    ∃ e', placeLabel name e = .ok () e' ∧ P e'.region := by
  have hdefine : modifyContext
      (fun c => { c with labels := c.labels.define name c.cursor }) e = .ok () _ := rfl
  obtain ⟨e', hsites, he'⟩ := exists_writeSites hP e.context.labels e.context.cursor
    (e.context.labels.pending name)
    (e := { e with context :=
      { e.context with labels := e.context.labels.define name e.context.cursor } })
    h hwaiting
  exact ⟨_, (bind_of_ok hdefine).trans (bind_of_ok hsites), he'⟩

end Accepting

variable [LawfulRegion ρ] [ReadyRegion ρ]

/-- Regions that are ready refuse no write. -/
theorem accepting_ready (capacity : Nat) :
    Region.Accepting capacity
      fun r : ρ => ReadyRegion.Ready r ∧ Region.capacity r = capacity := by
  rintro offset v r ho ⟨hready, rfl⟩
  obtain ⟨r', hstore, hready'⟩ := ReadyRegion.exists_store v hready ho
  obtain ⟨-, hstored⟩ := LawfulRegion.store_ok (ReadyRegion.writable hready) ho hstore
  exact ⟨r', hstore, hready', hstored.capacity⟩

/-! ### The account of the labels -/

/-- The label table of an open emission says of every label what the log says: where it was
defined, and if it was not, whether it was used. -/
structure Accounted (log : List Done) (e : Emission ρ) : Prop where
  status : e.context.status = .open
  ready : ReadyRegion.Ready e.region
  capacity : Region.capacity e.region = e.context.capacity
  room : e.context.cursor ≤ e.context.capacity
  distinct : e.context.labels.Distinct
  placed : ∀ name offset, e.context.labels.offset? name = some offset ↔
    ⟨offset, .label name⟩ ∈ log
  waiting : ∀ name, e.context.labels.offset? name = none →
    (e.context.labels.pending name ≠ [] ↔ Done.Used log name)
  /-- The cells that wait for a label can be written. -/
  inside : ∀ name, e.context.labels.offset? name = none →
    ∀ s ∈ e.context.labels.pending name, s.offset < e.context.capacity
  /-- A label that was used can be defined. -/
  named : ∀ name, Done.Used log name → Text.isName name

namespace Accounted

variable {log : List Done} {e e' : Emission ρ}

/-- In the account of an emission that has just been opened no label is used or defined. -/
theorem start (mode : Mode) {region : ρ} (hready : ReadyRegion.Ready region) :
    (Emission.start mode region).Accounted [] where
  status := rfl
  ready := hready
  capacity := rfl
  room := Nat.zero_le _
  distinct := List.nodup_nil
  placed name offset := by
    simp [Emission.start, Context.fresh, LabelTable.offset?, LabelTable.find?]
  waiting name _ := by
    simp [Emission.start, Context.fresh, LabelTable.pending, LabelTable.find?, Done.Used]
  inside name _ s hs := by
    simp [Emission.start, Context.fresh, LabelTable.pending, LabelTable.find?] at hs
  named name hused := by simp [Done.Used] at hused

/-- A label has no offset if and only if it was not defined. -/
theorem offset?_eq_none_iff (h : e.Accounted log) {name : String} :
    e.context.labels.offset? name = none ↔ ¬Done.Placed log name := by
  simp only [Option.eq_none_iff_forall_ne_some, ne_eq, h.placed, Done.Placed, not_exists]

/-- **The labels that the table reports are those that are missing.** -/
theorem mem_unresolved (h : e.Accounted log) {name : String} :
    name ∈ e.context.labels.unresolved ↔ Done.Missing log name := by
  rw [h.distinct.mem_unresolved, Done.Missing, ← h.offset?_eq_none_iff, and_comm]
  exact and_congr_left fun hnone => h.waiting name hnone

/-- An instruction that was written adds the labels that it names. -/
theorem instruction (h : e.Accounted log) {call : Call} (hemits : call.emits = true)
    {symbols? : Option SymbolTable} {op : Op} {encs : List Encoded}
    (hres : Resolver.resolveAll ⟨e.context.mode, symbols?⟩ op call.operands = .ok encs)
    (hroom : e.context.cursor + op.width ≤ e.context.capacity)
    (hwrote : WroteInstruction op encs e e') (hready : ReadyRegion.Ready e'.region) :
    e'.Accounted (log ++ [⟨e.context.cursor, call⟩]) := by
  have hcontext := hwrote.context
  have hlength := Resolver.length_of_resolveAll hres
  have hoffset (name : String) :
      e'.context.labels.offset? name = e.context.labels.offset? name := by
    rw [hcontext]
    exact LabelTable.offset?_referenceAll ..
  have hpending {name : String} (hnone : e'.context.labels.offset? name = none) :
      e'.context.labels.pending name = e.context.labels.pending name ++
        sitesOf name (e.context.cursor + 1) encs := by
    rw [hoffset] at hnone
    rw [hcontext]
    exact LabelTable.pending_referenceAll _ _ _ _ hnone
  refine
    { status := ?_, ready := hready, capacity := ?_, room := ?_, distinct := ?_, placed := ?_
      waiting := ?_, inside := ?_, named := ?_ }
  · rw [hcontext]
    exact h.status
  · rw [hcontext, hwrote.stored.capacity]
    exact h.capacity
  · rw [hcontext]
    exact hroom
  · rw [hcontext]
    exact h.distinct.referenceAll encs _
  · intro name offset
    have hother : call ≠ .label name := by
      rintro rfl
      cases hemits
    rw [hoffset, h.placed]
    simp [hother.symm]
  · intro name hnone
    rw [hpending hnone, Done.used_append, Done.used_singleton, ← Resolver.exists_label_iff hres,
      ← sitesOf_ne_nil_iff (e.context.cursor + 1), ← h.waiting name (hoffset name ▸ hnone)]
    simp only [ne_eq, List.append_eq_nil_iff, not_and_or]
  · intro name hnone s hs
    rw [hpending hnone, List.mem_append] at hs
    have hcapacity : e'.context.capacity = e.context.capacity := by rw [hcontext]
    rw [hcapacity]
    rcases hs with hold | hnew
    · exact h.inside name (hoffset name ▸ hnone) s hold
    · obtain ⟨k, hk, hget⟩ := getElem?_of_mem_sitesOf encs hnew
      have hlt := (List.getElem?_eq_some_iff.1 hget).1
      unfold Op.width at hroom
      omega
  · intro name hused
    rcases Done.used_append.1 hused with hbefore | hnow
    · exact h.named name hbefore
    · exact Resolver.isName_of_resolveAll hres (Done.used_singleton.1 hnow)

/-- A label that was placed is defined at the cursor. -/
theorem label (h : e.Accounted log) {name : String}
    (hnew : e.context.labels.offset? name = none) (hplaced : PlacedLabel name e e')
    (hready : ReadyRegion.Ready e'.region) :
    e'.Accounted (log ++ [⟨e.context.cursor, .label name⟩]) := by
  have hcontext := hplaced.context
  have hoffset := Tracks.offset?_of_placed hplaced
  have hused {n : String} :
      Done.Used (log ++ [⟨e.context.cursor, .label name⟩]) n ↔ Done.Used log n := by
    simp [Done.used_append, Done.used_singleton, Call.operands]
  have hother {n : String} (hnone : e'.context.labels.offset? n = none) :
      e.context.labels.offset? n = none ∧
        e'.context.labels.pending n = e.context.labels.pending n := by
    rw [hoffset] at hnone
    by_cases hn : n = name
    · simp [hn] at hnone
    · rw [if_neg hn] at hnone
      refine ⟨hnone, ?_⟩
      rw [hcontext]
      show ((e.context.labels.define name e.context.cursor).settle name).pending n = _
      rw [LabelTable.pending_settle, if_neg hn, LabelTable.pending_define]
  refine
    { status := ?_, ready := hready, capacity := ?_, room := ?_, distinct := ?_, placed := ?_
      waiting := ?_, inside := ?_, named := ?_ }
  · rw [hcontext]
    exact h.status
  · rw [hcontext, hplaced.patched.capacity]
    exact h.capacity
  · rw [hcontext]
    exact h.room
  · rw [hcontext]
    refine LabelTable.Distinct.update (LabelTable.Distinct.update h.distinct name ?_) name ?_
    · exact fun _ => rfl
    · exact fun _ => rfl
  · intro n offset
    rw [hoffset]
    by_cases hn : n = name
    · have hfresh : ⟨offset, .label name⟩ ∉ log := by
        rw [← h.placed, hnew]
        simp
      simp [hn, hfresh, eq_comm]
    · simp [hn, h.placed]
  · intro n hnone
    obtain ⟨hbefore, hsame⟩ := hother hnone
    rw [hsame, hused]
    exact h.waiting n hbefore
  · intro n hnone s hs
    obtain ⟨hbefore, hsame⟩ := hother hnone
    rw [hsame] at hs
    rw [hcontext]
    exact h.inside n hbefore s hs
  · exact fun n hn => h.named n (hused.1 hn)

/-- An instruction is emitted and accounted for, or it is refused and nothing has happened. -/
theorem emitOp (h : e.Accounted log) {call : Call} (hemits : call.emits = true)
    (symbols? : Option SymbolTable) (op : Op) :
    (∃ e', Emission.emitOp symbols? op call.operands e = .ok () e' ∧
      e'.Accounted (log ++ [⟨e.context.cursor, call⟩])) ∨
    ∃ failure, Emission.emitOp symbols? op call.operands e = .error failure e := by
  rw [emitOp_eq, if_pos h.status]
  cases hres : Resolver.resolveAll ⟨e.context.mode, symbols?⟩ op call.operands with
  | error failure => exact .inr ⟨failure, rfl⟩
  | ok encs =>
    by_cases hroom : e.context.capacity < e.context.cursor + op.width
    · simp only [if_pos hroom]
      exact .inr ⟨_, rfl⟩
    · simp only [if_neg hroom]
      have hfits : e.context.cursor + 1 + encs.length ≤ e.context.capacity := by
        have hlength := Resolver.length_of_resolveAll hres
        unfold Op.width at hroom
        omega
      obtain ⟨e', hwrite, hready, -⟩ :=
        exists_writeInstruction (accepting_ready _) ⟨h.ready, h.capacity⟩ hfits
      have hwrote := writeInstruction_ok hwrite (ReadyRegion.writable h.ready)
        (h.capacity.symm ▸ hfits)
      exact .inl ⟨e', hwrite, h.instruction hemits hres (not_lt.1 hroom) hwrote hready⟩

/-- A label that has the form of a name and was not defined before is defined. -/
theorem exists_defineLabel (h : e.Accounted log) {name : String} (hname : Text.isName name)
    (hnew : e.context.labels.offset? name = none) :
    ∃ e', Emission.defineLabel name e = .ok () e' ∧ e'.context.cursor = e.context.cursor ∧
      e'.Accounted (log ++ [⟨e.context.cursor, .label name⟩]) := by
  obtain ⟨e', hplace, hready, -⟩ :=
    exists_placeLabel (accepting_ready _) ⟨h.ready, h.capacity⟩ (h.inside name hnew)
  have hrun : Emission.defineLabel name e = .ok () e' := by
    rw [defineLabel_eq, if_pos h.status, if_pos hname, hnew]
    exact hplace
  obtain ⟨-, hplaced⟩ := defineLabel_ok hrun (ReadyRegion.writable h.ready)
    fun _ => h.capacity.symm ▸ h.inside name hnew
  exact ⟨e', hrun, by rw [hplaced.context], h.label hnew hplaced hready⟩

/-- **A call is carried out and accounted for, or it is refused and nothing has happened.** -/
theorem perform (h : e.Accounted log) (c : Call) :
    (∃ e', c.perform e = .ok () e' ∧ e'.Accounted (log ++ [⟨e.context.cursor, c⟩])) ∨
      ∃ failure, c.perform e = .error failure e := by
  cases c with
  | emitOp symbols? op operands =>
    have hemits : (Call.emitOp symbols? op operands).emits = true := rfl
    exact h.emitOp hemits symbols? op
  | emit symbols? mnemonic operands =>
    show (∃ e', Emission.emit symbols? mnemonic operands e = .ok () e' ∧ _) ∨
      ∃ failure, Emission.emit symbols? mnemonic operands e = .error failure e
    have hemits : (Call.emit symbols? mnemonic operands).emits = true := rfl
    rw [emit_eq, if_pos h.status]
    cases Resolver.chooseOp ⟨e.context.mode, symbols?⟩ mnemonic operands with
    | error failure => exact .inr ⟨failure, rfl⟩
    | ok op => exact h.emitOp hemits symbols? op
  | label name =>
    show (∃ e', Emission.defineLabel name e = .ok () e' ∧ _) ∨
      ∃ failure, Emission.defineLabel name e = .error failure e
    by_cases hname : Text.isName name
    · rcases hoff : e.context.labels.offset? name with _ | offset
      · obtain ⟨e', hrun, -, he'⟩ := h.exists_defineLabel hname hoff
        exact .inl ⟨e', hrun, he'⟩
      · rw [defineLabel_eq, if_pos h.status, if_pos hname, hoff]
        exact .inr ⟨_, rfl⟩
    · rw [defineLabel_eq, if_pos h.status, if_neg hname]
      exact .inr ⟨_, rfl⟩

/-- **A gentle move keeps the account.** -/
theorem after (h : e.Accounted log) {m : EmissionMove ρ} (hm : m.Gentle e) :
    (m.after e).Accounted (log ++ m.done e) := by
  cases m with
  | behind f =>
    rw [EmissionMove.done, List.append_nil]
    exact { h with ready := hm.1, capacity := hm.2.trans h.capacity }
  | call c =>
    cases c with
    | finalize => exact hm.elim
    | discard => exact hm.elim
    | add c =>
      show (c.perform.after e).Accounted (log ++ match c.perform e with
        | .ok () _ => [⟨e.context.cursor, c⟩]
        | .error _ _ => [])
      rcases h.perform c with ⟨e', hrun, he'⟩ | ⟨failure, hrun⟩
      · rw [after_of_ok hrun, hrun]
        exact he'
      · rw [after_of_error hrun, hrun, List.append_nil]
        exact h

/-- Labels that are not yet defined can be defined one after the other, all at the same place. -/
theorem exists_runCalls_label (names : List String) (h : e.Accounted log)
    (hname : ∀ name ∈ names, Text.isName name)
    (hnew : ∀ name ∈ names, ¬Done.Placed log name) (hnodup : names.Nodup) :
    ∃ e', runCalls (names.map .label) e =
        .ok (names.map fun name => ⟨e.context.cursor, .label name⟩, e') ∧
      e'.Accounted (log ++ names.map fun name => ⟨e.context.cursor, .label name⟩) := by
  induction names generalizing log e with
  | nil => exact ⟨e, rfl, by simpa using h⟩
  | cons name rest ih =>
    obtain ⟨hfirst, hrest⟩ := List.nodup_cons.1 hnodup
    have hopen := h.offset?_eq_none_iff.2 (hnew name List.mem_cons_self)
    obtain ⟨e₁, hdefine, hcursor, h₁⟩ :=
      h.exists_defineLabel (hname name List.mem_cons_self) hopen
    have hlater : ∀ n ∈ rest, ¬Done.Placed (log ++ [⟨e.context.cursor, .label name⟩]) n := by
      rintro n hn ⟨offset, hmem⟩
      rcases List.mem_append.1 hmem with hbefore | hnow
      · exact hnew n (List.mem_cons_of_mem _ hn) ⟨offset, hbefore⟩
      · obtain ⟨_, rfl⟩ : offset = e.context.cursor ∧ n = name := by simpa using hnow
        exact hfirst hn
    obtain ⟨e', hrun, h'⟩ := ih h₁ (fun n hn => hname n (List.mem_cons_of_mem _ hn)) hlater hrest
    rw [hcursor] at hrun h'
    refine ⟨e', ?_, by simpa using h'⟩
    have hperform : (Call.label name).perform e = .ok () e₁ := hdefine
    rw [List.map_cons, runCalls, runAll, hperform]
    simp only
    rw [show runAll Call.perform _ (rest.map .label) e₁ = _ from hrun]
    rfl

end Accounted

/-- **After any gentle moves the label table says what the history says.** -/
theorem accounted_afterAll (moves : List (EmissionMove ρ)) {log : List Done} {e : Emission ρ}
    (h : e.Accounted log) (hmoves : EmissionMove.GentleAll moves e) :
    (EmissionMove.afterAll moves e).Accounted (log ++ EmissionMove.doneAll moves e) := by
  induction moves generalizing log e with
  | nil => simpa [EmissionMove.doneAll, EmissionMove.afterAll] using h
  | cons m rest ih =>
    rw [EmissionMove.doneAll, ← List.append_assoc]
    exact ih (h.after hmoves.1) hmoves.2

/-! ### Finalizing -/

variable {log : List Done} {e : Emission ρ}

/-- An emission from which no label is missing can be finalized. -/
theorem Accounted.exists_finalize (h : e.Accounted log)
    (hnone : ∀ name, ¬Done.Missing log name) : ∃ routine e', finalize e = .ok routine e' := by
  have hresolved : e.context.labels.unresolved = [] :=
    List.eq_nil_iff_forall_not_mem.2 fun name hname => hnone name (h.mem_unresolved.1 hname)
  obtain ⟨region, hseal⟩ := ReadyRegion.exists_sealUp h.ready (h.capacity.symm ▸ h.room)
  rw [finalize_eq, if_pos h.status, if_pos hresolved, hseal]
  exact ⟨_, _, rfl⟩

/-- An emission from which a label is missing reports what is missing, and stays as it is. -/
theorem Accounted.finalize_of_missing (h : e.Accounted log) {name : String}
    (hmissing : Done.Missing log name) :
    finalize e = .error (.unresolvedLabels e.context.labels.unresolved) e := by
  have hname := h.mem_unresolved.2 hmissing
  rw [finalize_eq, if_pos h.status, if_neg (List.ne_nil_of_mem hname)]

/-- Once the missing labels are defined, in any order, the emission can be finalized. -/
theorem Accounted.exists_finalize_of_perm (h : e.Accounted log) {order : List String}
    (horder : order.Perm e.context.labels.unresolved) :
    ∃ e', runCalls (order.map .label) e =
        .ok (order.map fun name => ⟨e.context.cursor, .label name⟩, e') ∧
      ∃ routine e'', finalize e' = .ok routine e'' := by
  have hmem {name : String} : name ∈ order ↔ Done.Missing log name :=
    horder.mem_iff.trans h.mem_unresolved
  have hnodup : order.Nodup :=
    horder.nodup_iff.2 (h.distinct.pairwise_unresolved.imp fun hab => ne_of_lt hab)
  obtain ⟨e', hrun, h'⟩ := h.exists_runCalls_label order
    (fun name hname => h.named name (hmem.1 hname).1) (fun name hname => (hmem.1 hname).2) hnodup
  refine ⟨e', hrun, h'.exists_finalize ?_⟩
  rintro name ⟨hused, hnot⟩
  have hbefore : Done.Used log name := by
    refine (Done.used_append.1 hused).resolve_right ?_
    simp [Done.Used, Call.operands]
  by_cases hplaced : Done.Placed log name
  · obtain ⟨offset, hoffset⟩ := hplaced
    exact hnot ⟨offset, List.mem_append_left _ hoffset⟩
  · refine hnot ⟨e.context.cursor, List.mem_append_right _ ?_⟩
    exact List.mem_map.2 ⟨name, hmem.2 ⟨hbefore, hplaced⟩, rfl⟩

/-- **Finalizing is exact about the labels that are missing.** After any calls on a region that
stays ready, an emission can be finalized if and only if every label that an emitted instruction
names was defined; the labels of the routine are then the defined ones, with their offsets.
Otherwise the failure names the labels that were used and never defined, each once and in the order
of their bytes, and once these are defined, in any order, the emission can be finalized. -/
theorem finalize_iff_none_missing {mode : Mode} {region : ρ} (hready : ReadyRegion.Ready region)
    {moves : List (EmissionMove ρ)} (hmoves : EmissionMove.GentleAll moves (start mode region))
    {log : List Done} (hlog : EmissionMove.doneAll moves (start mode region) = log)
    {e : Emission ρ} (he : EmissionMove.afterAll moves (start mode region) = e) :
    ((∃ routine e', finalize e = .ok routine e') ↔
      ∀ name, Done.Used log name → Done.Placed log name) ∧
    (∀ routine e', finalize e = .ok routine e' →
      (routine.labels.map fun l => l.1.toUTF8.toList).Pairwise (· < ·) ∧
      ∀ name offset, (name, offset) ∈ routine.labels ↔ ⟨offset, .label name⟩ ∈ log) ∧
    ((∃ name, Done.Missing log name) → ∃ names : List String,
      finalize e = .error (.unresolvedLabels names) e ∧
      (names.map fun name => name.toUTF8.toList).Pairwise (· < ·) ∧
      (∀ name, name ∈ names ↔ Done.Missing log name) ∧
      ∀ order : List String, order.Perm names → ∃ e',
        runCalls (order.map .label) e =
          .ok (order.map fun name => ⟨e.context.cursor, .label name⟩, e') ∧
        ∃ routine e'', finalize e' = .ok routine e'') := by
  have h : e.Accounted log := by
    subst hlog he
    exact accounted_afterAll moves (Accounted.start mode hready) hmoves
  refine ⟨⟨?_, ?_⟩, ?_, ?_⟩
  · rintro ⟨routine, e', hfinal⟩ name hused
    by_contra hnot
    have hfailed := h.finalize_of_missing ⟨hused, hnot⟩
    rw [hfinal] at hfailed
    cases hfailed
  · intro hall
    exact h.exists_finalize fun name hmissing => hmissing.2 (hall name hmissing.1)
  · intro routine e' hfinal
    obtain ⟨-, -, -, rfl⟩ := finalize_ok hfinal
    refine ⟨List.pairwise_map.2 ?_, fun name offset => ?_⟩
    · exact h.distinct.pairwise_resolved.imp fun hab => Text.bytes_lt_of_lt hab
    · exact h.distinct.mem_resolved.trans (h.placed name offset)
  · rintro ⟨name, hmissing⟩
    refine ⟨_, h.finalize_of_missing hmissing, List.pairwise_map.2 ?_, ?_, ?_⟩
    · exact h.distinct.pairwise_unresolved.imp fun hab => Text.bytes_lt_of_lt hab
    · exact fun n => h.mem_unresolved
    · exact fun order horder => h.exists_finalize_of_perm horder

/-! ### A sample -/

/-- A buffer of eight cells. -/
def blankBuffer : Buffer := { base := 256, cells := Array.replicate 8 0 }

/-- Calls that leave two labels missing. One that names another label is refused, a label is defined
that nothing uses, and meanwhile someone writes into the last cell. -/
def hastyMoves : List (EmissionMove Buffer) :=
  [.call (.add (.emit none "JUMP" [.label "zeta"])),
    .call (.add (.emit none "JZER" [.label "alpha"])),
    .call (.add (.emit none "HOP" [.label "ghost"])),
    .behind fun b => { b with cells := b.cells.setIfInBounds 7 9 },
    .call (.add (.emit none "JNZ" [.label "ok"])),
    .call (.add (.label "ok")),
    .call (.add (.label "unused"))]

/-- What the moves of the sample carry out. -/
def hastyLog : List Done :=
  [⟨0, .emit none "JUMP" [.label "zeta"]⟩, ⟨2, .emit none "JZER" [.label "alpha"]⟩,
    ⟨4, .emit none "JNZ" [.label "ok"]⟩, ⟨6, .label "ok"⟩, ⟨6, .label "unused"⟩]

/-- The labels that are missing from the sample. -/
theorem missing_hastyLog {name : String} :
    Done.Missing hastyLog name ↔ name ∈ ["alpha", "zeta"] := by
  simp only [Done.Missing, Done.Used, Done.Placed, hastyLog, List.mem_cons, List.not_mem_nil,
    or_false, exists_eq_or_imp, exists_eq_left, Call.operands, Operand.label.injEq, Done.mk.injEq,
    Call.label.injEq, reduceCtorEq, and_false, false_or, not_exists, not_or, not_and]
  constructor
  · rintro ⟨rfl | rfl | rfl, hnot⟩
    · exact .inr rfl
    · exact .inl rfl
    · exact absurd rfl ((hnot 6).1 rfl)
  · rintro (rfl | rfl) <;> simp

/-- The sample leaves two labels missing, which the failure names in their order; once they are
defined, here the other way round, the emission is finalized. -/
theorem finalize_iff_none_missing_sample :
    ReadyRegion.Ready blankBuffer ∧
      EmissionMove.GentleAll hastyMoves (start .dynamic blankBuffer) ∧
      EmissionMove.doneAll hastyMoves (start .dynamic blankBuffer) = hastyLog ∧
      ∃ e, EmissionMove.afterAll hastyMoves (start .dynamic blankBuffer) = e ∧
        finalize e = .error (.unresolvedLabels ["alpha", "zeta"]) e ∧
        ∃ e', runCalls [.label "zeta", .label "alpha"] e =
            .ok ([⟨6, .label "zeta"⟩, ⟨6, .label "alpha"⟩], e') ∧
          ∃ routine e'', finalize e' = .ok routine e'' := by
  have hgentle : EmissionMove.GentleAll hastyMoves (start .dynamic blankBuffer) :=
    ⟨trivial, trivial, trivial, ⟨rfl, rfl⟩, trivial, trivial, trivial, trivial⟩
  have hlog : EmissionMove.doneAll hastyMoves (start .dynamic blankBuffer) = hastyLog := rfl
  obtain ⟨-, -, hmissing⟩ := finalize_iff_none_missing rfl hgentle hlog rfl
  obtain ⟨names, hfailed, hordered, hmem, hthen⟩ :=
    hmissing ⟨"zeta", missing_hastyLog.2 (by simp)⟩
  have hnames : names = ["alpha", "zeta"] := by
    have hless : "alpha" < "zeta" := by decide +kernel
    have hsorted := List.pairwise_map.1 hordered
    have hperm : names.Perm ["alpha", "zeta"] := by
      refine (List.perm_ext_iff_of_nodup ?_ (by decide)).2 fun name => ?_
      · refine hsorted.imp ?_
        rintro a _ hab rfl
        exact List.lt_irrefl _ hab
      · exact (hmem name).trans missing_hastyLog
    refine hperm.eq_of_pairwise ?_ hsorted (by simpa using Text.bytes_lt_of_lt hless)
    exact fun a b _ _ hab hba => absurd hab (List.lt_asymm hba)
  subst hnames
  exact ⟨rfl, hgentle, hlog, _, rfl, hfailed, hthen ["zeta", "alpha"] (.swap ..)⟩

end Emission

end CellMachine
