import CellMachine.Proofs.Emission.Decoding
import CellMachine.Proofs.Machine.Transfer

/-!
# What a label operand means

Four parts of the system compute the address of a label: the routine from its base, the emission
when it writes an operand, the reader when it shows a target, and the machine when it jumps. The
module shows that they agree on any finished stream that stands behind whole instructions of its
routine.

* `offset_of_placeLabels` — a label stands at the start of an instruction or at the end.
* `Recorded.split` — where the cells of one call stand among all cells.
* `LabelMeans` — an address is what the reader, the machine and the routine take a label for.
* `LabelsAgree` — this holds of every label operand of a stream.
* `Finished.labelsAgree` — **it does**, for any finished stream behind whole instructions.
-/

namespace CellMachine

/-! ### Where labels stand -/

/-- The place of the first item is the start of the first instruction, or there is none. -/
theorem Recorded.start_or_empty {mode : Mode} {pos : Nat} {log : List Done} {items : List Item}
    (h : Recorded mode pos log items) :
    (∃ done ∈ log, done.call.emits = true ∧ done.cursor = pos) ∨ (stream items).length = 0 := by
  induction h with
  | nil pos => exact .inr rfl
  | @cons pos call item log items head tail ih =>
    rcases Call.item_ok head with ⟨name, rfl, rfl⟩ | ⟨_, op, encs, hcall, rfl, _⟩
    · rcases ih with ⟨done, hmem, hemits, hcursor⟩ | hempty
      · exact .inl ⟨done, List.mem_cons_of_mem _ hmem, hemits, hcursor⟩
      · exact .inr hempty
    · exact .inl ⟨_, List.mem_cons_self, hcall, rfl⟩

/-- **A label stands at the start of an instruction or at the end of the stream.** -/
theorem offset_of_placeLabels {mode : Mode} {pos : Nat} {log : List Done} {items : List Item}
    (h : Recorded mode pos log items) {name : String} {offset : Nat}
    (hplaced : (placeLabels pos items).lookup name = some offset) :
    offset = pos + (stream items).length ∨
      ∃ done ∈ log, done.call.emits = true ∧ done.cursor = offset := by
  induction h with
  | nil pos => cases hplaced
  | @cons pos call item log items head tail ih =>
    have hlater (hcase : offset = pos + item.width + (stream items).length ∨
        ∃ done ∈ log, done.call.emits = true ∧ done.cursor = offset) :
        offset = pos + (stream (item :: items)).length ∨
          ∃ done ∈ (⟨pos, call⟩ :: log : List Done),
            done.call.emits = true ∧ done.cursor = offset := by
      rcases hcase with hend | ⟨done, hmem, hdone⟩
      · refine .inl (hend.trans ?_)
        show _ = pos + (item.cells ++ stream items).length
        rw [List.length_append, Call.length_cells_of_item head, Nat.add_assoc]
      · exact .inr ⟨done, List.mem_cons_of_mem _ hmem, hdone⟩
    rcases Call.item_ok head with ⟨n, rfl, rfl⟩ | ⟨_, op, encs, _, rfl, _⟩
    · change ((n, pos) :: placeLabels pos items).lookup name = some offset at hplaced
      rw [List.lookup_cons] at hplaced
      by_cases hn : name = n
      · rw [beq_iff_eq.2 hn] at hplaced
        cases hplaced
        rcases tail.start_or_empty with ⟨done, hmem, hdone⟩ | hempty
        · exact .inr ⟨done, List.mem_cons_of_mem _ hmem, hdone⟩
        · refine hlater (.inl ?_)
          rw [hempty]
          rfl
      · rw [beq_false_of_ne hn] at hplaced
        exact hlater (ih hplaced)
    · exact hlater (ih hplaced)

/-! ### Where the cells of a call stand -/

/-- Every call of a log is read as an item. -/
theorem Recorded.item_of_mem {mode : Mode} {pos : Nat} {log : List Done} {items : List Item}
    (h : Recorded mode pos log items) {done : Done} (hmem : done ∈ log) :
    ∃ item, done.call.item mode = .ok item := by
  induction h with
  | nil pos => cases hmem
  | cons head _ ih =>
    rcases List.mem_cons.1 hmem with rfl | hmem
    · exact ⟨_, head⟩
    · exact ih hmem

/-- The cells of a call stand at its cursor. -/
theorem Recorded.split {mode : Mode} {origin : Int} {labels : List (String × Nat)} {pos : Nat}
    {log : List Done} {items : List Item} (h : Recorded mode pos log items) {cells : List Cell}
    (hcells : writeItems? origin labels pos items = some cells) {done : Done} (hmem : done ∈ log)
    {op : Op} {encs : List Encoded} (hitem : done.call.item mode = .ok (.instruction op encs)) :
    ∃ before operands after, cells = before ++ (op.cell :: operands ++ after) ∧
      pos + before.length = done.cursor ∧
      operandCells? origin labels (done.cursor + 1) encs = some operands := by
  induction h generalizing cells with
  | nil pos => cases hmem
  | @cons pos call item log items head tail ih =>
    rcases List.mem_cons.1 hmem with rfl | hmem
    · rw [head] at hitem
      cases hitem
      obtain ⟨operands, more, hoperands, _, rfl⟩ := writeItems?_instruction hcells
      exact ⟨[], operands, more, rfl, rfl, hoperands⟩
    · rcases Call.item_ok head with ⟨name, _, rfl⟩ | ⟨_, op', encs', _, rfl, hres⟩
      · exact ih hcells hmem
      · obtain ⟨operands', more, hoperands', hmore, rfl⟩ := writeItems?_instruction hcells
        obtain ⟨before, operands, after, rfl, hcursor, hoperands⟩ := ih hmore hmem
        have hlen : (op'.cell :: operands').length = op'.width := by
          rw [List.length_cons, length_of_operandCells? encs' hoperands',
            Resolver.length_of_resolveAll hres]
          exact Nat.add_comm ..
        refine ⟨op'.cell :: operands' ++ before, operands, after, ?_, ?_, hoperands⟩
        · rw [List.append_assoc]
        · rw [List.length_append, hlen, ← Nat.add_assoc]
          exact hcursor

/-! ### The reader, the machine and the routine -/

/-- What the label operand of a call means. The call emitted `op` into the stream of a routine; the
cells of the routine around it start at `entry`, the stream `shift` cells later. -/
structure LabelMeans (entry : Addr) (cells : List Cell) (shift : Nat) (log : List Done)
    (routine : Routine) (done : Done) (op : Op) (addr : Addr) : Prop where
  /-- A reader that starts at the entry comes upon the instruction and shows the address, counted
  from the entry. -/
  decoded : ∀ later : List Cell, ∃ ds d r,
    Reader.Reads { cells := cells ++ later } (ds ++ [d]) r ∧
      d.offset = shift + done.cursor ∧ d.op? = some op ∧ d.target? = some (addr - entry)
  /-- A machine that executes the instruction and transfers control continues at the address. -/
  transfer : ∀ (m m' : Machine) (ended : Bool), m.memory.Holds entry cells →
    m.processor.codeBase = entry → m.processor.pc = routine.base + Int64.ofNat done.cursor →
    op.takes m.processor.p m.processor.s → Machine.step m = .ok ended m' →
    m'.processor.pc = addr
  /-- A machine that has a step left does not fail on a jump. -/
  jumps : ∀ m : Machine, m.memory.Holds entry cells →
    m.processor.pc = routine.base + Int64.ofNat done.cursor → op ≠ .call → ¬ m.spent →
    ∃ m', Machine.step m = .ok false m'
  /-- The address is that of an instruction of the stream, or of the end of the stream. -/
  boundary : ∃ offset, addr = routine.base + Int64.ofNat offset ∧
    (offset = routine.length ∨ ∃ other ∈ log, other.call.emits = true ∧ other.cursor = offset)

/-- Every label operand of a stream means the address that the routine gives for its label. -/
def LabelsAgree (entry : Addr) (cells : List Cell) (shift : Nat) (log : List Done)
    (routine : Routine) : Prop :=
  ∀ done ∈ log, ∀ name, Operand.label name ∈ done.call.operands →
    ∃ addr op, routine.label? name = some addr ∧
      done.call.item routine.mode = .ok (.instruction op [.label name op.patch]) ∧
      LabelMeans entry cells shift log routine done op addr

/-- The one operand cell of an instruction with a label operand. -/
theorem operandCells?_label {origin : Int} {labels : List (String × Nat)} {site : Nat}
    {name : String} {rule : PatchRule} {operands : List Cell}
    (h : operandCells? origin labels site [.label name rule] = some operands) :
    ∃ offset v, labels.lookup name = some offset ∧
      labelCell? origin offset site rule = some v ∧ operands = [v] := by
  simp only [operandCells?, Option.bind_eq_some_iff, Option.map_eq_some_iff] at h
  obtain ⟨offset, hoffset, v, hv, _, ⟨⟩, rfl⟩ := h
  exact ⟨offset, v, hoffset, hv, rfl⟩

/-- The label operand of an instruction leads to its label. -/
theorem destination_eq {op : Op} {origin : Int} {offset cursor shift : Nat} {v : Cell}
    {entry base : Addr} (hv : labelCell? origin offset (cursor + 1) op.patch = some v)
    (hbase : base = entry + Int64.ofNat shift)
    (horigin : Int64.ofInt origin = Int64.ofNat shift) :
    op.destination entry (base + Int64.ofNat cursor) v = base + Int64.ofNat offset := by
  unfold Op.destination
  rcases hrule : op.patch with _ | _ | _ | _
  all_goals rw [hrule] at hv
  all_goals cases hv
  · rw [if_pos rfl, Int64.ofInt_add, Int64.ofInt_eq_ofNat, horigin, hbase]
    grind
  · rw [if_neg (by decide), Int64.ofInt_sub, Int64.ofInt_eq_ofNat, Int64.ofInt_eq_ofNat,
      Int64.ofNat_add]
    change base + Int64.ofNat cursor + 1 + (Int64.ofNat offset - (Int64.ofNat cursor + 1)) = _
    grind

/-- The target that a reader shows is the label, counted from the entry. -/
theorem target?_eq {op : Op} {origin : Int} {offset cursor shift : Nat} {v : Cell}
    {entry base : Addr} (hv : labelCell? origin offset (cursor + 1) op.patch = some v)
    (hbase : base = entry + Int64.ofNat shift)
    (horigin : Int64.ofInt origin = Int64.ofNat shift) {d : Decoded}
    (hoffset : d.offset = shift + cursor) (hop : d.op? = some op) (hoperands : d.operands = [v]) :
    d.target? = some (base + Int64.ofNat offset - entry) := by
  unfold Decoded.target?
  simp only [hop, hoperands, hoffset]
  rcases hrule : op.patch with _ | _ | _ | _
  all_goals rw [hrule] at hv
  all_goals cases hv
  · refine congrArg some ?_
    rw [Int64.ofInt_add, Int64.ofInt_eq_ofNat, horigin, hbase]
    grind
  · refine congrArg some ?_
    rw [Int64.ofInt_sub, Int64.ofInt_eq_ofNat, Int64.ofInt_eq_ofNat, Int64.ofNat_add,
      Int64.ofNat_add, Int64.ofNat_add, hbase]
    grind

/-- The partner of a member, and where it stands. -/
theorem exists_partner {α β : Type} {R : α → β → Prop} {l : List α} {l' : List β}
    (h : List.Forall₂ R l l') {a : α} (hmem : a ∈ l) :
    ∃ before b after, l' = before ++ b :: after ∧ R a b := by
  induction h with
  | nil => cases hmem
  | @cons a' b' l l' hR _ ih =>
    rcases List.mem_cons.1 hmem with rfl | hmem
    · exact ⟨[], b', l', rfl, hR⟩
    · obtain ⟨before, b, after, rfl, hb⟩ := ih hmem
      exact ⟨b' :: before, b, after, rfl, hb⟩

/-- A stream behind whole instructions is read instruction by instruction. -/
theorem Recorded.reads_behind {mode : Mode} {origin : Int} {labels : List (String × Nat)}
    {log : List Done} {items : List Item} (h : Recorded mode 0 log items) {cells : List Cell}
    (hcells : writeItems? origin labels 0 items = some cells) {before after : List Cell}
    (hbefore : ∃ ds, Reader.Reads { cells := before ++ (cells ++ after) } ds
      { cells := before ++ (cells ++ after), pos := before.length })
    {done : Done} (hmem : done ∈ emitsOf log) :
    ∃ ds d r, Reader.Reads { cells := before ++ cells ++ after } (ds ++ [d]) r ∧
      Decodes mode origin labels before.length done d := by
  obtain ⟨ds₀, hreads₀⟩ := hbefore
  obtain ⟨ds, hreads, hds⟩ := h.reads hcells before (Nat.add_zero _).symm after
  obtain ⟨ds₁, d, ds₂, rfl, hd⟩ := exists_partner hds hmem
  have hall := hreads₀.append hreads
  rw [← List.append_assoc before] at hall
  rw [List.append_cons ds₁ d ds₂, ← List.append_assoc ds₀] at hall
  obtain ⟨r, hr⟩ := Reader.Reads.of_append (ds₀ ++ (ds₁ ++ [d])) hall
  rw [← List.append_assoc] at hr
  exact ⟨ds₀ ++ ds₁, d, r, hr, hd⟩

variable {ρ : Type} [Region ρ]

/-- **The reader, the machine and the routine agree** about the label operands of a finished stream
that stands behind whole instructions of its routine. -/
theorem Finished.labelsAgree {mode : Mode} {region : ρ} {log : List Done} {items : List Item}
    {cells : List Cell} {routine : Routine} {e : Emission ρ}
    (h : Finished mode region log items cells routine e) {entry : Addr} {before : List Cell}
    (hbase : Region.base region = entry + Int64.ofNat before.length)
    (horigin : Int64.ofInt (Region.origin region) = Int64.ofNat before.length)
    (hbefore : ∀ after, ∃ ds, Reader.Reads { cells := before ++ after } ds
      { cells := before ++ after, pos := before.length }) :
    LabelsAgree entry (before ++ cells) before.length log routine := by
  intro done hmem name hname
  rw [h.same_mode]
  obtain ⟨item, hitem⟩ := h.recorded.item_of_mem hmem
  rcases Call.item_ok hitem with ⟨n, hcall, _⟩ | ⟨symbols?, op, encs, hemits, rfl, hres⟩
  · rw [hcall] at hname
    cases hname
  obtain ⟨hlabel, rfl⟩ := Resolver.eq_singleton_of_label hres hname
  obtain ⟨front, operands, back, hsplit, hcursor, hoperands⟩ :=
    h.recorded.split h.assembled hmem hitem
  obtain ⟨offset, v, hlookup, hv, rfl⟩ := operandCells?_label hoperands
  have hbase' : routine.base = entry + Int64.ofNat before.length := h.base.trans hbase
  -- the two cells of the instruction, as a machine finds them
  have hcell {m : Memory} (hm : m.Holds entry (before ++ cells)) {k : Nat} {w : Cell}
      (hk : (op.cell :: [v])[k]? = some w) :
      m.load (routine.base + Int64.ofNat done.cursor + Int64.ofNat k) = .ok w := by
    have hload := hm (before.length + (front.length + k)) w (by
      rw [List.getElem?_append_right (by omega), Nat.add_sub_cancel_left, hsplit,
        List.getElem?_append_right (by omega), Nat.add_sub_cancel_left,
        List.getElem?_append_left (List.getElem?_eq_some_iff.1 hk).1, hk])
    rw [← hload, hbase', ← hcursor, Nat.zero_add, Int64.ofNat_add, Int64.ofNat_add]
    congr 1
    grind
  refine ⟨routine.base + Int64.ofNat offset, op, ?_, hitem, ?_⟩
  · unfold Routine.label?
    rw [hlookup]
    rfl
  refine { decoded := ?_, transfer := ?_, jumps := ?_, boundary := ?_ }
  · intro later
    have hdone : done ∈ emitsOf log := List.mem_filter.2 ⟨hmem, hemits⟩
    obtain ⟨ds, d, r, hreads, hd⟩ :=
      h.recorded.reads_behind h.assembled (hbefore (cells ++ later)) hdone
    obtain ⟨op', encs', hitem', hop', _, hoperands'⟩ := hd.instruction
    rw [hitem] at hitem'
    cases hitem'
    rw [hoperands] at hoperands'
    refine ⟨ds, d, r, hreads, hd.offset, hop', ?_⟩
    exact target?_eq hv hbase' horigin hd.offset hop' (Option.some.inj hoperands').symm
  · intro m m' ended hm hcode hpc htakes hstep
    have hop := hcell hm (k := 0) rfl
    have ha := hcell hm (k := 1) rfl
    rw [← hpc] at hop ha
    rw [Machine.pc_of_step hlabel ((congrArg m.memory.load (Int64.add_zero _)).symm.trans hop) ha
      htakes hstep, hcode, hpc]
    exact destination_eq hv hbase' horigin
  · intro m hm hpc hcall hsteps
    have hop := hcell hm (k := 0) rfl
    have ha := hcell hm (k := 1) rfl
    rw [← hpc] at hop ha
    exact ⟨_, Machine.step_of_jump hlabel hcall
      ((congrArg m.memory.load (Int64.add_zero _)).symm.trans hop) ha hsteps⟩
  · refine ⟨offset, rfl, ?_⟩
    rw [h.labels] at hlookup
    rcases offset_of_placeLabels h.recorded hlookup with hend | hother
    · left
      rw [h.length, h.length_stream, hend, Nat.zero_add]
    · exact .inr hother

end CellMachine
