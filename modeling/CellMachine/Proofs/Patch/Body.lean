import CellMachine.Patch.Apply
import CellMachine.Proofs.Emission.Backpatching
import CellMachine.Proofs.Emission.Upkeep

/-!
# The body of a patch

A body is emitted statement by statement, up to the first that fails. The module says what has come
about at any point of this: which calls were carried out, and that a region stays untouched as long
as no instruction was emitted.

* `callsOf` — the calls that statements amount to.
* `Progress` — an open emission has carried out some calls, and its region is untouched as long as
  the cursor is at its start.
* `Progress.statements_ok`, `Progress.statements_error` — statements make progress, whether they
  succeed or fail.
* `Progress.emitted_eq_zero_iff` — the cursor is at its start exactly if no instruction was emitted.
* `Emission.fillTraps_ok` — what is left of an emission that is given up.
* `Patch.apply_of_refused`, `Patch.apply_of_lease`, `Patch.overwrite_of_open` — the parts of a
  patch.
-/

namespace CellMachine

open CellMachine.Action

/-! ### Calls -/

/-- An action that ends well does so without its place. -/
theorem Action.ok_of_at {σ α : Type} {pos : Position} {x : Action σ α} {s s' : σ} {a : α}
    (h : Action.at pos x s = .ok a s') : x s = .ok a s' := by
  unfold Action.at at h
  split at h
  · next hx =>
    cases h
    exact hx
  · cases h

/-- An action that fails does so without its place, which is added to the failure. -/
theorem Action.error_of_at {σ α : Type} {pos : Position} {x : Action σ α} {s s' : σ}
    {failure : Failure} (h : Action.at pos x s = .error failure s') :
    ∃ cause, x s = .error cause s' ∧ failure = .atLine pos cause := by
  unfold Action.at at h
  split at h
  · cases h
  · next cause _ hx =>
    cases h
    exact ⟨cause, hx, rfl⟩

/-- A place does not matter to what an action preserves. -/
theorem Action.at_preserves {σ α : Type} {P : σ → Prop} {x : Action σ α} (hx : Preserves P x)
    (pos : Position) : Preserves P (Action.at pos x) := by
  intro s h
  have hsame : (Action.at pos x).after s = x.after s := by
    unfold after Action.at
    cases x s <;> rfl
  rw [hsame]
  exact hx s h

/-- The calls of one statement. -/
def Statement.calls (symbols? : Option SymbolTable) (st : Statement) :
    Except Failure (List Call) := do
  let label := st.label?.toList.map Call.label
  match st.op? with
  | some op => return label ++ [.emit symbols? op (← st.operands)]
  | none => return label

/-- The calls of statements in their order. -/
def callsOf (symbols? : Option SymbolTable) : List Statement → Except Failure (List Call)
  | [] => return []
  | st :: rest => return (← st.calls symbols?) ++ (← callsOf symbols? rest)

/-! ### Cursor and instructions -/

/-- There are cells in a stream exactly if there is an instruction among its items. -/
theorem countP_isInstruction_eq_zero_iff (items : List Item) :
    items.countP Item.isInstruction = 0 ↔ (stream items).length = 0 := by
  induction items with
  | nil => exact Iff.rfl
  | cons item rest ih =>
    cases item with
    | label name =>
      rw [List.countP_cons_of_neg (fun h => by cases h), ih]
      rfl
    | instruction op encs =>
      rw [List.countP_cons_of_pos (by rfl)]
      show _ ↔ (Item.cells (.instruction op encs) ++ stream rest).length = 0
      rw [List.length_append]
      show _ ↔ encs.length + 1 + (stream rest).length = 0
      omega

variable {ρ : Type} [Region ρ] [LawfulRegion ρ]

/-- An instruction moves the cursor. -/
theorem Emission.cursor_of_wrote {op : Op} {encs : List Encoded} {e e' : Emission ρ}
    (h : Emission.WroteInstruction op encs e e') : 0 < e'.context.cursor := by
  rw [h.context]
  show 0 < e.context.cursor + op.width
  unfold Op.width
  omega

/-- A call that leaves the cursor at its start is the definition of a label that no cell waits for,
and leaves the region alone. -/
theorem Tracks.untouched_of_cursor {mode : Mode} {region : ρ} {log : List Done}
    {items : List Item} {e e' : Emission ρ} (h : Tracks mode region log items e) {c : Call}
    (hrun : c.perform e = .ok () e') (hcursor : e'.context.cursor = 0) :
    e.context.cursor = 0 ∧ e'.region = e.region := by
  have hmoved {op : Op} {operands : List Operand} {symbols? : Option SymbolTable}
      (hemit : Emission.emitOp symbols? op operands e = .ok () e') : False := by
    obtain ⟨encs, -, -, hwrote⟩ := Emission.emitOp_ok hemit h.writable h.capacity_region
    have hpos := Emission.cursor_of_wrote hwrote
    omega
  cases c with
  | emitOp symbols? op operands => exact (hmoved hrun).elim
  | emit symbols? mnemonic operands =>
    change Emission.emit symbols? mnemonic operands e = .ok () e' at hrun
    rw [Emission.emit_eq, if_pos h.status] at hrun
    split at hrun
    · cases hrun
    · exact (hmoved hrun).elim
  | label name =>
    obtain ⟨hnew, hplaced⟩ := Emission.defineLabel_ok hrun h.writable h.pending_inside
    rw [hplaced.context] at hcursor
    have hlength : (stream items).length = 0 := h.cursor.symm.trans hcursor
    have hpending : e.context.labels.pending name = [] := by
      rw [h.waiting name hnew, List.length_eq_zero_iff.mp hlength]
      rfl
    refine ⟨hcursor, ?_⟩
    change Emission.defineLabel name e = .ok () e' at hrun
    rw [Emission.defineLabel_eq, if_pos h.status] at hrun
    split at hrun
    · rw [hnew] at hrun
      change Emission.placeLabel name e = .ok () e' at hrun
      unfold Emission.placeLabel at hrun
      rw [hpending] at hrun
      cases hrun
      rfl
    · cases hrun

/-! ### Progress -/

omit [LawfulRegion ρ] in
/-- A statement is its label and then its instruction. -/
theorem Emission.statement_eq (symbols? : Option SymbolTable) (st : Statement) :
    Emission.statement (ρ := ρ) symbols? st = (do
      (match st.label? with
        | some name => defineLabel name
        | none => pure ())
      (match st.op? with
        | some op => do
          let operands ← Action.ofExcept st.operands
          emit symbols? op operands
        | none => pure ())) := by
  unfold statement
  cases st.label? <;> rfl

/-- An emission that was opened on a region is open still and has carried out the calls. The region
has a property, and is untouched as long as the cursor is at its start. -/
structure Progress (Q : ρ → Prop) (mode : Mode) (region : ρ) (calls : List Call)
    (e : Emission ρ) : Prop where
  tracks : ∃ log items, Tracks mode region log items e ∧ log.map Done.call = calls
  keeping : e.Keeping (Region.capacity region) Q
  untouched : e.context.cursor = 0 → e.region = region

namespace Progress

variable {Q : ρ → Prop} {mode : Mode} {region : ρ} {calls : List Call} {e e' : Emission ρ}

/-- An emission that was just opened has made no progress. -/
theorem start (mode : Mode) (hw : LawfulRegion.Writable region) (hQ : Q region) :
    Progress Q mode region [] (Emission.start mode region) where
  tracks := ⟨[], [], .start mode hw, rfl⟩
  keeping := ⟨hQ, rfl, fun _ _ hs => by cases hs⟩
  untouched _ := rfl

/-- The cursor is at its start exactly if no instruction was emitted. -/
theorem emitted_eq_zero_iff (h : Progress Q mode region calls e) :
    e.context.emitted = 0 ↔ e.context.cursor = 0 := by
  obtain ⟨log, items, htracks, -⟩ := h.tracks
  rw [htracks.emitted, htracks.cursor]
  exact countP_isInstruction_eq_zero_iff items

/-- A call that is carried out is progress. -/
theorem perform (hQ : Region.Upheld (Region.capacity region) Q)
    (h : Progress Q mode region calls e) {c : Call} (hrun : c.perform e = .ok () e') :
    Progress Q mode region (calls ++ [c]) e' := by
  obtain ⟨log, items, htracks, hcalls⟩ := h.tracks
  obtain ⟨item, htracks'⟩ := htracks.perform hrun
  refine ⟨⟨_, _, htracks', ?_⟩, ?_, ?_⟩
  · rw [List.map_append, hcalls]
    rfl
  · have hkeeping := EmissionCall.preserves hQ (.add c) h.keeping
    rwa [show EmissionCall.after (.add c) e = e' from after_of_ok hrun] at hkeeping
  · intro hcursor
    obtain ⟨hbefore, hregion⟩ := htracks.untouched_of_cursor hrun hcursor
    rw [hregion]
    exact h.untouched hbefore

/-- A call that is refused changes nothing and is no crash, if the region refuses no write. -/
theorem refused (haccept : Region.Accepting (Region.capacity region) fun r =>
      Q r ∧ LawfulRegion.Writable r)
    (h : Progress Q mode region calls e) {c : Call} {failure : Failure}
    (hrun : c.perform e = .error failure e') : e' = e ∧ failure.crashed = false := by
  obtain ⟨log, items, htracks, -⟩ := h.tracks
  have hregion := And.intro h.keeping.region htracks.writable
  cases c with
  | emit symbols? mnemonic operands =>
    exact Emission.emit_refused haccept hregion h.keeping.same_capacity hrun
  | emitOp symbols? op operands =>
    exact Emission.emitOp_refused haccept hregion h.keeping.same_capacity hrun
  | label name => exact Emission.defineLabel_refused haccept hregion (h.keeping.waiting name) hrun

/-- The label of a statement. -/
theorem label (hQ : Region.Upheld (Region.capacity region) Q)
    (h : Progress Q mode region calls e) {label? : Option String}
    (hrun : (match label? with
      | some name => Emission.defineLabel name
      | none => pure ()) e = .ok () e') :
    Progress Q mode region (calls ++ label?.toList.map Call.label) e' := by
  cases label? with
  | none =>
    cases hrun
    rw [Option.toList_none, List.map_nil, List.append_nil]
    exact h
  | some name => exact h.perform (c := .label name) hQ hrun

/-- A statement that succeeds carries its calls out. -/
theorem statement_ok (hQ : Region.Upheld (Region.capacity region) Q)
    (h : Progress Q mode region calls e) {symbols? : Option SymbolTable} {st : Statement}
    (hrun : Emission.statement symbols? st e = .ok () e') :
    ∃ more, st.calls symbols? = .ok more ∧ Progress Q mode region (calls ++ more) e' := by
  rw [Emission.statement_eq] at hrun
  obtain ⟨⟨⟩, e₁, hlabel, hop⟩ := ok_of_bind hrun
  have h₁ := h.label hQ hlabel
  unfold Statement.calls
  cases hst : st.op? with
  | none =>
    rw [hst] at hop
    cases hop
    exact ⟨_, rfl, h₁⟩
  | some op =>
    rw [hst] at hop
    cases hread : st.operands with
    | error failure =>
      rw [hread] at hop
      cases hop
    | ok operands =>
      rw [hread] at hop
      have h₂ := h₁.perform (c := .emit symbols? op operands) hQ hop
      rw [List.append_assoc] at h₂
      exact ⟨_, rfl, h₂⟩

/-- A statement that fails may have defined its label; it has done nothing else, and it did not
crash. -/
theorem statement_error (hQ : Region.Upheld (Region.capacity region) Q)
    (haccept : Region.Accepting (Region.capacity region) fun r => Q r ∧ LawfulRegion.Writable r)
    (h : Progress Q mode region calls e) {symbols? : Option SymbolTable} {st : Statement}
    {failure : Failure} (hrun : Emission.statement symbols? st e = .error failure e') :
    (∃ more, Progress Q mode region (calls ++ more) e') ∧ failure.crashed = false := by
  rw [Emission.statement_eq] at hrun
  rcases error_of_bind hrun with hlabel | ⟨⟨⟩, e₁, hlabel, hop⟩
  · cases hst : st.label? with
    | none =>
      rw [hst] at hlabel
      cases hlabel
    | some name =>
      rw [hst] at hlabel
      obtain ⟨rfl, hcrash⟩ := h.refused (c := .label name) haccept hlabel
      refine ⟨⟨[], ?_⟩, hcrash⟩
      rwa [List.append_nil]
  · have h₁ := h.label hQ hlabel
    suffices hsame : e' = e₁ ∧ failure.crashed = false by
      obtain ⟨rfl, hcrash⟩ := hsame
      exact ⟨⟨_, h₁⟩, hcrash⟩
    cases hst : st.op? with
    | none =>
      rw [hst] at hop
      cases hop
    | some op =>
      rw [hst] at hop
      cases hread : st.operands with
      | error cause =>
        rw [hread] at hop
        cases hop
        exact ⟨rfl, (st.operands_reports _ hread).uncrashed⟩
      | ok operands =>
        rw [hread] at hop
        exact h₁.refused (c := .emit symbols? op operands) haccept hop

/-- **Statements that succeed carry their calls out.** -/
theorem statements_ok (hQ : Region.Upheld (Region.capacity region) Q)
    {symbols? : Option SymbolTable} : (body : List Statement) → ∀ {calls : List Call}
      {e e' : Emission ρ}, Progress Q mode region calls e →
      Emission.statements symbols? body e = .ok () e' →
      ∃ more, callsOf symbols? body = .ok more ∧ Progress Q mode region (calls ++ more) e'
  | [], calls, e, e', h, hrun => by
    cases hrun
    refine ⟨[], rfl, ?_⟩
    rwa [List.append_nil]
  | st :: rest, calls, e, e', h, hrun => by
    obtain ⟨⟨⟩, e₁, hfirst, hrest⟩ := ok_of_bind hrun
    obtain ⟨more₁, hcalls₁, h₁⟩ := h.statement_ok hQ (ok_of_at hfirst)
    obtain ⟨more₂, hcalls₂, h₂⟩ := statements_ok hQ rest h₁ hrest
    refine ⟨more₁ ++ more₂, ?_, ?_⟩
    · unfold callsOf
      rw [hcalls₁, hcalls₂]
      rfl
    · rw [← List.append_assoc]
      exact h₂

/-- **Statements that fail have made progress up to the failure**, which is no crash. -/
theorem statements_error (hQ : Region.Upheld (Region.capacity region) Q)
    (haccept : Region.Accepting (Region.capacity region) fun r => Q r ∧ LawfulRegion.Writable r)
    {symbols? : Option SymbolTable} : (body : List Statement) → ∀ {calls : List Call}
      {e e' : Emission ρ} {failure : Failure}, Progress Q mode region calls e →
      Emission.statements symbols? body e = .error failure e' →
      (∃ more, Progress Q mode region (calls ++ more) e') ∧ failure.crashed = false
  | [], calls, e, e', failure, h, hrun => by cases hrun
  | st :: rest, calls, e, e', failure, h, hrun => by
    rcases error_of_bind hrun with hfirst | ⟨⟨⟩, e₁, hfirst, hrest⟩
    · obtain ⟨cause, hst, rfl⟩ := error_of_at hfirst
      obtain ⟨hprogress, hcrash⟩ := h.statement_error hQ haccept hst
      exact ⟨hprogress, hcrash⟩
    · obtain ⟨more₁, -, h₁⟩ := h.statement_ok hQ (ok_of_at hfirst)
      obtain ⟨⟨more₂, h₂⟩, hcrash⟩ := statements_error hQ haccept rest h₁ hrest
      refine ⟨⟨more₁ ++ more₂, ?_⟩, hcrash⟩
      rw [← List.append_assoc]
      exact h₂

end Progress

/-! ### Giving up -/

namespace Emission

/-- **An emission that is given up leaves traps.** -/
theorem fillTraps_ok : (count : Nat) → ∀ {e e' : Emission ρ} {offset : Nat},
    fillTraps count offset e = .ok () e' → LawfulRegion.Writable e.region →
    offset + count ≤ Region.capacity e.region →
    LawfulRegion.Writable e'.region ∧
      Region.StoredAll e.region offset (List.replicate count Op.trap.cell) e'.region
  | 0, e, e', offset, hrun, hw, _ => by
    cases hrun
    exact ⟨hw, .nil e.region offset⟩
  | count + 1, e, e', offset, hrun, hw, hroom => by
    obtain ⟨⟨⟩, e₁, hstore, hrest⟩ := ok_of_bind hrun
    have hin : offset < Region.capacity e.region := by omega
    have hstored : LawfulRegion.Writable e₁.region ∧
        Region.Stored e.region offset Op.trap.cell e₁.region := by
      unfold onRegion at hstore
      split at hstore
      · next hregion =>
        cases hstore
        exact LawfulRegion.store_ok hw hin hregion
      · cases hstore
    obtain ⟨hw₁, hfirst⟩ := hstored
    have hroom₁ : offset + 1 + count ≤ Region.capacity e₁.region := by
      rw [hfirst.capacity]
      omega
    obtain ⟨hw', hall⟩ := fillTraps_ok count hrest hw₁ hroom₁
    refine ⟨hw', ?_⟩
    rw [List.replicate_succ]
    refine .cons hfirst hall ?_
    rw [List.length_replicate]
    omega

end Emission

/-! ### Patches -/

namespace Patch

/-- A patch whose lease is refused fails with the failure of the lease. -/
theorem apply_of_refused {p : Patch} {m m' : Memory} {failure : Failure}
    (h : lease p.target m = .error failure m') : p.apply m = .error (.atLine p.pos failure) m' := by
  have hget : (get : Action Memory Memory) m = .ok m m := rfl
  have hat : Action.at p.pos (lease p.target) m = .error (.atLine p.pos failure) m' := by
    unfold Action.at
    rw [h]
  exact (bind_of_ok hget).trans (bind_of_error hat)

/-- A patch whose lease is opened overwrites the region. -/
theorem apply_of_lease {p : Patch} {m m' : Memory} {id : Nat} (h : lease p.target m = .ok id m') :
    p.apply m =
      match p.overwrite (Memory.globalSymbol m.addresses) { lease := id, memory := m' } with
      | .ok routine h => .ok routine h.memory
      | .error failure h => .error failure h.memory := by
  have hget : (get : Action Memory Memory) m = .ok m m := rfl
  have hat : Action.at p.pos (lease p.target) m = .ok id m' := by
    unfold Action.at
    rw [h]
  exact (bind_of_ok hget).trans (bind_of_ok hat)

/-- Where a dynamic emission can be opened, a region is overwritten by the body. -/
theorem overwrite_of_open {p : Patch} {symbols : SymbolTable} {h h' : Leasehold}
    (hopen : Context.openDynamic h = .ok (Context.fresh .dynamic h') h') :
    p.overwrite symbols h =
      match p.write symbols (Emission.start .dynamic h') with
      | .ok routine e => .ok routine e.region
      | .error failure e => .error (abandon failure e).1 (abandon failure e).2 := by
  unfold overwrite
  rw [hopen]
  rfl

end Patch

end CellMachine
