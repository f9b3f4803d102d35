import CellMachine.Proofs.Emission.Label
import CellMachine.Proofs.Emission.Region
import CellMachine.Proofs.Emission.TwoPass

/-!
# What emissions write

One lemma for each action of an open emission, which says all that the action does to the context
and to the region if it ends well, and that it does nothing if it is refused.

* `emitOp_ok` — an instruction is written at the cursor: its opcode, and for each operand its cell;
  a label that is still open leaves a placeholder and queues its cell.
* `defineLabel_ok` — a label is placed at the cursor, and the cells that waited for it are written.
* `finalize_ok` — no label is missing, and the region is sealed.
* `emitOp_error`, `defineLabel_error` — a refused call changes nothing.

The values written are those of `valuesFrom`: a stream of cells seen through a label table, in
which a label without a definition counts as zero.
-/

namespace CellMachine

/-! ### Cells seen through a label table -/

/-- The cell at `site`, as far as the label table knows it. -/
def Encoded.value (t : LabelTable) (site : Nat) : Encoded → Cell
  | .cell v => v
  | .label name rule => (t.offset? name).elim 0 fun offset => t.operand rule offset site

/-- The cells from `site` on, as far as the label table knows them. -/
def valuesFrom (t : LabelTable) : (site : Nat) → List Encoded → List Cell
  | _, [] => []
  | site, enc :: rest => enc.value t site :: valuesFrom t (site + 1) rest

/-- The cells that name a label, in a stream whose first cell is at `pos`. -/
def sitesOf (name : String) : (pos : Nat) → List Encoded → List Site
  | _, [] => []
  | pos, .cell _ :: rest => sitesOf name (pos + 1) rest
  | pos, .label n rule :: rest =>
    if n = name then ⟨pos, rule⟩ :: sitesOf name (pos + 1) rest else sitesOf name (pos + 1) rest

/-- The label table after the uses in a stream of cells whose first cell is at `site`. -/
def LabelTable.referenceAll (t : LabelTable) : (site : Nat) → List Encoded → LabelTable
  | _, [] => t
  | site, .cell _ :: rest => t.referenceAll (site + 1) rest
  | site, .label name rule :: rest =>
    (t.reference name site rule).2.referenceAll (site + 1) rest

/-- Only the offsets and the origin of a table count for the value of a cell. -/
theorem Encoded.value_congr {t t' : LabelTable} (horigin : t'.origin = t.origin)
    (hoffset : ∀ name, t'.offset? name = t.offset? name) (site : Nat) (enc : Encoded) :
    enc.value t' site = enc.value t site := by
  cases enc with
  | cell v => rfl
  | label name rule =>
    simp only [Encoded.value, LabelTable.operand, hoffset, horigin]

/-- Only the offsets and the origin of a table count for the values of cells. -/
theorem valuesFrom_congr {t t' : LabelTable} (horigin : t'.origin = t.origin)
    (hoffset : ∀ name, t'.offset? name = t.offset? name) :
    (encs : List Encoded) → ∀ site, valuesFrom t' site encs = valuesFrom t site encs
  | [], _ => rfl
  | enc :: rest, site => by
    unfold valuesFrom
    rw [Encoded.value_congr horigin hoffset, valuesFrom_congr horigin hoffset rest]

/-- There is one value for each cell. -/
@[simp] theorem length_valuesFrom (t : LabelTable) :
    (encs : List Encoded) → ∀ site, (valuesFrom t site encs).length = encs.length
  | [], _ => rfl
  | _ :: rest, site => congrArg (· + 1) (length_valuesFrom t rest (site + 1))

/-- The value of a cell is that of its place. -/
theorem getElem?_valuesFrom (t : LabelTable) :
    (encs : List Encoded) → ∀ site k,
      (valuesFrom t site encs)[k]? = encs[k]?.map (Encoded.value t (site + k))
  | [], _, _ => rfl
  | enc :: rest, site, 0 => rfl
  | enc :: rest, site, k + 1 => by
    simp only [valuesFrom, List.getElem?_cons_succ]
    rw [getElem?_valuesFrom t rest (site + 1) k]
    congr 2
    omega

/-- The cells that name a label in two streams one after the other. -/
theorem sitesOf_append (name : String) :
    (a b : List Encoded) → ∀ pos,
      sitesOf name pos (a ++ b) = sitesOf name pos a ++ sitesOf name (pos + a.length) b
  | [], b, pos => rfl
  | .cell v :: rest, b, pos => by
    simp only [List.cons_append, sitesOf, List.length_cons]
    rw [sitesOf_append name rest b, Nat.add_right_comm, Nat.add_assoc]
  | .label n rule :: rest, b, pos => by
    simp only [List.cons_append, sitesOf, List.length_cons]
    rw [sitesOf_append name rest b, Nat.add_right_comm, Nat.add_assoc]
    split <;> rfl

/-- The cells that name a label are found in the stream. -/
theorem getElem?_of_mem_sitesOf {name : String} {site : Site} :
    (encs : List Encoded) → ∀ {pos}, site ∈ sitesOf name pos encs →
      ∃ k, site.offset = pos + k ∧ encs[k]? = some (.label name site.rule)
  | [], _, h => absurd h List.not_mem_nil
  | .cell v :: rest, pos, h => by
    obtain ⟨k, hk, hget⟩ := getElem?_of_mem_sitesOf rest h
    exact ⟨k + 1, by omega, hget⟩
  | .label n rule :: rest, pos, h => by
    simp only [sitesOf] at h
    by_cases hn : n = name
    · rw [if_pos hn] at h
      rcases List.mem_cons.1 h with rfl | hmem
      · exact ⟨0, rfl, by rw [hn]; rfl⟩
      · obtain ⟨k, hk, hget⟩ := getElem?_of_mem_sitesOf rest hmem
        exact ⟨k + 1, by omega, hget⟩
    · rw [if_neg hn] at h
      obtain ⟨k, hk, hget⟩ := getElem?_of_mem_sitesOf rest h
      exact ⟨k + 1, by omega, hget⟩

/-- Every cell of the stream that names a label is among them. -/
theorem mem_sitesOf {name : String} {rule : PatchRule} :
    (encs : List Encoded) → ∀ {pos k}, encs[k]? = some (.label name rule) →
      (⟨pos + k, rule⟩ : Site) ∈ sitesOf name pos encs
  | [], _, _, h => by cases h
  | enc :: rest, pos, 0, h => by
    cases h
    simp [sitesOf]
  | enc :: rest, pos, k + 1, h => by
    have ih : (⟨pos + (k + 1), rule⟩ : Site) ∈ sitesOf name (pos + 1) rest := by
      rw [← Nat.add_assoc, Nat.add_right_comm]
      exact mem_sitesOf rest h
    cases enc with
    | cell v => exact ih
    | label n r =>
      simp only [sitesOf]
      split
      · exact List.mem_cons_of_mem _ ih
      · exact ih

namespace LabelTable

/-- Uses define nothing. -/
theorem offset?_referenceAll : (encs : List Encoded) → ∀ (t : LabelTable) (site : Nat)
    (name : String), (t.referenceAll site encs).offset? name = t.offset? name
  | [], _, _, _ => rfl
  | .cell v :: rest, t, site, name => offset?_referenceAll rest t (site + 1) name
  | .label n rule :: rest, t, site, name => by
    unfold referenceAll
    rw [offset?_referenceAll rest, offset?_reference]

/-- Uses leave the origin alone. -/
theorem origin_referenceAll : (encs : List Encoded) → ∀ (t : LabelTable) (site : Nat),
    (t.referenceAll site encs).origin = t.origin
  | [], _, _ => rfl
  | .cell v :: rest, t, site => origin_referenceAll rest t (site + 1)
  | .label n rule :: rest, t, site => by
    unfold referenceAll
    rw [origin_referenceAll rest, origin_reference]

/-- Uses keep the names distinct. -/
theorem Distinct.referenceAll : (encs : List Encoded) → ∀ {t : LabelTable} (site : Nat),
    t.Distinct → (t.referenceAll site encs).Distinct
  | [], _, _, h => h
  | .cell _ :: rest, _, site, h => Distinct.referenceAll rest (site + 1) h
  | .label n rule :: rest, _, site, h =>
    Distinct.referenceAll rest (site + 1) (h.reference n site rule)

/-- The uses of an open label queue their cells in order. -/
theorem pending_referenceAll : (encs : List Encoded) → ∀ (t : LabelTable) (site : Nat)
    (name : String), t.offset? name = none →
    (t.referenceAll site encs).pending name = t.pending name ++ sitesOf name site encs
  | [], _, _, _, _ => by simp [referenceAll, sitesOf]
  | .cell v :: rest, t, site, name, h => pending_referenceAll rest t (site + 1) name h
  | .label n rule :: rest, t, site, name, h => by
    unfold referenceAll
    rw [pending_referenceAll rest _ _ _ (by rw [offset?_reference, h]), pending_reference]
    simp only [sitesOf]
    by_cases hn : n = name
    · rw [if_pos ⟨hn.symm, hn ▸ h⟩, if_pos hn, List.append_assoc]
      rfl
    · rw [if_neg fun hc => hn hc.1.symm, if_neg hn]

end LabelTable

/-! ### Runs of cells -/

/-- Consecutive cells of a region were set, and every other cell was left alone. -/
structure Region.StoredAll {ρ : Type} [Region ρ] [Surrounded ρ] (r : ρ) (offset : Nat)
    (vs : List Cell) (r' : ρ) : Prop extends Region.Kept r r' where
  inside : ∀ k v, vs[k]? = some v → Region.load r' (offset + k : Nat) = .ok v
  outside : ∀ i : Nat, i < Region.capacity r → (i < offset ∨ offset + vs.length ≤ i) →
    Region.load r' i = Region.load r i

namespace Region.StoredAll

variable {ρ : Type} [Region ρ] [Surrounded ρ]

/-- Setting no cell. -/
theorem nil (r : ρ) (offset : Nat) : Region.StoredAll r offset [] r where
  toKept := .refl r
  inside k v h := by cases h
  outside _ _ _ := rfl

/-- Setting a cell and then those after it. -/
theorem cons {r r₁ r' : ρ} {offset : Nat} {v : Cell} {vs : List Cell}
    (h₁ : Region.Stored r offset v r₁) (h₂ : Region.StoredAll r₁ (offset + 1) vs r')
    (hroom : offset + 1 + vs.length ≤ Region.capacity r) :
    Region.StoredAll r offset (v :: vs) r' where
  toKept := h₁.toKept.trans h₂.toKept
  inside k w hk := by
    cases k with
    | zero =>
      cases hk
      have hcap : offset < Region.capacity r₁ := by
        rw [h₁.capacity]
        omega
      rw [Nat.add_zero, h₂.outside offset hcap (.inl (by omega)), h₁.load offset (by omega),
        if_pos rfl]
    | succ k =>
      rw [← h₂.inside k w hk]
      congr 2
      omega
  outside i hi hout := by
    rw [List.length_cons] at hout
    rw [h₂.outside i (h₁.capacity ▸ hi) (by omega), h₁.load i hi, if_neg (by omega)]

end Region.StoredAll

/-- The cells at some sites were set, each to the value of its site, and every other cell was left
alone. -/
structure Region.Patched {ρ : Type} [Region ρ] [Surrounded ρ] (r : ρ) (sites : List Site)
    (v : Site → Cell) (r' : ρ) : Prop extends Region.Kept r r' where
  at_site : ∀ s ∈ sites, (∀ s' ∈ sites, s'.offset = s.offset → s' = s) →
    Region.load r' s.offset = .ok (v s)
  elsewhere : ∀ i : Nat, i < Region.capacity r → (∀ s ∈ sites, s.offset ≠ i) →
    Region.load r' i = Region.load r i

namespace Region.Patched

variable {ρ : Type} [Region ρ] [Surrounded ρ]

/-- Patching nothing. -/
theorem nil (r : ρ) (v : Site → Cell) : Region.Patched r [] v r where
  toKept := .refl r
  at_site _ h := absurd h List.not_mem_nil
  elsewhere _ _ _ := rfl

/-- Patching one cell and then the others. -/
theorem cons {r r₁ r' : ρ} {s : Site} {sites : List Site} {v : Site → Cell}
    (h₁ : Region.Stored r s.offset (v s) r₁) (h₂ : Region.Patched r₁ sites v r')
    (hs : s.offset < Region.capacity r) : Region.Patched r (s :: sites) v r' where
  toKept := h₁.toKept.trans h₂.toKept
  at_site t ht honly := by
    have honly' : ∀ s' ∈ sites, s'.offset = t.offset → s' = t :=
      fun s' hs' => honly s' (List.mem_cons_of_mem _ hs')
    by_cases hmem : t ∈ sites
    · exact h₂.at_site t hmem honly'
    · rcases List.mem_cons.1 ht with rfl | ht
      · have hfree : ∀ s' ∈ sites, s'.offset ≠ t.offset :=
          fun s' hs' heq => hmem (honly' s' hs' heq ▸ hs')
        rw [h₂.elsewhere t.offset (h₁.capacity ▸ hs) hfree, h₁.load t.offset hs, if_pos rfl]
      · exact absurd ht hmem
  elsewhere i hi hfree := by
    have hne : i ≠ s.offset := (hfree s List.mem_cons_self).symm
    rw [h₂.elsewhere i (h₁.capacity ▸ hi) fun s' hs' => hfree s' (List.mem_cons_of_mem _ hs'),
      h₁.load i hi, if_neg hne]

end Region.Patched

/-! ### Writing through an emission -/

namespace Emission

variable {ρ : Type} [Region ρ] [LawfulRegion ρ]

/-- A cell that was written through an emission was written to its region. -/
theorem store_ok {e e' : Emission ρ} {offset : Nat} {v : Cell}
    (h : store offset v e = .ok () e') (hw : LawfulRegion.Writable e.region)
    (ho : offset < Region.capacity e.region) :
    e'.context = e.context ∧ LawfulRegion.Writable e'.region ∧
      Region.Stored e.region offset v e'.region := by
  unfold store onRegion at h
  split at h
  · next region hregion =>
    cases h
    exact ⟨rfl, LawfulRegion.store_ok hw ho hregion⟩
  · cases h

/-- A write inside the region is not refused. -/
theorem store_error {e e' : Emission ρ} {offset : Nat} {v : Cell} {failure : Failure}
    (h : store offset v e = .error failure e') (hw : LawfulRegion.Writable e.region)
    (ho : offset < Region.capacity e.region) : failure.crashed := by
  unfold store onRegion at h
  split at h
  · cases h
  · next cause region hregion =>
    cases h
    show cause.crashed = true
    exact LawfulRegion.store_error hw ho hregion

omit [Region ρ] [LawfulRegion ρ] in
/-- A use is noted in the label table, which says what to write. -/
theorem reference_ok {e e' : Emission ρ} {name : String} {site : Nat} {rule : PatchRule} {v : Cell}
    (h : reference name site rule e = .ok v e') :
    v = (e.context.labels.reference name site rule).1 ∧
      e' = { e with context :=
        { e.context with labels := (e.context.labels.reference name site rule).2 } } := by
  unfold reference at h
  exact ⟨(EStateM.Result.ok.inj h).1.symm, (EStateM.Result.ok.inj h).2.symm⟩

/-- Operands are written one after the other; those that name an open label are queued. -/
theorem writeOperands_ok : (encs : List Encoded) → ∀ {e e' : Emission ρ} {offset : Nat},
    writeOperands offset encs e = .ok () e' → LawfulRegion.Writable e.region →
    offset + encs.length ≤ Region.capacity e.region →
    e'.context = { e.context with labels := e.context.labels.referenceAll offset encs } ∧
      LawfulRegion.Writable e'.region ∧
      Region.StoredAll e.region offset (valuesFrom e.context.labels offset encs) e'.region
  | [], e, _, offset, h, hw, _ => by
    cases h
    exact ⟨rfl, hw, .nil e.region offset⟩
  | .cell v :: rest, e, e', offset, h, hw, hroom => by
    rw [List.length_cons] at hroom
    obtain ⟨⟨⟩, e₁, hstore, h⟩ := Action.ok_of_bind h
    obtain ⟨hc₁, hw₁, hs₁⟩ := store_ok hstore hw (by omega)
    obtain ⟨hc', hw', hs'⟩ := writeOperands_ok rest h hw₁ (by rw [hs₁.capacity]; omega)
    rw [hc₁] at hc' hs'
    exact ⟨hc', hw', .cons hs₁ hs' (by simp; omega)⟩
  | .label name rule :: rest, e, e', offset, h, hw, hroom => by
    rw [List.length_cons] at hroom
    obtain ⟨v, e₁, href, h⟩ := Action.ok_of_bind h
    obtain ⟨rfl, rfl⟩ := reference_ok href
    obtain ⟨⟨⟩, e₂, hstore, h⟩ := Action.ok_of_bind h
    have ho : offset < Region.capacity e.region := by omega
    obtain ⟨hc₂, hw₂, hs₂⟩ := store_ok hstore hw ho
    have hcap : Region.capacity e₂.region = Region.capacity e.region := hs₂.capacity
    obtain ⟨hc', hw', hs'⟩ := writeOperands_ok rest h hw₂ (by rw [hcap]; omega)
    rw [hc₂] at hc' hs'
    refine ⟨hc', hw', ?_⟩
    -- a use changes no value, so the cells after it may be seen through the table before it
    rw [valuesFrom_congr (LabelTable.origin_reference ..)
      (LabelTable.offset?_reference _ name offset rule)] at hs'
    have hv : Encoded.value e.context.labels offset (.label name rule) =
        (e.context.labels.reference name offset rule).1 :=
      (LabelTable.reference_fst ..).symm
    unfold valuesFrom
    rw [hv]
    exact .cons hs₂ hs' (by simp; omega)

/-- Operands inside the region are not refused. -/
theorem writeOperands_error : (encs : List Encoded) → ∀ {e e' : Emission ρ} {offset : Nat}
    {failure : Failure}, writeOperands offset encs e = .error failure e' →
    LawfulRegion.Writable e.region → offset + encs.length ≤ Region.capacity e.region →
    failure.crashed
  | [], _, _, _, _, h, _, _ => by cases h
  | .cell v :: rest, e, e', offset, failure, h, hw, hroom => by
    rw [List.length_cons] at hroom
    rcases Action.error_of_bind h with hstore | ⟨⟨⟩, e₁, hstore, h⟩
    · exact store_error hstore hw (by omega)
    · obtain ⟨_, hw₁, hs₁⟩ := store_ok hstore hw (by omega)
      exact writeOperands_error rest h hw₁ (by rw [hs₁.capacity]; omega)
  | .label name rule :: rest, e, e', offset, failure, h, hw, hroom => by
    rw [List.length_cons] at hroom
    rcases Action.error_of_bind h with href | ⟨v, e₁, href, h⟩
    · cases href
    · obtain ⟨rfl, rfl⟩ := reference_ok href
      have ho : offset < Region.capacity e.region := by omega
      rcases Action.error_of_bind h with hstore | ⟨⟨⟩, e₂, hstore, h⟩
      · exact store_error hstore hw ho
      · obtain ⟨_, hw₂, hs₂⟩ := store_ok hstore hw ho
        have hcap : Region.capacity e₂.region = Region.capacity e.region := hs₂.capacity
        exact writeOperands_error rest h hw₂ (by rw [hcap]; omega)

/-! ### Instructions -/

/-- What comes after the checks of an instruction: its cells are written and the cursor moves. -/
def writeInstruction (op : Op) (encs : List Encoded) : Action (Emission ρ) Unit := fun e =>
  (do
    store e.context.cursor op.cell
    writeOperands (e.context.cursor + 1) encs
    modifyContext fun c => { c with cursor := c.cursor + op.width, emitted := c.emitted + 1 }) e

omit [LawfulRegion ρ] in
/-- An instruction is checked first and written then. -/
theorem emitOp_eq (symbols? : Option SymbolTable) (op : Op) (operands : List Operand)
    (e : Emission ρ) :
    emitOp symbols? op operands e =
      if e.context.status = .open then
        match Resolver.resolveAll ⟨e.context.mode, symbols?⟩ op operands with
        | .error failure => .error failure e
        | .ok encs =>
          if e.context.capacity < e.context.cursor + op.width then
            .error (.overflow op e.context.cursor e.context.capacity) e
          else writeInstruction op encs e
      else .error (.notOpen e.context.status) e := by
  unfold emitOp
  by_cases hopen : e.context.status = .open
  · have hcheck : checkOpen e = .ok () e := if_pos hopen
    have hget : getContext e = .ok e.context e := rfl
    rw [if_pos hopen, Action.bind_of_ok hcheck, Action.bind_of_ok hget]
    rcases Resolver.resolveAll ⟨e.context.mode, symbols?⟩ op operands with failure | encs
    · exact Action.bind_of_error rfl
    · rw [Action.bind_of_ok (Action.ofExcept_ok encs e)]
      by_cases hroom : e.context.capacity < e.context.cursor + op.width
      · rw [if_pos hroom]
        simp only [if_pos hroom]
        exact Action.bind_of_error rfl
      · rw [if_neg hroom]
        simp only [if_neg hroom]
        rfl
  · have hcheck : checkOpen e = .error (.notOpen e.context.status) e := if_neg hopen
    rw [if_neg hopen]
    exact Action.bind_of_error hcheck

/-- The effect of writing an instruction whose operands are resolved. -/
structure WroteInstruction (op : Op) (encs : List Encoded) (e e' : Emission ρ) : Prop where
  context : e'.context =
    { e.context with
      cursor := e.context.cursor + op.width
      emitted := e.context.emitted + 1
      labels := e.context.labels.referenceAll (e.context.cursor + 1) encs }
  writable : LawfulRegion.Writable e'.region
  stored : Region.StoredAll e.region e.context.cursor
    (valuesFrom e.context.labels e.context.cursor (.cell op.cell :: encs)) e'.region

/-- Writing an instruction that fits sets its cells and moves the cursor behind them. -/
theorem writeInstruction_ok {op : Op} {encs : List Encoded} {e e' : Emission ρ}
    (h : writeInstruction op encs e = .ok () e') (hw : LawfulRegion.Writable e.region)
    (hroom : e.context.cursor + 1 + encs.length ≤ Region.capacity e.region) :
    WroteInstruction op encs e e' := by
  unfold writeInstruction at h
  obtain ⟨⟨⟩, e₁, hstore, h⟩ := Action.ok_of_bind h
  obtain ⟨hc₁, hw₁, hs₁⟩ := store_ok hstore hw (by omega)
  obtain ⟨⟨⟩, e₂, hwrite, h⟩ := Action.ok_of_bind h
  obtain ⟨hc₂, hw₂, hs₂⟩ := writeOperands_ok encs hwrite hw₁ (by rw [hs₁.capacity]; omega)
  cases h
  rw [hc₁] at hc₂ hs₂
  refine ⟨?_, hw₂, .cons hs₁ hs₂ (by simpa using hroom)⟩
  show { e₂.context with
    cursor := e₂.context.cursor + op.width, emitted := e₂.context.emitted + 1 } = _
  rw [hc₂]

/-- Writing an instruction that fits is not refused. -/
theorem writeInstruction_error {op : Op} {encs : List Encoded} {e e' : Emission ρ}
    {failure : Failure} (h : writeInstruction op encs e = .error failure e')
    (hw : LawfulRegion.Writable e.region)
    (hroom : e.context.cursor + 1 + encs.length ≤ Region.capacity e.region) :
    failure.crashed := by
  unfold writeInstruction at h
  rcases Action.error_of_bind h with hstore | ⟨⟨⟩, e₁, hstore, h⟩
  · exact store_error hstore hw (by omega)
  · obtain ⟨_, hw₁, hs₁⟩ := store_ok hstore hw (by omega)
    rcases Action.error_of_bind h with hwrite | ⟨⟨⟩, e₂, _, h⟩
    · exact writeOperands_error encs hwrite hw₁ (by rw [hs₁.capacity]; omega)
    · cases h

/-- **An instruction that was emitted** had room, and its resolved operands were written. -/
theorem emitOp_ok {symbols? : Option SymbolTable} {op : Op} {operands : List Operand}
    {e e' : Emission ρ} (h : emitOp symbols? op operands e = .ok () e')
    (hw : LawfulRegion.Writable e.region)
    (hcap : e.context.capacity = Region.capacity e.region) :
    ∃ encs, Resolver.resolveAll ⟨e.context.mode, symbols?⟩ op operands = .ok encs ∧
      e.context.cursor + op.width ≤ e.context.capacity ∧ WroteInstruction op encs e e' := by
  rw [emitOp_eq] at h
  split at h
  · rcases hres : Resolver.resolveAll ⟨e.context.mode, symbols?⟩ op operands with failure | encs
    · rw [hres] at h
      cases h
    · rw [hres] at h
      by_cases hroom : e.context.capacity < e.context.cursor + op.width
      · simp only [if_pos hroom] at h
        cases h
      · simp only [if_neg hroom] at h
        refine ⟨encs, rfl, by omega, writeInstruction_ok h hw ?_⟩
        have hlen := Resolver.length_of_resolveAll hres
        unfold Op.width at hroom
        omega
  · cases h

/-- **An instruction that was refused** left everything as it was. -/
theorem emitOp_error {symbols? : Option SymbolTable} {op : Op} {operands : List Operand}
    {e e' : Emission ρ} {failure : Failure}
    (h : emitOp symbols? op operands e = .error failure e')
    (hw : LawfulRegion.Writable e.region)
    (hcap : e.context.capacity = Region.capacity e.region) :
    failure.crashed ∨ e' = e := by
  rw [emitOp_eq] at h
  split at h
  · rcases hres : Resolver.resolveAll ⟨e.context.mode, symbols?⟩ op operands with cause | encs
    · rw [hres] at h
      cases h
      exact .inr rfl
    · rw [hres] at h
      by_cases hroom : e.context.capacity < e.context.cursor + op.width
      · simp only [if_pos hroom] at h
        cases h
        exact .inr rfl
      · simp only [if_neg hroom] at h
        refine .inl (writeInstruction_error h hw ?_)
        have hlen := Resolver.length_of_resolveAll hres
        unfold Op.width at hroom
        omega
  · cases h
    exact .inr rfl

omit [LawfulRegion ρ] in
/-- The instruction of a mnemonic is chosen first and emitted then. -/
theorem emit_eq (symbols? : Option SymbolTable) (mnemonic : String) (operands : List Operand)
    (e : Emission ρ) :
    emit symbols? mnemonic operands e =
      if e.context.status = .open then
        match Resolver.chooseOp ⟨e.context.mode, symbols?⟩ mnemonic operands with
        | .error failure => .error failure e
        | .ok op => emitOp symbols? op operands e
      else .error (.notOpen e.context.status) e := by
  unfold emit
  by_cases hopen : e.context.status = .open
  · have hcheck : checkOpen e = .ok () e := if_pos hopen
    have hget : getContext e = .ok e.context e := rfl
    rw [if_pos hopen, Action.bind_of_ok hcheck, Action.bind_of_ok hget]
    rcases Resolver.chooseOp ⟨e.context.mode, symbols?⟩ mnemonic operands with failure | op
    · exact Action.bind_of_error rfl
    · exact Action.bind_of_ok rfl
  · have hcheck : checkOpen e = .error (.notOpen e.context.status) e := if_neg hopen
    rw [if_neg hopen]
    exact Action.bind_of_error hcheck

/-! ### Labels -/

/-- The cells that waited for a label are written one after the other. -/
theorem writeSites_ok {labels : LabelTable} {target : Nat} :
    (sites : List Site) → ∀ {e e' : Emission ρ}, writeSites labels target sites e = .ok () e' →
      LawfulRegion.Writable e.region → (∀ s ∈ sites, s.offset < Region.capacity e.region) →
      e'.context = e.context ∧ LawfulRegion.Writable e'.region ∧
        Region.Patched e.region sites (fun s => labels.operand s.rule target s.offset) e'.region
  | [], e, _, h, hw, _ => by
    cases h
    exact ⟨rfl, hw, .nil e.region _⟩
  | s :: rest, e, e', h, hw, hin => by
    obtain ⟨⟨⟩, e₁, hstore, h⟩ := Action.ok_of_bind h
    have hs := hin s List.mem_cons_self
    obtain ⟨hc₁, hw₁, hs₁⟩ := store_ok hstore hw hs
    obtain ⟨hc', hw', hp'⟩ := writeSites_ok rest h hw₁ fun s' hs' => by
      rw [hs₁.capacity]
      exact hin s' (List.mem_cons_of_mem _ hs')
    exact ⟨hc'.trans hc₁, hw', .cons hs₁ hp' hs⟩

/-- Cells inside the region that waited for a label are not refused. -/
theorem writeSites_error {labels : LabelTable} {target : Nat} :
    (sites : List Site) → ∀ {e e' : Emission ρ} {failure : Failure},
      writeSites labels target sites e = .error failure e' → LawfulRegion.Writable e.region →
      (∀ s ∈ sites, s.offset < Region.capacity e.region) → failure.crashed
  | [], _, _, _, h, _, _ => by cases h
  | s :: rest, e, e', failure, h, hw, hin => by
    have hs := hin s List.mem_cons_self
    rcases Action.error_of_bind h with hstore | ⟨⟨⟩, e₁, hstore, h⟩
    · exact store_error hstore hw hs
    · obtain ⟨_, hw₁, hs₁⟩ := store_ok hstore hw hs
      refine writeSites_error rest h hw₁ fun s' hs' => ?_
      rw [hs₁.capacity]
      exact hin s' (List.mem_cons_of_mem _ hs')

/-- What comes after the checks of a definition: the label is placed at the cursor and the cells
that waited for it are written. -/
def placeLabel (name : String) : Action (Emission ρ) Unit := fun e =>
  (do
    modifyContext fun c => { c with labels := c.labels.define name c.cursor }
    writeSites e.context.labels e.context.cursor (e.context.labels.pending name)
    modifyContext fun c => { c with labels := c.labels.settle name }) e

omit [LawfulRegion ρ] in
/-- A definition is checked first and carried out then. -/
theorem defineLabel_eq (name : String) (e : Emission ρ) :
    defineLabel name e =
      if e.context.status = .open then
        if Text.isName name then
          match e.context.labels.offset? name with
          | some offset => .error (.duplicateLabel name offset) e
          | none => placeLabel name e
        else .error (.labelName name) e
      else .error (.notOpen e.context.status) e := by
  unfold defineLabel
  by_cases hopen : e.context.status = .open
  · have hcheck : checkOpen e = .ok () e := if_pos hopen
    have hget : getContext e = .ok e.context e := rfl
    rw [if_pos hopen, Action.bind_of_ok hcheck]
    rcases hname : Text.isName name with _ | _
    · exact Action.bind_of_error rfl
    · refine (Action.bind_of_ok hget).trans ?_
      rcases hoff : e.context.labels.offset? name with _ | offset <;> rfl
  · have hcheck : checkOpen e = .error (.notOpen e.context.status) e := if_neg hopen
    rw [if_neg hopen]
    exact Action.bind_of_error hcheck

/-- The effect of placing a label. -/
structure PlacedLabel (name : String) (e e' : Emission ρ) : Prop where
  context : e'.context =
    { e.context with
      labels := (e.context.labels.define name e.context.cursor).settle name }
  writable : LawfulRegion.Writable e'.region
  patched : Region.Patched e.region (e.context.labels.pending name)
    (fun s => e.context.labels.operand s.rule e.context.cursor s.offset) e'.region

/-- **A label that was defined** was new; it stands at the cursor, and the cells that waited for it
were written. -/
theorem defineLabel_ok {name : String} {e e' : Emission ρ} (h : defineLabel name e = .ok () e')
    (hw : LawfulRegion.Writable e.region)
    (hin : e.context.labels.offset? name = none →
      ∀ s ∈ e.context.labels.pending name, s.offset < Region.capacity e.region) :
    e.context.labels.offset? name = none ∧ PlacedLabel name e e' := by
  rw [defineLabel_eq] at h
  split at h
  · split at h
    · rcases hoff : e.context.labels.offset? name with _ | offset
      · rw [hoff] at h
        refine ⟨rfl, ?_⟩
        change placeLabel name e = .ok () e' at h
        unfold placeLabel at h
        obtain ⟨⟨⟩, e₁, hdefine, h⟩ := Action.ok_of_bind h
        cases hdefine
        obtain ⟨⟨⟩, e₂, hsites, h⟩ := Action.ok_of_bind h
        obtain ⟨hc₂, hw₂, hp₂⟩ := writeSites_ok _ hsites hw (hin hoff)
        cases h
        refine ⟨?_, hw₂, hp₂⟩
        show { e₂.context with labels := e₂.context.labels.settle name } = _
        rw [hc₂]
      · rw [hoff] at h
        cases h
    · cases h
  · cases h

/-- **A definition that was refused** left everything as it was. -/
theorem defineLabel_error {name : String} {e e' : Emission ρ} {failure : Failure}
    (h : defineLabel name e = .error failure e') (hw : LawfulRegion.Writable e.region)
    (hin : e.context.labels.offset? name = none →
      ∀ s ∈ e.context.labels.pending name, s.offset < Region.capacity e.region) :
    failure.crashed ∨ e' = e := by
  rw [defineLabel_eq] at h
  split at h
  · split at h
    · rcases hoff : e.context.labels.offset? name with _ | offset
      · rw [hoff] at h
        change placeLabel name e = .error failure e' at h
        unfold placeLabel at h
        rcases Action.error_of_bind h with hdefine | ⟨⟨⟩, e₁, hdefine, h⟩
        · cases hdefine
        · cases hdefine
          rcases Action.error_of_bind h with hsites | ⟨⟨⟩, e₂, _, h⟩
          · exact .inl (writeSites_error _ hsites hw (hin hoff))
          · cases h
      · rw [hoff] at h
        cases h
        exact .inr rfl
    · cases h
      exact .inr rfl
  · cases h
    exact .inr rfl

/-! ### Closing -/

omit [LawfulRegion ρ] in
/-- An emission is finalized if it is open, no label is missing and its region can be sealed. -/
theorem finalize_eq (e : Emission ρ) :
    finalize e =
      if e.context.status = .open then
        if e.context.labels.unresolved = [] then
          match Region.sealUp (e.context.cursor : Int) e.region with
          | .ok () region =>
            .ok {
              base := Region.base region
              length := e.context.cursor
              mode := e.context.mode
              labels := e.context.labels.resolved }
              ⟨{ e.context with status := .finalized }, region⟩
          | .error cause region => .error (.sealRefused cause) { e with region }
        else .error (.unresolvedLabels e.context.labels.unresolved) e
      else .error (.notOpen e.context.status) e := by
  unfold finalize
  by_cases hopen : e.context.status = .open
  · have hcheck : checkOpen e = .ok () e := if_pos hopen
    have hget : getContext e = .ok e.context e := rfl
    rw [if_pos hopen, Action.bind_of_ok hcheck, Action.bind_of_ok hget]
    by_cases hresolved : e.context.labels.unresolved = []
    · rw [if_pos hresolved]
      simp only [hresolved, List.isEmpty_nil, Bool.not_true, Bool.false_eq_true, if_false]
      rcases hseal : Region.sealUp (e.context.cursor : Int) e.region with ⟨⟨⟩, r⟩ | ⟨cause, r⟩
      · have hon : onRegion .sealRefused (Region.sealUp (e.context.cursor : Int)) e =
            .ok () { e with region := r } := by
          unfold onRegion
          rw [hseal]
        exact Action.bind_of_ok hon
      · have hon : onRegion .sealRefused (Region.sealUp (e.context.cursor : Int)) e =
            .error (.sealRefused cause) { e with region := r } := by
          unfold onRegion
          rw [hseal]
        exact Action.bind_of_error hon
    · rw [if_neg hresolved]
      have hmissing : e.context.labels.unresolved.isEmpty = false := by simpa using hresolved
      simp only [hmissing, Bool.not_false, if_true]
      exact Action.bind_of_error rfl
  · have hcheck : checkOpen e = .error (.notOpen e.context.status) e := if_neg hopen
    rw [if_neg hopen]
    exact Action.bind_of_error hcheck

omit [LawfulRegion ρ] in
/-- **An emission that was finalized** misses no label, and its region is sealed. -/
theorem finalize_ok {e e' : Emission ρ} {routine : Routine}
    (h : finalize e = .ok routine e') :
    e.context.labels.unresolved = [] ∧
      Region.sealUp (e.context.cursor : Int) e.region = .ok () e'.region ∧
      e'.context = { e.context with status := .finalized } ∧
      routine = {
        base := Region.base e'.region
        length := e.context.cursor
        mode := e.context.mode
        labels := e.context.labels.resolved } := by
  rw [finalize_eq] at h
  split at h
  · split at h
    · next hresolved =>
      split at h
      · next hseal =>
        cases h
        exact ⟨hresolved, hseal, rfl, rfl⟩
      · cases h
    · cases h
  · cases h

end Emission

end CellMachine
