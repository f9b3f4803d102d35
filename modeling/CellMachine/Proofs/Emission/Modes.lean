import CellMachine.Proofs.Emission.Ready
import CellMachine.Proofs.Emission.Upkeep
import CellMachine.Proofs.Lockstep
import CellMachine.Proofs.Operand.Modes

/-!
# Static and dynamic emissions agree

An assembler emits statically, into buffers of its own; a patcher emits dynamically, into memory
that is leased to it. Both are trusted to make the same code of the same calls. Here a static and a
dynamic emission are followed side by side: they write into regions of different kinds, look names
up in different tables, and each of them may refuse any call.

* `EmissionCall.Alike` — two calls ask for the same, with symbols that agree about every place; no
  mnemonic is generic and no operand asks for contents.
* `Emission.Abreast` — two emissions in the middle of a call: the contexts differ in the mode alone,
  and some first cells of the regions were written alike.
* `Emission.Agree` — what can be seen of two emissions is the same.
* `EmissionCall.modes_agree` — **after any calls that are alike, whichever of them were refused, two
  emissions agree**; the next call succeeds in both, or fails in both with the same kinds, and then
  they agree again.
-/

namespace CellMachine

open CellMachine.Action

namespace EmissionCall

variable {ρ : Type} [Region ρ]

/-- Makes the call. The routine of a finalized emission is not looked at. -/
def perform : EmissionCall → Action (Emission ρ) Unit
  | .add call => call.perform
  | .finalize => Emission.finalize >>= fun _ => pure ()
  | .discard => Emission.discard

/-- The emission after calls, those that are refused included. -/
def afterAll (calls : List EmissionCall) (e : Emission ρ) : Emission ρ :=
  calls.foldl (fun e c => c.after e) e

/-- Making a call leaves the emission after the call. -/
theorem after_perform (c : EmissionCall) (e : Emission ρ) : c.perform.after e = c.after e := by
  cases c with
  | add call => rfl
  | discard => rfl
  | finalize =>
    show (Emission.finalize >>= fun _ => pure ()).after e = Emission.finalize.after e
    rcases hrun : Emission.finalize e with ⟨routine, e₁⟩ | ⟨failure, e₁⟩
    · rw [after_of_ok hrun]
      exact after_of_ok (bind_of_ok hrun)
    · rw [after_of_error hrun]
      exact after_of_error (bind_of_error hrun)

/-- An emission is closed if it is open, no label is missing and its region can be sealed. -/
theorem perform_finalize_eq (e : Emission ρ) :
    EmissionCall.finalize.perform e =
      if e.context.status = .open then
        if e.context.labels.unresolved = [] then
          match Region.sealUp (e.context.cursor : Int) e.region with
          | .ok () region => .ok () ⟨{ e.context with status := .finalized }, region⟩
          | .error cause region => .error (.sealRefused cause) { e with region }
        else .error (.unresolvedLabels e.context.labels.unresolved) e
      else .error (.notOpen e.context.status) e := by
  have heq := Emission.finalize_eq e
  show (Emission.finalize >>= fun _ => pure ()) e = _
  by_cases hopen : e.context.status = .open
  · rw [if_pos hopen] at heq ⊢
    by_cases hresolved : e.context.labels.unresolved = []
    · rw [if_pos hresolved] at heq ⊢
      rcases hseal : Region.sealUp (e.context.cursor : Int) e.region with ⟨⟨⟩, r⟩ | ⟨cause, r⟩
      · rw [hseal] at heq
        exact bind_of_ok heq
      · rw [hseal] at heq
        exact bind_of_error heq
    · rw [if_neg hresolved] at heq ⊢
      exact bind_of_error heq
  · rw [if_neg hopen] at heq ⊢
    exact bind_of_error heq

end EmissionCall

namespace Emission

variable {ρ ρ' : Type} [Region ρ] [LawfulRegion ρ] [ReadyRegion ρ]
  [Region ρ'] [LawfulRegion ρ'] [ReadyRegion ρ']

/-- A static and a dynamic emission in the middle of a call. Both cursors are at `pos`, and the
first `written` cells of the regions were written alike; every other cell is the same in both
regions if it was so in the regions `start` and `start'`. -/
structure Abreast (start : ρ) (start' : ρ') (pos written : Nat) (e : Emission ρ)
    (e' : Emission ρ') : Prop where
  status : e.context.status = .open
  mode : e.context.mode = .static
  context : e'.context = { e.context with mode := .dynamic }
  cursor : e.context.cursor = pos
  capacity : e.context.capacity = Region.capacity start
  region : Region.capacity e.region = Region.capacity start
  region' : Region.capacity e'.region = Region.capacity start
  ready : ReadyRegion.Ready e.region
  ready' : ReadyRegion.Ready e'.region
  cells : ∀ i : Nat, i < Region.capacity start →
    i < written ∨ Region.load start i = Region.load start' i →
      Region.load e'.region i = Region.load e.region i

namespace Abreast

variable {start : ρ} {start' : ρ'} {pos written : Nat} {e : Emission ρ} {e' : Emission ρ'}
  {E : Failure → Failure → Emission ρ → Emission ρ' → Prop}

/-! ### Parts of calls -/

/-- Both write the same cell. The first cells that were written alike may become more by it. -/
theorem store (h : Abreast start start' pos written e e') {offset more : Nat}
    (ho : offset < Region.capacity start) (hmore : ∀ i < more, i < written ∨ i = offset)
    (v : Cell) :
    Matches (fun _ => Abreast start start' pos more) E
      (Emission.store offset v e) (Emission.store offset v e') := by
  have hin : offset < Region.capacity e.region := h.region.symm ▸ ho
  have hin' : offset < Region.capacity e'.region := h.region'.symm ▸ ho
  obtain ⟨r, hstore, hready⟩ := ReadyRegion.exists_store v h.ready hin
  obtain ⟨r', hstore', hready'⟩ := ReadyRegion.exists_store v h.ready' hin'
  have hset := (LawfulRegion.store_ok (ReadyRegion.writable h.ready) hin hstore).2
  have hset' := (LawfulRegion.store_ok (ReadyRegion.writable h.ready') hin' hstore').2
  unfold Emission.store onRegion
  rw [hstore, hstore']
  refine .ok { h with
    region := hset.capacity.trans h.region
    region' := hset'.capacity.trans h.region'
    ready := hready, ready' := hready', cells := ?_ }
  intro i hi hsame
  rw [hset.load i (h.region.symm ▸ hi), hset'.load i (h.region'.symm ▸ hi)]
  by_cases hio : i = offset
  · rw [if_pos hio, if_pos hio]
  · -- any other cell is as it was, and among the first cells if it is now
    rw [if_neg hio, if_neg hio]
    exact h.cells i hi (hsame.imp_left fun hlt => (hmore i hlt).resolve_right hio)

/-- Both change their contexts in the same way. -/
theorem modifyContext (h : Abreast start start' pos written e e') {f : Context → Context}
    {pos' : Nat} (hstatus : (f e.context).status = e.context.status)
    (hmode : (f e.context).mode = e.context.mode)
    (hblind : f { e.context with mode := .dynamic } = { f e.context with mode := .dynamic })
    (hcursor : (f e.context).cursor = pos')
    (hcapacity : (f e.context).capacity = e.context.capacity) :
    Matches (fun _ => Abreast start start' pos' written) E
      (Emission.modifyContext f e) (Emission.modifyContext f e') := by
  refine .ok { h with
    status := hstatus.trans h.status, mode := hmode.trans h.mode, cursor := hcursor
    capacity := hcapacity.trans h.capacity, context := ?_ }
  show f e'.context = _
  rw [h.context]
  exact hblind

/-- Both note the use of a label, and are told the same cell to write. -/
theorem reference (h : Abreast start start' pos written e e') (name : String) (site : Nat)
    (rule : PatchRule) :
    Matches (fun _ => Abreast start start' pos written) E
      (Emission.reference name site rule e) (Emission.reference name site rule e') := by
  have hlabels : e'.context.labels = e.context.labels := by rw [h.context]
  unfold Emission.reference
  rw [hlabels]
  refine .ok { h with context := ?_ }
  dsimp only
  rw [h.context]

/-- Operands that fit are written alike, and the first cells that were written alike become more. -/
theorem writeOperands : (encs : List Encoded) → ∀ {written : Nat} {e : Emission ρ}
    {e' : Emission ρ'}, Abreast start start' pos written e e' →
    written + encs.length ≤ Region.capacity start →
    Matches (fun _ => Abreast start start' pos (written + encs.length)) E
      (Emission.writeOperands written encs e) (Emission.writeOperands written encs e')
  | [], _, _, _, h, _ => .ok h
  | .cell v :: rest, written, e, e', h, hroom => by
    rw [List.length_cons] at hroom ⊢
    rw [Nat.add_comm rest.length, ← Nat.add_assoc] at hroom ⊢
    have hnext : ∀ i < written + 1, i < written ∨ i = written := by omega
    refine (h.store (by omega) hnext v).bind fun _ f f' hstored => ?_
    exact writeOperands rest hstored hroom
  | .label name rule :: rest, written, e, e', h, hroom => by
    rw [List.length_cons] at hroom ⊢
    rw [Nat.add_comm rest.length, ← Nat.add_assoc] at hroom ⊢
    have hnext : ∀ i < written + 1, i < written ∨ i = written := by omega
    refine (h.reference name written rule).bind fun v f f' hnoted => ?_
    refine (hnoted.store (by omega) hnext v).bind fun _ g g' hstored => ?_
    exact writeOperands rest hstored hroom

/-- The cells that waited for a label are written alike. -/
theorem writeSites (labels : LabelTable) (target : Nat) : (sites : List Site) →
    ∀ {e : Emission ρ} {e' : Emission ρ'}, Abreast start start' pos written e e' →
    (∀ s ∈ sites, s.offset < Region.capacity start) →
    Matches (fun _ => Abreast start start' pos written) E
      (Emission.writeSites labels target sites e) (Emission.writeSites labels target sites e')
  | [], _, _, h, _ => .ok h
  | site :: rest, e, e', h, hin => by
    refine (h.store (hin site List.mem_cons_self) (fun i hi => .inl hi) _).bind
      fun _ f f' hstored => ?_
    exact writeSites labels target rest hstored fun s hs => hin s (List.mem_cons_of_mem _ hs)

/-! ### Calls -/

/-- An instruction that fits is written alike, and both cursors move behind it. -/
theorem writeInstruction (h : Abreast start start' pos pos e e') {op : Op} {encs : List Encoded}
    (hlen : encs.length = op.slots.length) (hroom : pos + op.width ≤ Region.capacity start) :
    Matches (fun _ => Abreast start start' (pos + op.width) (pos + op.width)) E
      (Emission.writeInstruction op encs e) (Emission.writeInstruction op encs e') := by
  have hwidth : pos + op.width = pos + 1 + encs.length := by
    rw [hlen]
    unfold Op.width
    omega
  have hnext : ∀ i < pos + 1, i < pos ∨ i = pos := by omega
  have hcursor : e'.context.cursor = pos := by
    rw [h.context]
    exact h.cursor
  unfold Emission.writeInstruction
  rw [h.cursor, hcursor]
  refine (h.store (by omega) hnext _).bind fun _ f f' hstored => ?_
  refine (hstored.writeOperands encs (by omega)).bind fun _ g g' hwrote => ?_
  rw [← hwidth] at hwrote
  exact hwrote.modifyContext rfl rfl rfl (congrArg (· + op.width) hwrote.cursor) rfl

/-- A label is placed in both emissions, and the cells that waited for it are written alike. -/
theorem placeLabel (h : Abreast start start' pos pos e e') {name : String}
    (hin : ∀ s ∈ e.context.labels.pending name, s.offset < Region.capacity start) :
    Matches (fun _ => Abreast start start' pos pos) E
      (Emission.placeLabel name e) (Emission.placeLabel name e') := by
  have hlabels : e'.context.labels = e.context.labels := by rw [h.context]
  have hcursor : e'.context.cursor = e.context.cursor := by rw [h.context]
  unfold Emission.placeLabel
  rw [hlabels, hcursor]
  refine (h.modifyContext rfl rfl rfl h.cursor rfl).bind fun _ f f' hdefined => ?_
  refine (hdefined.writeSites _ _ _ hin).bind fun _ g g' hwrote => ?_
  exact hwrote.modifyContext rfl rfl rfl hwrote.cursor rfl

end Abreast

/-! ### What can be seen -/

/-- What can be seen of two emissions is the same: how far they have come, where the labels are,
which cells wait for them, and the cells of the regions, but for those that were never written and
were not the same in the regions `start` and `start'`. -/
structure Agree (start : ρ) (start' : ρ') (e : Emission ρ) (e' : Emission ρ') : Prop where
  status : e'.context.status = e.context.status
  cursor : e'.context.cursor = e.context.cursor
  offset : ∀ name, e'.context.labels.offset? name = e.context.labels.offset? name
  pending : ∀ name, e'.context.labels.pending name = e.context.labels.pending name
  cells : ∀ i : Nat, i < Region.capacity start →
    i < e.context.cursor ∨ Region.load start i = Region.load start' i →
      Region.load e'.region i = Region.load e.region i

/-- Two emissions between calls: both are at work, or both are closed. -/
inductive Paired (start : ρ) (start' : ρ') (e : Emission ρ) (e' : Emission ρ') : Prop
  | working {n : Nat} : n ≤ Region.capacity start → Abreast start start' n n e e' →
    Paired start start' e e'
  | closed : e.context.status ≠ .open → Agree start start' e e' → Paired start start' e e'

namespace Paired

variable {start : ρ} {start' : ρ'} {e : Emission ρ} {e' : Emission ρ'}

/-- Emissions between calls agree. -/
theorem agree (h : Paired start start' e e') : Agree start start' e e' := by
  cases h with
  | working _ h =>
    exact
      { status := by rw [h.context], cursor := by rw [h.context]
        offset := by simp [h.context], pending := by simp [h.context]
        cells := by
          rw [h.cursor]
          exact h.cells }
  | closed _ h => exact h

/-- A call that both refuse leaves them as they were. -/
theorem refused (h : Paired start start' e e') {f g : Failure} (hkinds : f.kinds = g.kinds) :
    InStepByKind (α := Unit) (Paired start start') (.error f e) (.error g e') :=
  .error ⟨hkinds, h⟩

/-- An instruction is written in both emissions or refused in both. -/
theorem emitOp (h : Paired start start' e e') {symbols? symbols'? : Option SymbolTable}
    (hsame : SameSymbols symbols? symbols'?) (op : Op) {operands : List Operand}
    (hplain : ∀ var, Operand.contents var ∉ operands) :
    InStepByKind (Paired start start')
      (Emission.emitOp symbols? op operands e) (Emission.emitOp symbols'? op operands e') := by
  rw [emitOp_eq, emitOp_eq]
  cases h with
  | closed hclosed hagree =>
    rw [hagree.status, if_neg hclosed, if_neg hclosed]
    exact refused (.closed hclosed hagree) rfl
  | @working n hn h =>
    have hconcur : Concur (Resolver.resolveAll ⟨.static, symbols?⟩ op operands)
        (Resolver.resolveAll ⟨.dynamic, symbols'?⟩ op operands) :=
      Resolver.resolveAll_concur hsame op hplain
    rw [h.context]
    simp only [h.status, h.mode, h.cursor, h.capacity, if_true]
    -- the mode counts in the resolver alone; from then on both do the same
    obtain ⟨encs, hres, hres'⟩ | ⟨f, g, hres, hres', hkinds⟩ := hconcur.cases
    · rw [hres, hres']
      dsimp only
      by_cases hroom : Region.capacity start < n + op.width
      · rw [if_pos hroom, if_pos hroom]
        exact refused (.working hn h) rfl
      · rw [if_neg hroom, if_neg hroom]
        have hlen := Resolver.length_of_resolveAll hres
        have hfits := Nat.not_lt.1 hroom
        exact (h.writeInstruction hlen hfits).mono (fun _ _ _ hwrote => .working hfits hwrote)
          fun _ _ _ _ hrefused => hrefused
    · rw [hres, hres']
      exact refused (.working hn h) hkinds

/-- So is the instruction of a mnemonic that is not generic. -/
theorem emit (h : Paired start start' e e') {symbols? symbols'? : Option SymbolTable}
    (hsame : SameSymbols symbols? symbols'?) {mnemonic : String}
    (hspecific : Generic.ofMnemonic? mnemonic = none) {operands : List Operand}
    (hplain : ∀ var, Operand.contents var ∉ operands) :
    InStepByKind (Paired start start') (Emission.emit symbols? mnemonic operands e)
      (Emission.emit symbols'? mnemonic operands e') := by
  rw [emit_eq, emit_eq, h.agree.status, Resolver.chooseOp_of_not_generic _ hspecific,
    Resolver.chooseOp_of_not_generic _ hspecific]
  by_cases hopen : e.context.status = .open
  · rw [if_pos hopen, if_pos hopen]
    cases Op.lookup mnemonic (shapeOf operands) with
    | error failure => exact h.refused rfl
    | ok op => exact h.emitOp hsame op hplain
  · rw [if_neg hopen, if_neg hopen]
    exact h.refused rfl

/-- A label is placed in both emissions or refused in both. -/
theorem defineLabel (h : Paired start start' e e') {name : String}
    (hin : ∀ s ∈ e.context.labels.pending name, s.offset < Region.capacity start) :
    InStepByKind (Paired start start') (Emission.defineLabel name e)
      (Emission.defineLabel name e') := by
  rw [defineLabel_eq, defineLabel_eq, h.agree.status, h.agree.offset]
  by_cases hopen : e.context.status = .open
  · rw [if_pos hopen, if_pos hopen]
    by_cases hname : Text.isName name
    · rw [if_pos hname, if_pos hname]
      cases e.context.labels.offset? name with
      | some offset => exact h.refused rfl
      | none =>
        cases h with
        | closed hclosed _ => exact absurd hopen hclosed
        | working hn h =>
          exact (h.placeLabel hin).mono (fun _ _ _ hplaced => .working hn hplaced)
            fun _ _ _ _ hrefused => hrefused
    · rw [if_neg hname, if_neg hname]
      exact h.refused rfl
  · rw [if_neg hopen, if_neg hopen]
    exact h.refused rfl

/-- Both emissions are closed, or both are refused it. -/
theorem finalize (h : Paired start start' e e') :
    InStepByKind (Paired start start') (EmissionCall.finalize.perform e)
      (EmissionCall.finalize.perform e') := by
  rw [EmissionCall.perform_finalize_eq, EmissionCall.perform_finalize_eq]
  cases h with
  | closed hclosed hagree =>
    rw [hagree.status, if_neg hclosed, if_neg hclosed]
    exact refused (.closed hclosed hagree) rfl
  | @working n hn h =>
    rw [h.context]
    simp only [h.status, h.cursor, if_true]
    by_cases hresolved : e.context.labels.unresolved = []
    · rw [if_pos hresolved, if_pos hresolved]
      obtain ⟨r, hseal⟩ := ReadyRegion.exists_sealUp h.ready (h.region.symm ▸ hn)
      obtain ⟨r', hseal'⟩ := ReadyRegion.exists_sealUp h.ready' (h.region'.symm ▸ hn)
      have hload := (LawfulRegion.sealUp_ok (ReadyRegion.writable h.ready) hseal).2
      have hload' := (LawfulRegion.sealUp_ok (ReadyRegion.writable h.ready') hseal').2
      rw [hseal, hseal']
      refine .ok (.closed nofun
        { status := rfl, cursor := rfl, offset := fun _ => rfl, pending := fun _ => rfl
          cells := ?_ })
      intro i hi hsame
      rw [hload i (h.region.symm ▸ hi), hload' i (h.region'.symm ▸ hi)]
      exact h.cells i hi (h.cursor ▸ hsame)
    · rw [if_neg hresolved, if_neg hresolved]
      exact refused (.working hn h) rfl

end Paired

end Emission

/-! ### Runs -/

namespace EmissionCall

/-- Two calls ask for the same: no mnemonic is generic, no operand asks for the contents of a
variable, and the symbols agree about the place of every variable. -/
inductive Alike : EmissionCall → EmissionCall → Prop
  | emit {symbols? symbols'? : Option SymbolTable} {mnemonic : String} {operands : List Operand} :
    SameSymbols symbols? symbols'? → Generic.ofMnemonic? mnemonic = none →
    (∀ var, Operand.contents var ∉ operands) →
    Alike (.add (.emit symbols? mnemonic operands)) (.add (.emit symbols'? mnemonic operands))
  | emitOp {symbols? symbols'? : Option SymbolTable} {op : Op} {operands : List Operand} :
    SameSymbols symbols? symbols'? → (∀ var, Operand.contents var ∉ operands) →
    Alike (.add (.emitOp symbols? op operands)) (.add (.emitOp symbols'? op operands))
  | label (name : String) : Alike (.add (.label name)) (.add (.label name))
  | finalize : Alike .finalize .finalize

variable {ρ ρ' : Type} [Region ρ] [LawfulRegion ρ] [ReadyRegion ρ]
  [Region ρ'] [LawfulRegion ρ'] [ReadyRegion ρ']
  {start : ρ} {start' : ρ'} {e : Emission ρ} {e' : Emission ρ'}

/-- **One call**: it succeeds in both emissions or fails in both, with the same kinds. -/
theorem Alike.perform {c c' : EmissionCall} (hc : Alike c c')
    (hkept : e.Keeping (Region.capacity start) fun _ => True)
    (h : Emission.Paired start start' e e') :
    InStepByKind (Emission.Paired start start') (c.perform e) (c'.perform e') := by
  cases hc with
  | emit hsame hspecific hplain => exact h.emit hsame hspecific hplain
  | emitOp hsame hplain => exact h.emitOp hsame _ hplain
  | label name => exact h.defineLabel (hkept.waiting name)
  | finalize => exact h.finalize

/-- **Many calls** leave two emissions side by side, whichever of them were refused. -/
theorem Alike.afterAll {cs cs' : List EmissionCall} (hcs : List.Forall₂ Alike cs cs') :
    ∀ {e : Emission ρ} {e' : Emission ρ'}, e.Keeping (Region.capacity start) (fun _ => True) →
      Emission.Paired start start' e e' →
      (afterAll cs e).Keeping (Region.capacity start) (fun _ => True) ∧
        Emission.Paired start start' (afterAll cs e) (afterAll cs' e') := by
  induction hcs with
  | nil => exact fun hkept h => ⟨hkept, h⟩
  | @cons c c' cs cs' hc _ ih =>
    intro e e' hkept h
    have hnext := (hc.perform hkept h).after
    rw [after_perform, after_perform] at hnext
    -- that the waiting cells stay inside the region does not depend on what is in the region
    have hupheld : Region.Upheld (Region.capacity start) fun _ : ρ => True :=
      ⟨fun _ _ _ _ _ => trivial, fun _ _ _ => trivial, fun _ _ => trivial⟩
    exact ih (c.preserves hupheld hkept) hnext

end EmissionCall

namespace Emission

variable {ρ ρ' : Type} [Region ρ] [LawfulRegion ρ] [ReadyRegion ρ]
  [Region ρ'] [LawfulRegion ρ'] [ReadyRegion ρ']

/-- A static and a dynamic emission that have just been opened stand side by side. -/
theorem Paired.start {r : ρ} {r' region' : ρ'} {c : Context} (hready : ReadyRegion.Ready r)
    (hready' : ReadyRegion.Ready r') (hcapacity : Region.capacity r' = Region.capacity r)
    (horigin : Region.origin r' = Region.origin r)
    (hopen : Context.openDynamic r' = .ok c region') :
    Paired r r' ⟨Context.openStatic r, r⟩ ⟨c, region'⟩ := by
  unfold Context.openDynamic at hopen
  split at hopen
  · next region hattest =>
    cases hopen
    obtain ⟨hbound, hshape, hload⟩ := ReadyRegion.attest_ok hready' hattest
    refine .working (Nat.zero_le _)
      { status := rfl, mode := rfl, context := ?_, cursor := rfl, capacity := rfl
        region := rfl, region' := hshape.capacity.trans hcapacity
        ready := hready, ready' := hbound, cells := ?_ }
    · unfold Context.openStatic Context.fresh
      rw [hshape.capacity, hshape.origin, hcapacity, horigin]
    · intro i hi hsame
      rw [hload i (hcapacity.symm ▸ hi)]
      exact (hsame.resolve_left (Nat.not_lt_zero i)).symm
  · cases hopen

end Emission

namespace EmissionCall

variable {ρ ρ' : Type} [Region ρ] [LawfulRegion ρ] [ReadyRegion ρ]
  [Region ρ'] [LawfulRegion ρ'] [ReadyRegion ρ']

/-- **Static and dynamic emissions agree.** A static emission on one region and a dynamic emission
on another, of the same capacity and origin, get calls that are alike. After any number of them, of
which some may have been refused, what can be seen of the emissions is the same. The next call
succeeds in both or fails in both, with the same kinds, and what can be seen is the same again. -/
theorem modes_agree {r : ρ} {r' region' : ρ'} {c : Context} (hready : ReadyRegion.Ready r)
    (hready' : ReadyRegion.Ready r') (hcapacity : Region.capacity r' = Region.capacity r)
    (horigin : Region.origin r' = Region.origin r)
    (hopen : Context.openDynamic r' = .ok c region') {calls calls' : List EmissionCall}
    (hcalls : List.Forall₂ Alike calls calls') {next next' : EmissionCall}
    (hnext : Alike next next') :
    Emission.Agree r r' (afterAll calls ⟨Context.openStatic r, r⟩)
        (afterAll calls' ⟨c, region'⟩) ∧
      InStepByKind (Emission.Agree r r')
        (next.perform (afterAll calls ⟨Context.openStatic r, r⟩))
        (next'.perform (afterAll calls' ⟨c, region'⟩)) := by
  have hkept : Emission.Keeping (Region.capacity r) (fun _ => True) ⟨Context.openStatic r, r⟩ :=
    ⟨trivial, rfl, fun _ _ hsite => nomatch hsite⟩
  have hstart := Emission.Paired.start hready hready' hcapacity horigin hopen
  obtain ⟨hkept', hpaired⟩ := Alike.afterAll hcalls hkept hstart
  refine ⟨hpaired.agree, (hnext.perform hkept' hpaired).mono ?_ ?_⟩
  · exact fun _ _ _ h => h.agree
  · exact fun _ _ _ _ h => ⟨h.1, h.2.agree⟩

/-- A buffer of eight cells. -/
def sampleBuffer : Buffer := { base := 100, cells := Array.replicate 8 0 }

/-- A leased region of eight cells. -/
def sampleHook : Leasehold where
  lease := 0
  memory :=
    { cells := Array.replicate 24 0, next := 16, limit := 20
      spans := #[{ id := 0, name := "hook", base := 4, capacity := 8, lease? := some 0 }]
      names := ⟨[("hook", 0)]⟩
      leases := #[{ span := 0 }] }

/-- A variable at the address three, whose contents may be known. -/
def sampleSymbols (contents? : Option Cell) : Option SymbolTable :=
  some (.ofList [{ name := "n", storage := .global, location := 3, contents? }])

/-- A loop that uses a label too early. Two of the calls are refused: there is no such mnemonic, and
no such variable. -/
def sampleLoop (symbols? : Option SymbolTable) : List EmissionCall :=
  [.add (.label "top"), .add (.emit symbols? "JZER" [.label "end"]),
    .add (.emit symbols? "HOP" []), .add (.emit symbols? "LOAD.P" [.location (.named "m")]),
    .add (.emit symbols? "LOAD.P" [.location (.named "n")]),
    .add (.emit symbols? "JUMP" [.label "top"]), .add (.label "end")]

/-- The loop in a buffer and in the leased region, with a variable whose contents only the static
emission knows. -/
theorem modes_agree_sample : ∃ c region',
    Context.openDynamic sampleHook = .ok c region' ∧
      ((afterAll (sampleLoop (sampleSymbols (some 5)))
        ⟨Context.openStatic sampleBuffer, sampleBuffer⟩).cells 6).toOption =
          some [130, 5, 48, 3, 128, 0] ∧
      Emission.Agree sampleBuffer sampleHook
        (afterAll (sampleLoop (sampleSymbols (some 5)))
          ⟨Context.openStatic sampleBuffer, sampleBuffer⟩)
        (afterAll (sampleLoop (sampleSymbols none)) ⟨c, region'⟩) ∧
      InStepByKind (Emission.Agree sampleBuffer sampleHook)
        (EmissionCall.finalize.perform (afterAll (sampleLoop (sampleSymbols (some 5)))
          ⟨Context.openStatic sampleBuffer, sampleBuffer⟩))
        (EmissionCall.finalize.perform
          (afterAll (sampleLoop (sampleSymbols none)) ⟨c, region'⟩)) := by
  have hparts : sampleHook.parts? = some ({ span := 0 },
      { id := 0, name := "hook", base := 4, capacity := 8, lease? := some 0 }) := by decide
  have hready : ReadyRegion.Ready sampleHook :=
    Leasehold.ready_of_encloses hparts (by decide) ⟨by decide, by decide, by decide⟩ (by decide)
  have hopen : Context.openDynamic sampleHook =
      .ok (Context.fresh .dynamic sampleHook.bindLease) sampleHook.bindLease := rfl
  have hsame : SameSymbols (sampleSymbols (some 5)) (sampleSymbols none) := by
    intro name
    by_cases hname : "n" = name <;>
      simp [sampleSymbols, SymbolTable.ofList, hname]
  have hloop : List.Forall₂ Alike (sampleLoop (sampleSymbols (some 5)))
      (sampleLoop (sampleSymbols none)) := by
    have hemit {mnemonic : String} {operands : List Operand}
        (hspecific : Generic.ofMnemonic? mnemonic = none)
        (hplain : ∀ var, Operand.contents var ∉ operands) :
        Alike (.add (.emit (sampleSymbols (some 5)) mnemonic operands))
          (.add (.emit (sampleSymbols none) mnemonic operands)) :=
      .emit hsame hspecific hplain
    refine .cons (.label _) (.cons (hemit ?_ ?_) (.cons (hemit ?_ ?_) (.cons (hemit ?_ ?_)
      (.cons (hemit ?_ ?_) (.cons (hemit ?_ ?_) (.cons (.label _) .nil))))))
    all_goals first | decide +kernel | simp
  obtain ⟨hagree, hnext⟩ := modes_agree (r := sampleBuffer) rfl hready rfl rfl hopen hloop .finalize
  exact ⟨_, _, hopen, by decide +kernel, hagree, hnext⟩

end EmissionCall

end CellMachine
