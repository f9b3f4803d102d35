import CellMachine.Proofs.Lockstep
import CellMachine.Proofs.Patch.Body

/-!
# Emissions on twin regions

An emission writes cells and never reads one. So two emissions with the same context, on regions
that answer every write in the same way, cannot be told apart by what they are asked to do: a call
succeeds in both, with the same result, or fails in both, with the same failure. What the regions
held before does not matter, and behind the cursor they come to hold the same.

* `Region.Twinned` — a relation of regions, of one kind or of two, that writes, sealing and
  poisoning keep. Its number says how many first cells are alike.
* `Emission.Twins` — the contexts are the same and the regions are twins.
* `Region.Twinned.statements` — **statements do the same on twin regions**, and behind the cursor
  the regions are alike.
* `Region.Twinned.finalize`, `Region.Twinned.discard` — so does closing the emissions.
-/

namespace CellMachine

open CellMachine.Action

variable {ρ ρ' : Type}

/-- The outcomes of two actions are in step with the same failures. After a success the states are
alike up to a cell, and after a failure in all but their cells. -/
abbrev Action.InStepTo {σ τ α : Type} (R : Nat → σ → τ → Prop) (n : Nat)
    (o : EStateM.Result Failure σ α) (o' : EStateM.Result Failure τ α) : Prop :=
  Matches (fun _ => R n) (fun f g s t => f = g ∧ R 0 s t) o o'

/-- Two actions end in step if they do so without the place to which their failures are put. -/
theorem Action.InStepTo.at {σ τ α : Type} {Q : α → σ → τ → Prop} {E : σ → τ → Prop}
    {x : Action σ α} {y : Action τ α} {s : σ} {t : τ} (pos : Position)
    (h : Matches Q (fun f g s t => f = g ∧ E s t) (x s) (y t)) :
    Matches Q (fun f g s t => f = g ∧ E s t) (Action.at pos x s) (Action.at pos y t) := by
  unfold Action.at
  generalize x s = o, y t = o' at h
  cases h with
  | ok h => exact .ok h
  | error h => exact .error ⟨congrArg (Failure.atLine pos) h.1, h.2⟩

/-- A relation of regions that is kept by all that an emission does to them. In the relation with
the number `n` the first `n` cells are alike. -/
structure Region.Twinned [Region ρ] [Region ρ'] (R : Nat → ρ → ρ' → Prop) : Prop where
  base {n : Nat} {r : ρ} {r' : ρ'} : R n r r' → Region.base r' = Region.base r
  forget {n : Nat} {r : ρ} {r' : ρ'} : R n r r' → R 0 r r'
  /-- A write makes the cell alike that is written. -/
  store {n k : Nat} {r : ρ} {r' : ρ'} (offset : Nat) (v : Cell) : R n r r' →
    (∀ i < k, i < n ∨ i = offset) →
    InStepTo R k (Region.store offset v r) (Region.store offset v r')
  sealUp {n : Nat} {r : ρ} {r' : ρ'} (length : Int) : R n r r' →
    InStepTo R n (Region.sealUp length r) (Region.sealUp length r')
  poison {n : Nat} {r : ρ} {r' : ρ'} : R n r r' →
    InStepTo R n (Region.poison r) (Region.poison r')

namespace Emission

/-- Two emissions with the same context, whose cursor is at `pos`, on regions whose first `n` cells
are alike. -/
inductive Twins (R : Nat → ρ → ρ' → Prop) (pos n : Nat) : Emission ρ → Emission ρ' → Prop
  | intro {c : Context} {r : ρ} {r' : ρ'} :
    c.cursor = pos → R n r r' → Twins R pos n ⟨c, r⟩ ⟨c, r'⟩

namespace Twins

variable {R : Nat → ρ → ρ' → Prop} {pos n : Nat} {e : Emission ρ} {e' : Emission ρ'}

/-- The context of twins. -/
theorem context (h : Twins R pos n e e') : e'.context = e.context := by
  cases h with
  | intro hpos hr => rfl

/-- The cursor of twins. -/
theorem cursor (h : Twins R pos n e e') : e.context.cursor = pos := by
  cases h with
  | intro hpos hr => exact hpos

/-- What is done to twin regions in step is done to the emissions in step. -/
theorem onRegion {α : Type} {k : Nat} {x : Action ρ α} {y : Action ρ' α} (h : Twins R pos n e e')
    (report : Failure → Failure)
    (hxy : ∀ {r : ρ} {r' : ρ'}, R n r r' → InStepTo R k (x r) (y r')) :
    InStepTo (Twins R pos) k (Emission.onRegion report x e) (Emission.onRegion report y e') := by
  cases h with
  | @intro c r r' hpos hr =>
    have hregions := hxy hr
    unfold Emission.onRegion
    dsimp only
    generalize x r = o, y r' = o' at hregions
    cases hregions with
    | ok h => exact .ok (.intro hpos h)
    | error h => exact .error ⟨congrArg report h.1, .intro hpos h.2⟩

/-- Both change their contexts in the same way. -/
theorem modifyContext (h : Twins R pos n e e') {f : Context → Context} {pos' : Nat}
    (hf : (f e.context).cursor = pos') {E : Failure → Failure → Emission ρ → Emission ρ' → Prop} :
    Matches (fun _ => Twins R pos' n) E (Emission.modifyContext f e)
      (Emission.modifyContext f e') := by
  cases h with
  | intro hpos hr => exact .ok (.intro hf hr)

/-- Both note the use of a label, and are told the same cell to write. -/
theorem reference (h : Twins R pos n e e') (name : String) (site : Nat) (rule : PatchRule) :
    InStepTo (Twins R pos) n (Emission.reference name site rule e)
      (Emission.reference name site rule e') := by
  cases h with
  | intro hpos hr => exact .ok (.intro hpos hr)

end Twins

/-- Two emissions between calls: they are twins up to the cursor. -/
def Paced (R : Nat → ρ → ρ' → Prop) (e : Emission ρ) (e' : Emission ρ') : Prop :=
  Twins R e.context.cursor e.context.cursor e e'

/-- Two emissions after a failure: they are twins but for the cells. -/
def Stopped (R : Nat → ρ → ρ' → Prop) (e : Emission ρ) (e' : Emission ρ') : Prop :=
  Twins R e.context.cursor 0 e e'

/-- The outcomes of two calls are in step, with the same failure if they are failures. -/
abbrev CallInStep {α : Type} (R : Nat → ρ → ρ' → Prop) (o : EStateM.Result Failure (Emission ρ) α)
    (o' : EStateM.Result Failure (Emission ρ') α) : Prop :=
  Matches (fun _ => Paced R) (fun f g e e' => f = g ∧ Stopped R e e') o o'

/-- Twins up to their cursor stand between calls. -/
theorem Twins.paced {R : Nat → ρ → ρ' → Prop} {n : Nat} {e : Emission ρ} {e' : Emission ρ'}
    (h : Twins R n n e e') : Paced R e e' := by
  unfold Paced
  rwa [h.cursor]

/-- Twins have stopped after a failure. -/
theorem Twins.stopped {R : Nat → ρ → ρ' → Prop} {pos : Nat} {e : Emission ρ} {e' : Emission ρ'}
    (h : Twins R pos 0 e e') : Stopped R e e' := by
  unfold Stopped
  rwa [h.cursor]

end Emission

namespace Region.Twinned

open Emission

variable [Region ρ] [Region ρ'] {R : Nat → ρ → ρ' → Prop} {pos n : Nat} {e : Emission ρ}
  {e' : Emission ρ'}

/-- Emissions between calls have stopped if the call fails. -/
theorem stopped (hR : Region.Twinned R) (h : Paced R e e') : Stopped R e e' := by
  cases h with
  | intro hpos hr => exact .intro rfl (hR.forget hr)

/-- A call that both refuse leaves them as they were. -/
theorem refused (hR : Region.Twinned R) {α : Type} {Q : α → Emission ρ → Emission ρ' → Prop}
    (h : Paced R e e') (failure : Failure) :
    Matches Q (fun f g e e' => f = g ∧ Stopped R e e') (.error failure e) (.error failure e') :=
  .error ⟨rfl, hR.stopped h⟩

/-! ### Parts of calls -/

/-- Both write the same cell. -/
theorem storeCell (hR : Region.Twinned R) (h : Twins R pos n e e') {k offset : Nat} (v : Cell)
    (hk : ∀ i < k, i < n ∨ i = offset) :
    InStepTo (Twins R pos) k (Emission.store offset v e) (Emission.store offset v e') :=
  h.onRegion .storeRefused fun hr => hR.store offset v hr hk

/-- Operands are written alike, and the first cells that are alike become more. -/
theorem writeOperands (hR : Region.Twinned R) : (encs : List Encoded) → ∀ {n : Nat}
    {e : Emission ρ} {e' : Emission ρ'}, Twins R pos n e e' →
    InStepTo (Twins R pos) (n + encs.length) (Emission.writeOperands n encs e)
      (Emission.writeOperands n encs e')
  | [], _, _, _, h => .ok h
  | .cell v :: rest, n, e, e', h => by
    have hnext : ∀ i < n + 1, i < n ∨ i = n := by omega
    rw [List.length_cons, Nat.add_comm rest.length, ← Nat.add_assoc]
    refine (hR.storeCell h v hnext).bind fun _ f f' hstored => ?_
    exact hR.writeOperands rest hstored
  | .label name rule :: rest, n, e, e', h => by
    have hnext : ∀ i < n + 1, i < n ∨ i = n := by omega
    rw [List.length_cons, Nat.add_comm rest.length, ← Nat.add_assoc]
    refine (h.reference name n rule).bind fun v f f' hnoted => ?_
    refine (hR.storeCell hnoted v hnext).bind fun _ g g' hstored => ?_
    exact hR.writeOperands rest hstored

/-- The cells that waited for a label are written alike. -/
theorem writeSites (hR : Region.Twinned R) (labels : LabelTable) (target : Nat) :
    (sites : List Site) → ∀ {e : Emission ρ} {e' : Emission ρ'}, Twins R pos n e e' →
    InStepTo (Twins R pos) n (Emission.writeSites labels target sites e)
      (Emission.writeSites labels target sites e')
  | [], _, _, h => .ok h
  | site :: rest, e, e', h => by
    refine (hR.storeCell h _ fun i hi => .inl hi).bind fun _ f f' hstored => ?_
    exact hR.writeSites labels target rest hstored

/-- Traps are written alike. -/
theorem fillTraps (hR : Region.Twinned R) : (count : Nat) → ∀ {offset : Nat} {e : Emission ρ}
    {e' : Emission ρ'}, Twins R pos n e e' →
    InStepTo (Twins R pos) n (Emission.fillTraps count offset e)
      (Emission.fillTraps count offset e')
  | 0, _, _, _, h => .ok h
  | count + 1, offset, e, e', h => by
    refine (h.onRegion _ fun hr => hR.store offset _ hr fun i hi => .inl hi).bind
      fun _ f f' hstored => ?_
    exact hR.fillTraps count hstored

/-! ### Calls -/

/-- An instruction is written alike, and both cursors move behind it. -/
theorem writeInstruction (hR : Region.Twinned R) (h : Paced R e e') {op : Op}
    {encs : List Encoded} (hlen : encs.length = op.slots.length) :
    CallInStep R (Emission.writeInstruction op encs e) (Emission.writeInstruction op encs e') := by
  obtain ⟨pos, hpos⟩ : ∃ pos, e.context.cursor = pos := ⟨_, rfl⟩
  unfold Paced at h
  rw [hpos] at h
  have hnext : ∀ i < pos + 1, i < pos ∨ i = pos := by omega
  have hwidth : pos + 1 + encs.length = pos + op.width := by
    rw [hlen]
    unfold Op.width
    omega
  unfold Emission.writeInstruction
  rw [h.context, hpos]
  refine Matches.mono (Q := fun _ => Twins R (pos + op.width) (pos + op.width))
    (E := fun f g e e' => f = g ∧ Twins R pos 0 e e') ?_ (fun _ _ _ h => h.paced)
    fun _ _ _ _ h => ⟨h.1, h.2.stopped⟩
  refine (hR.storeCell h op.cell hnext).bind fun _ f f' hstored => ?_
  refine (hR.writeOperands encs hstored).bind fun _ g g' hwrote => ?_
  rw [hwidth] at hwrote
  exact hwrote.modifyContext (congrArg (· + op.width) hwrote.cursor)

/-- An instruction is written in both emissions, or refused in both. -/
theorem emitOp (hR : Region.Twinned R) (h : Paced R e e') (symbols? : Option SymbolTable) (op : Op)
    (operands : List Operand) :
    CallInStep R (Emission.emitOp symbols? op operands e)
      (Emission.emitOp symbols? op operands e') := by
  rw [emitOp_eq, emitOp_eq, h.context]
  by_cases hopen : e.context.status = .open
  · rw [if_pos hopen, if_pos hopen]
    cases hres : Resolver.resolveAll ⟨e.context.mode, symbols?⟩ op operands with
    | error failure => exact hR.refused h failure
    | ok encs =>
      dsimp only
      by_cases hroom : e.context.capacity < e.context.cursor + op.width
      · rw [if_pos hroom, if_pos hroom]
        exact hR.refused h _
      · rw [if_neg hroom, if_neg hroom]
        exact hR.writeInstruction h (Resolver.length_of_resolveAll hres)
  · rw [if_neg hopen, if_neg hopen]
    exact hR.refused h _

/-- So is the instruction of a mnemonic. -/
theorem emit (hR : Region.Twinned R) (h : Paced R e e') (symbols? : Option SymbolTable)
    (mnemonic : String) (operands : List Operand) :
    CallInStep R (Emission.emit symbols? mnemonic operands e)
      (Emission.emit symbols? mnemonic operands e') := by
  rw [emit_eq, emit_eq, h.context]
  by_cases hopen : e.context.status = .open
  · rw [if_pos hopen, if_pos hopen]
    cases Resolver.chooseOp ⟨e.context.mode, symbols?⟩ mnemonic operands with
    | error failure => exact hR.refused h failure
    | ok op => exact hR.emitOp h symbols? op operands
  · rw [if_neg hopen, if_neg hopen]
    exact hR.refused h _

/-- A label is placed in both emissions, and the cells that waited for it are written alike. -/
theorem placeLabel (hR : Region.Twinned R) (h : Paced R e e') (name : String) :
    CallInStep R (Emission.placeLabel name e) (Emission.placeLabel name e') := by
  unfold Emission.placeLabel
  rw [h.context]
  unfold Paced at h
  refine Matches.mono (Q := fun _ => Twins R e.context.cursor e.context.cursor)
    (E := fun f g e₁ e₁' => f = g ∧ Twins R e.context.cursor 0 e₁ e₁') ?_
    (fun _ _ _ h => h.paced) fun _ _ _ _ h => ⟨h.1, h.2.stopped⟩
  refine (h.modifyContext rfl).bind fun _ f f' hdefined => ?_
  refine (hR.writeSites _ _ _ hdefined).bind fun _ g g' hwrote => ?_
  exact hwrote.modifyContext hwrote.cursor

/-- A label is defined in both emissions, or refused in both. -/
theorem defineLabel (hR : Region.Twinned R) (h : Paced R e e') (name : String) :
    CallInStep R (Emission.defineLabel name e) (Emission.defineLabel name e') := by
  rw [defineLabel_eq, defineLabel_eq, h.context]
  by_cases hopen : e.context.status = .open
  · rw [if_pos hopen, if_pos hopen]
    by_cases hname : Text.isName name
    · rw [if_pos hname, if_pos hname]
      cases e.context.labels.offset? name with
      | some offset => exact hR.refused h _
      | none => exact hR.placeLabel h name
    · rw [if_neg hname, if_neg hname]
      exact hR.refused h _
  · rw [if_neg hopen, if_neg hopen]
    exact hR.refused h _

/-! ### Statements -/

/-- A statement is carried out in both emissions, or fails in both at the same point. -/
theorem statement (hR : Region.Twinned R) (h : Paced R e e') (symbols? : Option SymbolTable)
    (st : Statement) :
    CallInStep R (Emission.statement symbols? st e) (Emission.statement symbols? st e') := by
  rw [statement_eq, statement_eq]
  refine Matches.bind (Q := fun _ => Paced R) ?label fun _ f f' hf => ?rest
  case label =>
    cases st.label? with
    | none => exact .ok h
    | some name => exact hR.defineLabel h name
  case rest =>
    cases st.op? with
    | none => exact .ok hf
    | some op =>
      cases hread : st.operands with
      | error failure => exact hR.refused hf failure
      | ok operands => exact hR.emit hf symbols? op operands

/-- **Statements do the same on twin regions.** -/
theorem statements (hR : Region.Twinned R) (symbols? : Option SymbolTable) :
    (body : List Statement) → ∀ {e : Emission ρ} {e' : Emission ρ'}, Paced R e e' →
    CallInStep R (Emission.statements symbols? body e) (Emission.statements symbols? body e')
  | [], _, _, h => .ok h
  | st :: rest, e, e', h => by
    refine (InStepTo.at st.pos (hR.statement h symbols? st)).bind fun _ f f' hf => ?_
    exact hR.statements symbols? rest hf

/-! ### Closing -/

/-- **Both emissions are closed with the same routine, or both are refused it.** The routine stands
at the base of the region, and as many first cells are alike as it is long. -/
theorem finalize (hR : Region.Twinned R) (h : Paced R e e') :
    Matches
      (fun routine f f' => routine.base = Region.base f.region ∧
        R routine.length f.region f'.region)
      (fun f g e e' => f = g ∧ Stopped R e e') (Emission.finalize e) (Emission.finalize e') := by
  rw [finalize_eq, finalize_eq]
  cases h with
  | @intro c r r' hpos hr =>
    have hpaced : Paced R ⟨c, r⟩ ⟨c, r'⟩ := .intro rfl hr
    dsimp only
    by_cases hopen : c.status = .open
    · rw [if_pos hopen, if_pos hopen]
      by_cases hresolved : c.labels.unresolved = []
      · rw [if_pos hresolved, if_pos hresolved]
        have hsealed := hR.sealUp (c.cursor : Int) hr
        generalize Region.sealUp (c.cursor : Int) r = o, Region.sealUp (c.cursor : Int) r' = o'
          at hsealed
        cases hsealed with
        | @ok _ s s' hs =>
          dsimp only
          rw [hR.base hs]
          exact .ok ⟨rfl, hs⟩
        | error h => exact .error ⟨congrArg Failure.sealRefused h.1, .intro rfl h.2⟩
      · rw [if_neg hresolved, if_neg hresolved]
        exact hR.refused hpaced _
    · rw [if_neg hopen, if_neg hopen]
      exact hR.refused hpaced _

/-- Both emissions are given up in the same way. -/
theorem discard (hR : Region.Twinned R) (h : Stopped R e e') :
    InStep (Stopped R) (Emission.discard e) (Emission.discard e') := by
  rw [discard_eq, discard_eq, h.context]
  cases e.context.status with
  | discarded => exact .ok h
  | finalized => exact .error ⟨rfl, h⟩
  | «open» =>
    dsimp only
    unfold Stopped at h
    refine Matches.mono (Q := fun _ => Twins R e.context.cursor 0)
      (E := fun f g e₁ e₁' => f = g ∧ Twins R e.context.cursor 0 e₁ e₁') ?_
      (fun _ _ _ h => h.stopped) fun _ _ _ _ h => ⟨h.1, h.2.stopped⟩
    refine (hR.fillTraps _ h).bind fun _ f f' hfilled => ?_
    refine (hfilled.onRegion .poisonRefused fun hr => hR.poison hr).bind fun _ g g' hpoisoned => ?_
    exact hpoisoned.modifyContext hpoisoned.cursor

end Region.Twinned

end CellMachine
