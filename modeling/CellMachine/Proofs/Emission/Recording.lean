import CellMachine.Proofs.Emission.Upkeep

/-!
# Regions that keep a record

What was written to a region and when it was sealed cannot be told from the region afterwards. A
recording region is a region with a list of the writes and sealings that it has accepted. It is a
region itself, so the calls of an emission run on it as they are.

* `RegionEvent`, `Recording` — a region with its record.
* `EmissionCall.bare_after` — **keeping a record changes nothing**: a call does to the region inside
  what it does to the region alone, and to the context likewise.
* `EmissionCall.events` — the writes and sealings that a call to an emission makes.
-/

namespace CellMachine

open CellMachine.Action

/-- Something that a region has accepted. -/
inductive RegionEvent
  /-- A cell was written. -/
  | stored
  /-- The region was sealed. -/
  | sealed
  deriving DecidableEq, Repr

/-- A region with a record of the writes and sealings that it has accepted. -/
structure Recording (ρ : Type) where
  region : ρ
  events : List RegionEvent := []

namespace Recording

variable {ρ : Type}

/-- Does something to the region, and puts it on record if it ends well. -/
def note (events : List RegionEvent) (x : Action ρ Unit) : Action (Recording ρ) Unit := fun r =>
  match x r.region with
  | .ok () region => .ok () { region, events := r.events ++ events }
  | .error failure region => .error failure { r with region }

instance [Region ρ] : Region (Recording ρ) where
  base r := Region.base r.region
  capacity r := Region.capacity r.region
  origin r := Region.origin r.region
  load r := Region.load r.region
  store offset v := note [.stored] (Region.store offset v)
  attest := note [] Region.attest
  sealUp length := note [.sealed] (Region.sealUp length)
  poison := note [] Region.poison

end Recording

namespace Emission

variable {ρ α β : Type}

/-- An emission without the record of its region. -/
def bare (e : Emission (Recording ρ)) : Emission ρ :=
  { context := e.context, region := e.region.region }

/-- An outcome without the record of the region. -/
def bareResult : EStateM.Result Failure (Emission (Recording ρ)) α →
    EStateM.Result Failure (Emission ρ) α
  | .ok a e => .ok a e.bare
  | .error failure e => .error failure e.bare

/-- An action on a recording region does what another one does on the region alone. -/
def Mirrors (x : Action (Emission (Recording ρ)) α) (y : Action (Emission ρ) α) : Prop :=
  ∀ e, bareResult (x e) = y e.bare

namespace Mirrors

/-- Answering is the same with and without a record. -/
theorem pure (a : α) : Mirrors (Pure.pure a) (Pure.pure a : Action (Emission ρ) α) := fun _ => rfl

/-- Failing is the same with and without a record. -/
theorem throw (failure : Failure) :
    Mirrors (MonadExcept.throw failure) (MonadExcept.throw failure : Action (Emission ρ) α) :=
  fun _ => rfl

/-- A result is the same with and without a record. -/
theorem ofExcept (r : Except Failure α) :
    Mirrors (Action.ofExcept r) (Action.ofExcept r : Action (Emission ρ) α) := by
  intro e
  cases r <;> rfl

/-- Sequences of the same parts do the same. -/
theorem bind {x : Action (Emission (Recording ρ)) α} {y : Action (Emission ρ) α}
    {f : α → Action (Emission (Recording ρ)) β} {g : α → Action (Emission ρ) β}
    (hx : Mirrors x y) (hf : ∀ a, Mirrors (f a) (g a)) : Mirrors (x >>= f) (y >>= g) := by
  intro e
  have h := hx e
  rcases hr : x e with ⟨a, e₁⟩ | ⟨failure, e₁⟩
  · rw [hr] at h
    rw [bind_of_ok hr, bind_of_ok h.symm]
    exact hf a e₁
  · rw [hr] at h
    rw [bind_of_error hr, bind_of_error h.symm]
    rfl

/-- What is put on record is done to the region. -/
theorem onRegion (events : List RegionEvent) (x : Action ρ Unit) (report : Failure → Failure) :
    Mirrors (Emission.onRegion report (Recording.note events x)) (Emission.onRegion report x) := by
  intro e
  unfold Emission.onRegion Recording.note bare
  cases x e.region.region with
  | ok a region => rfl
  | error cause region => rfl

/-- The context is the same with and without a record. -/
theorem modifyContext (f : Context → Context) :
    Mirrors (Emission.modifyContext f) (Emission.modifyContext (ρ := ρ) f) := fun _ => rfl

/-- The context is the same with and without a record. -/
theorem getContext : Mirrors Emission.getContext (Emission.getContext (ρ := ρ)) := fun _ => rfl

/-- The status is the same with and without a record. -/
theorem checkOpen : Mirrors Emission.checkOpen (Emission.checkOpen (ρ := ρ)) := by
  intro e
  unfold Emission.checkOpen bare
  by_cases hopen : e.context.status = .open
  · simp only [if_pos hopen]
    rfl
  · simp only [if_neg hopen]
    rfl

/-- The label table is the same with and without a record. -/
theorem reference (name : String) (site : Nat) (rule : PatchRule) :
    Mirrors (Emission.reference name site rule) (Emission.reference (ρ := ρ) name site rule) :=
  fun _ => rfl

variable [Region ρ]

/-- Operands are written in the same way. -/
theorem writeOperands : (encs : List Encoded) → ∀ offset : Nat,
    Mirrors (Emission.writeOperands offset encs) (Emission.writeOperands (ρ := ρ) offset encs)
  | [], _ => pure ()
  | .cell v :: rest, offset =>
    bind (onRegion _ (Region.store (offset : Int) v) _) fun _ => writeOperands rest (offset + 1)
  | .label name rule :: rest, offset =>
    bind (reference name offset rule) fun v =>
      bind (onRegion _ (Region.store (offset : Int) v) _) fun _ => writeOperands rest (offset + 1)

/-- Waiting cells are written in the same way. -/
theorem writeSites (labels : LabelTable) (target : Nat) : (sites : List Site) →
    Mirrors (Emission.writeSites labels target sites)
      (Emission.writeSites (ρ := ρ) labels target sites)
  | [] => pure ()
  | site :: rest =>
    bind (onRegion _ (Region.store (site.offset : Int) _) _) fun _ => writeSites labels target rest

/-- Traps are written in the same way. -/
theorem fillTraps : (count offset : Nat) →
    Mirrors (Emission.fillTraps count offset) (Emission.fillTraps (ρ := ρ) count offset)
  | 0, _ => pure ()
  | count + 1, offset =>
    bind (onRegion _ (Region.store (offset : Int) Op.trap.cell) _) fun _ =>
      fillTraps count (offset + 1)

/-- An instruction is emitted in the same way. -/
theorem emitOp (symbols? : Option SymbolTable) (op : Op) (operands : List Operand) :
    Mirrors (Emission.emitOp symbols? op operands)
      (Emission.emitOp (ρ := ρ) symbols? op operands) := by
  refine bind checkOpen fun _ => bind getContext fun c => bind (ofExcept _) fun encs => ?_
  by_cases hroom : c.capacity < c.cursor + op.width
  · simp only [if_pos hroom]
    exact bind (throw _) fun _ => bind (onRegion _ (Region.store (c.cursor : Int) op.cell) _)
      fun _ => bind (writeOperands encs _) fun _ => modifyContext _
  · simp only [if_neg hroom]
    exact bind (onRegion _ (Region.store (c.cursor : Int) op.cell) _)
      fun _ => bind (writeOperands encs _) fun _ => modifyContext _

/-- The instruction of a mnemonic is emitted in the same way. -/
theorem emit (symbols? : Option SymbolTable) (mnemonic : String) (operands : List Operand) :
    Mirrors (Emission.emit symbols? mnemonic operands)
      (Emission.emit (ρ := ρ) symbols? mnemonic operands) :=
  bind checkOpen fun _ => bind getContext fun _ => bind (ofExcept _) fun op =>
    emitOp symbols? op operands

/-- A label is defined in the same way. -/
theorem defineLabel (name : String) :
    Mirrors (Emission.defineLabel name) (Emission.defineLabel (ρ := ρ) name) := by
  intro e
  rw [defineLabel_eq, defineLabel_eq]
  by_cases hopen : e.context.status = .open
  · rw [if_pos hopen, if_pos (show e.bare.context.status = .open from hopen)]
    by_cases hname : Text.isName name
    · rw [if_pos hname, if_pos hname]
      have hoffset : e.bare.context.labels.offset? name = e.context.labels.offset? name := rfl
      rw [hoffset]
      cases e.context.labels.offset? name with
      | some offset => rfl
      | none =>
        exact bind (modifyContext _) (fun _ => bind (writeSites e.context.labels _ _)
          fun _ => modifyContext _) e
    · rw [if_neg hname, if_neg hname]
      rfl
  · rw [if_neg hopen, if_neg (show ¬e.bare.context.status = .open from hopen)]
    rfl

/-- An emission is finalized in the same way. -/
theorem finalize : Mirrors Emission.finalize (Emission.finalize (ρ := ρ)) := by
  refine bind checkOpen fun _ => bind getContext fun c => ?_
  by_cases hlabels : c.labels.unresolved.isEmpty
  · simp only [hlabels, Bool.not_true, Bool.false_eq_true, if_false]
    exact bind (onRegion _ (Region.sealUp (c.cursor : Int)) _) fun _ =>
      bind (modifyContext _) fun _ _ => rfl
  · simp only [hlabels, Bool.not_false, if_true]
    exact bind (throw _) fun _ => bind (onRegion _ (Region.sealUp (c.cursor : Int)) _) fun _ =>
      bind (modifyContext _) fun _ _ => rfl

/-- An emission is given up in the same way. -/
theorem discard : Mirrors Emission.discard (Emission.discard (ρ := ρ)) := by
  refine bind getContext fun c => ?_
  cases c.status with
  | finalized => exact throw _
  | discarded => exact pure ()
  | «open» =>
    exact bind (fillTraps c.capacity 0) fun _ => bind (onRegion _ Region.poison _) fun _ =>
      modifyContext _

end Mirrors

/-- After an action on a recording region there is what the other one leaves. -/
theorem Mirrors.after {x : Action (Emission (Recording ρ)) α} {y : Action (Emission ρ) α}
    (h : Mirrors x y) (e : Emission (Recording ρ)) : (x.after e).bare = y.after e.bare := by
  have he := h e
  unfold Action.after
  cases hx : x e with
  | ok a e' =>
    rw [hx] at he
    rw [← he]
    rfl
  | error failure e' =>
    rw [hx] at he
    rw [← he]
    rfl

end Emission

namespace EmissionCall

variable {ρ : Type} [Region ρ]

/-- **Keeping a record changes nothing.** A call to an emission on a recording region does what it
does on the region alone. -/
theorem bare_after (c : EmissionCall) (e : Emission (Recording ρ)) :
    (c.after e).bare = c.after e.bare := by
  cases c with
  | add call =>
    cases call with
    | emit symbols? mnemonic operands =>
      exact (Emission.Mirrors.emit symbols? mnemonic operands).after e
    | emitOp symbols? op operands => exact (Emission.Mirrors.emitOp symbols? op operands).after e
    | label name => exact (Emission.Mirrors.defineLabel name).after e
  | finalize => exact Emission.Mirrors.finalize.after e
  | discard => exact Emission.Mirrors.discard.after e

/-- An emission whose region has an empty record. -/
def recorded (e : Emission ρ) : Emission (Recording ρ) :=
  { context := e.context, region := { region := e.region } }

/-- The writes and sealings that a call to an emission makes, in their order. -/
def events (c : EmissionCall) (e : Emission ρ) : List RegionEvent :=
  (c.after (recorded e)).region.events

end EmissionCall

end CellMachine
