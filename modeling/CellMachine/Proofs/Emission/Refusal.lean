import CellMachine.Proofs.Emission.Cursor
import CellMachine.Proofs.Emission.Modes

/-!
# Calls to an emission that fail

An emission shares its region with others, who may seal it, poison it or give its lease up at any
time. So a call can fail for its own reasons, or because the region no longer takes writes; and it
should then leave everything as it was. That is so for every call but one.

* `GuardedRegion` — a region refuses before it changes anything, and a region that takes one write
  takes the next. Buffers, the segments of blocks and leased memory do.
* `Emission.defineLabel_failed_iff` — a definition that fails changes nothing, unless it has met a
  region that takes no writes while cells wait for the label (`Emission.Stranded`): then **the label
  counts as defined all the same.**
* `EmissionCall.unchanged_of_error` — **any other call that fails changes nothing**, whatever the
  emission and its region have come to; and the cursor is always the sum of the widths of what was
  emitted.

A crash is no answer of a call: the caller does not get the emission back.
-/

namespace CellMachine

open CellMachine.Action

/-- A kind of region that refuses a call before it changes anything, and that takes no write after
one that it has refused. -/
class GuardedRegion (ρ : Type) [Region ρ] [LawfulRegion ρ] : Prop where
  /-- What takes a write accepts writes, before it and after it. -/
  writable_of_store {r r' : ρ} {offset : Int} {v : Cell} : Region.store offset v r = .ok () r' →
    LawfulRegion.Writable r ∧ LawfulRegion.Writable r'
  /-- A write that is refused changes nothing. -/
  store_error {r r' : ρ} {offset : Int} {v : Cell} {failure : Failure} :
    Region.store offset v r = .error failure r' →
      failure.crashed ∨ ¬LawfulRegion.Writable r ∧ r' = r
  /-- A sealing that is refused changes nothing. -/
  sealUp_error {r r' : ρ} {length : Int} {failure : Failure} :
    Region.sealUp length r = .error failure r' → failure.crashed ∨ r' = r
  /-- What accepts writes can be poisoned. -/
  poison_error {r r' : ρ} {failure : Failure} : Region.poison r = .error failure r' →
    failure.crashed ∨ ¬LawfulRegion.Writable r ∧ r' = r

/-! ### The three kinds of regions -/

namespace Buffer

variable {b b' : Buffer} {failure : Failure}

/-- A buffer takes a write unless it is sealed or poisoned. -/
theorem refusal?_of_store {offset : Int} {v : Cell} (h : store offset v b = .ok () b') :
    b.refusal? = none ∧ b'.refusal? = none := by
  unfold store at h
  split at h
  · cases h
  · next hb =>
    split at h
    · cases h
      exact ⟨hb, hb⟩
    · cases h

/-- A buffer refuses a write before it changes. -/
theorem store_failed {offset : Int} {v : Cell} (h : store offset v b = .error failure b') :
    failure.crashed ∨ ¬b.refusal? = none ∧ b' = b := by
  unfold store at h
  split at h
  · next cause hb =>
    cases h
    exact .inr ⟨by simp [hb], rfl⟩
  · split at h
    · cases h
    · cases h
      exact .inl rfl

/-- A buffer refuses to be sealed before it changes. -/
theorem sealUp_failed {length : Int} (h : sealUp length b = .error failure b') :
    ¬b.refusal? = none ∧ b' = b := by
  unfold sealUp at h
  split at h
  · next hshut =>
    cases h
    refine ⟨fun hb => ?_, rfl⟩
    obtain ⟨hsealed, hpoisoned⟩ := refusal?_eq_none_iff.1 hb
    simp [hsealed, hpoisoned] at hshut
  · cases h

/-- A buffer refuses to be poisoned before it changes. -/
theorem poison_failed (h : poison b = .error failure b') : ¬b.refusal? = none ∧ b' = b := by
  unfold poison at h
  split at h
  · next hsealed =>
    cases h
    refine ⟨fun hb => ?_, rfl⟩
    simp [(refusal?_eq_none_iff.1 hb).1] at hsealed
  · cases h

end Buffer

instance : GuardedRegion Buffer where
  writable_of_store := Buffer.refusal?_of_store
  store_error := Buffer.store_failed
  sealUp_error h := .inr (Buffer.sealUp_failed h).2
  poison_error h := .inr (Buffer.poison_failed h)

namespace Placement

/-- What fails on a segment failed on its buffer and left the rest alone. -/
theorem onBuffer_failed {α : Type} {action : Action Buffer α} {s s' : Placement}
    {failure : Failure} (h : onBuffer action s = .error failure s') :
    ∃ buffer, action s.segment.buffer = .error failure buffer ∧
      s' = { s with segment := { s.segment with buffer } } := by
  unfold onBuffer at h
  split at h
  · cases h
  · next buffer hbuffer =>
    cases h
    exact ⟨buffer, hbuffer, rfl⟩

/-- A segment refuses to be sealed before it changes, and before the program does. -/
theorem sealUp_failed {s s' : Placement} {length : Int} {failure : Failure}
    (h : sealUp length s = .error failure s') : failure.crashed ∨ s' = s := by
  rw [sealUp_eq] at h
  split at h
  · cases h
    exact .inr rfl
  · split at h
    · next cause s₁ hseal =>
      cases h
      obtain ⟨buffer, hbuffer, rfl⟩ := onBuffer_failed hseal
      rw [(Buffer.sealUp_failed hbuffer).2]
      exact .inr rfl
    · next s₁ hseal =>
      -- the stream of a sealed buffer can be missing by a crash alone
      split at h
      · next cause hcontents =>
        cases h
        left
        unfold Buffer.contents at hcontents
        split at hcontents
        · cases hcontents
        · split at hcontents
          · cases hcontents
          · cases hcontents
            rfl
      · cases h

end Placement

instance : GuardedRegion Placement where
  writable_of_store h := by
    obtain ⟨buffer, hbuffer, rfl⟩ := Placement.onBuffer_ok h
    exact Buffer.refusal?_of_store hbuffer
  store_error h := by
    obtain ⟨buffer, hbuffer, rfl⟩ := Placement.onBuffer_failed h
    rcases Buffer.store_failed hbuffer with hcrash | ⟨hshut, rfl⟩
    · exact .inl hcrash
    · exact .inr ⟨hshut, rfl⟩
  sealUp_error := Placement.sealUp_failed
  poison_error h := by
    obtain ⟨buffer, hbuffer, rfl⟩ := Placement.onBuffer_failed h
    obtain ⟨hshut, rfl⟩ := Buffer.poison_failed hbuffer
    exact .inr ⟨hshut, rfl⟩

namespace Leasehold

variable {h h' : Leasehold} {lease : Lease} {span : Span} {failure : Failure}

/-- Whether a lease stands is told by its parts. -/
theorem standing_iff (hp : h.parts? = some (lease, span)) :
    h.Standing ↔ h.stands lease span := by
  constructor
  · rintro ⟨lease', span', hp', hs⟩
    rw [hp] at hp'
    cases hp'
    exact hs
  · exact fun hs => ⟨lease, span, hp, hs⟩

/-- A lease that was written through stands, and stood before. -/
theorem standing_of_store {offset : Int} {v : Cell} (hrun : store offset v h = .ok () h') :
    h.Standing ∧ h'.Standing := by
  cases hp : h.parts? with
  | none =>
    rw [store, withParts_of_none hp] at hrun
    cases hrun
  | some parts =>
    obtain ⟨lease, span⟩ := parts
    cases hs : h.stands lease span with
    | false =>
      rw [store_of_fallen hp hs] at hrun
      cases hrun
    | true =>
      refine ⟨⟨lease, span, hp, hs⟩, ?_⟩
      by_cases hin : h.memory.inBounds (span.base + Int64.ofInt offset)
      · rw [store_of_inBounds hp hs hin] at hrun
        cases hrun
        exact ⟨_, span, parts?_modify hp (fun l => { l with written := true }) (fun _ => rfl) _, hs⟩
      · rw [store_of_outside hp hs hin] at hrun
        cases hrun

/-- A lease refuses to be written through before anything changes. -/
theorem store_failed {offset : Int} {v : Cell} (hrun : store offset v h = .error failure h') :
    failure.crashed ∨ ¬h.Standing ∧ h' = h := by
  cases hp : h.parts? with
  | none =>
    rw [store, withParts_of_none hp] at hrun
    cases hrun
    exact .inl rfl
  | some parts =>
    obtain ⟨lease, span⟩ := parts
    cases hs : h.stands lease span with
    | false =>
      rw [store_of_fallen hp hs] at hrun
      cases hrun
      refine .inr ⟨fun hstanding => ?_, rfl⟩
      rw [standing_iff hp, hs] at hstanding
      cases hstanding
    | true =>
      by_cases hin : h.memory.inBounds (span.base + Int64.ofInt offset)
      · rw [store_of_inBounds hp hs hin] at hrun
        cases hrun
      · rw [store_of_outside hp hs hin] at hrun
        cases hrun
        exact .inl rfl

/-- A lease refuses to be sealed before anything changes. -/
theorem sealUp_failed {length : Int} (hrun : sealUp length h = .error failure h') :
    failure.crashed ∨ h' = h := by
  cases hp : h.parts? with
  | none =>
    rw [sealUp, withParts_of_none hp] at hrun
    cases hrun
    exact .inl rfl
  | some parts =>
    obtain ⟨lease, span⟩ := parts
    rw [sealUp_of_parts hp] at hrun
    split at hrun
    · cases hrun
      exact .inr rfl
    · cases hrun

/-- A lease refuses to be poisoned before anything changes, and only after it was closed. -/
theorem poison_failed (hrun : poison h = .error failure h') :
    failure.crashed ∨ ¬h.Standing ∧ h' = h := by
  cases hp : h.parts? with
  | none =>
    rw [poison, withParts_of_none hp] at hrun
    cases hrun
    exact .inl rfl
  | some parts =>
    obtain ⟨lease, span⟩ := parts
    rw [poison_of_parts hp] at hrun
    split at hrun
    · next hdone =>
      cases hrun
      refine .inr ⟨fun hstanding => ?_, rfl⟩
      have hopen := done_of_stands ((standing_iff hp).1 hstanding)
      rw [hdone] at hopen
      cases hopen
    · cases hrun

end Leasehold

instance : GuardedRegion Leasehold where
  writable_of_store := Leasehold.standing_of_store
  store_error := Leasehold.store_failed
  sealUp_error := Leasehold.sealUp_failed
  poison_error := Leasehold.poison_failed

/-! ### Calls that fail -/

namespace Emission

section Failed

variable {ρ : Type} [Region ρ] [LawfulRegion ρ] [GuardedRegion ρ] {e e' : Emission ρ}
  {failure : Failure}

/-- A cell that was written leaves a region that accepts writes. -/
theorem writable_of_store {offset : Nat} {v : Cell} (h : store offset v e = .ok () e') :
    LawfulRegion.Writable e'.region := by
  unfold store onRegion at h
  split at h
  · next hstore =>
    cases h
    exact (GuardedRegion.writable_of_store hstore).2
  · cases h

/-- A cell that is refused changes nothing, and the region accepts no writes. -/
theorem store_failed {offset : Nat} {v : Cell} (h : store offset v e = .error failure e') :
    failure.crashed ∨ ¬LawfulRegion.Writable e.region ∧ e' = e := by
  unfold store onRegion at h
  split at h
  · cases h
  · next cause region hstore =>
    cases h
    rcases GuardedRegion.store_error hstore with hcrash | ⟨hshut, rfl⟩
    · exact .inl hcrash
    · exact .inr ⟨hshut, rfl⟩

/-- A region that accepts writes refuses no cell. -/
theorem crashed_of_store {offset : Nat} {v : Cell} (h : store offset v e = .error failure e')
    (hw : LawfulRegion.Writable e.region) : failure.crashed :=
  (store_failed h).resolve_right fun hshut => hshut.1 hw

/-- A region that accepts writes refuses no operand. -/
theorem crashed_of_writeOperands :
    (encs : List Encoded) → ∀ {e e' : Emission ρ} {offset : Nat},
      writeOperands offset encs e = .error failure e' → LawfulRegion.Writable e.region →
      failure.crashed
  | [], _, _, _, h, _ => by cases h
  | .cell v :: rest, e, e', offset, h, hw => by
    rcases error_of_bind h with hstore | ⟨⟨⟩, e₁, hstore, h⟩
    · exact crashed_of_store hstore hw
    · exact crashed_of_writeOperands rest h (writable_of_store hstore)
  | .label name rule :: rest, e, e', offset, h, hw => by
    rcases error_of_bind h with href | ⟨v, e₁, href, h⟩
    · cases href
    · cases href
      rcases error_of_bind h with hstore | ⟨⟨⟩, e₂, hstore, h⟩
      · exact crashed_of_store hstore hw
      · exact crashed_of_writeOperands rest h (writable_of_store hstore)

/-- Waiting cells are refused all together: the first one by a region that accepts no writes. -/
theorem writeSites_failed {labels : LabelTable} {target : Nat} :
    (sites : List Site) → ∀ {e e' : Emission ρ},
      writeSites labels target sites e = .error failure e' →
      failure.crashed ∨ sites ≠ [] ∧ ¬LawfulRegion.Writable e.region ∧ e' = e
  | [], _, _, h => by cases h
  | site :: rest, e, e', h => by
    rcases error_of_bind h with hstore | ⟨⟨⟩, e₁, hstore, h⟩
    · rcases store_failed hstore with hcrash | hshut
      · exact .inl hcrash
      · exact .inr ⟨List.cons_ne_nil _ _, hshut⟩
    · rcases writeSites_failed rest h with hcrash | ⟨-, hshut, -⟩
      · exact .inl hcrash
      · exact absurd (writable_of_store hstore) hshut

/-- An instruction that fails changes nothing: after its opcode no cell of it is refused. -/
theorem emitOp_failed {symbols? : Option SymbolTable} {op : Op} {operands : List Operand}
    (h : emitOp symbols? op operands e = .error failure e') : failure.crashed ∨ e' = e := by
  rw [emitOp_eq] at h
  split at h
  · split at h
    · cases h
      exact .inr rfl
    · split at h
      · cases h
        exact .inr rfl
      · unfold writeInstruction at h
        rcases error_of_bind h with hstore | ⟨⟨⟩, e₁, hstore, h⟩
        · exact (store_failed hstore).imp_right And.right
        · rcases error_of_bind h with hwrite | ⟨⟨⟩, e₂, _, h⟩
          · exact .inl (crashed_of_writeOperands _ hwrite (writable_of_store hstore))
          · cases h
  · cases h
    exact .inr rfl

/-- The instruction of a mnemonic that fails changes nothing. -/
theorem emit_failed {symbols? : Option SymbolTable} {mnemonic : String} {operands : List Operand}
    (h : emit symbols? mnemonic operands e = .error failure e') : failure.crashed ∨ e' = e := by
  rw [emit_eq] at h
  split at h
  · split at h
    · cases h
      exact .inr rfl
    · exact emitOp_failed h
  · cases h
    exact .inr rfl

/-- A region that has taken a write takes every trap. -/
theorem fillTraps_failed : (count : Nat) → ∀ {e e' : Emission ρ} {offset : Nat},
    fillTraps count offset e = .error failure e' →
      failure.crashed ∨ ¬LawfulRegion.Writable e.region ∧ e' = e
  | 0, _, _, _, h => by cases h
  | count + 1, e, e', offset, h => by
    rcases error_of_bind h with hstore | ⟨⟨⟩, e₁, hstore, h⟩
    · unfold onRegion at hstore
      split at hstore
      · cases hstore
      · next hregion =>
        cases hstore
        rcases GuardedRegion.store_error hregion with hcrash | ⟨hshut, rfl⟩
        · exact .inl hcrash
        · exact .inr ⟨hshut, rfl⟩
    · unfold onRegion at hstore
      split at hstore
      · next hregion =>
        cases hstore
        rcases fillTraps_failed count h with hcrash | ⟨hshut, -⟩
        · exact .inl hcrash
        · exact absurd (GuardedRegion.writable_of_store hregion).2 hshut
      · cases hstore

/-- Traps that were written leave a region that accepts writes, if there were any. -/
theorem writable_of_fillTraps : (count : Nat) → ∀ {e e' : Emission ρ} {offset : Nat},
    fillTraps count offset e = .ok () e' → e' = e ∨ LawfulRegion.Writable e'.region
  | 0, _, _, _, h => by
    cases h
    exact .inl rfl
  | count + 1, e, e', offset, h => by
    obtain ⟨⟨⟩, e₁, hstore, h⟩ := ok_of_bind h
    unfold onRegion at hstore
    split at hstore
    · next hregion =>
      cases hstore
      rcases writable_of_fillTraps count h with rfl | hw
      · exact .inr (GuardedRegion.writable_of_store hregion).2
      · exact .inr hw
    · cases hstore

/-- An emission that cannot be given up stays as it was: after a trap the region can be
poisoned. -/
theorem discard_failed (h : discard e = .error failure e') : failure.crashed ∨ e' = e := by
  rw [discard_eq] at h
  split at h
  · cases h
  · cases h
    exact .inr rfl
  · rcases error_of_bind h with hfill | ⟨⟨⟩, e₁, hfill, h⟩
    · exact (fillTraps_failed _ hfill).imp_right And.right
    · rcases error_of_bind h with hpoison | ⟨⟨⟩, e₂, _, h⟩
      · unfold onRegion at hpoison
        split at hpoison
        · cases hpoison
        · next hregion =>
          cases hpoison
          rcases GuardedRegion.poison_error hregion with hcrash | ⟨hshut, rfl⟩
          · exact .inl hcrash
          · rcases writable_of_fillTraps _ hfill with rfl | hw
            · exact .inr rfl
            · exact absurd hw hshut
      · cases h

/-! ### Definitions that fail -/

/-- A definition that finds its region shut: nothing speaks against the label, cells wait for it,
and the region does not accept writes. -/
structure Stranded (e : Emission ρ) (name : String) : Prop where
  status : e.context.status = .open
  named : Text.isName name
  undefined : e.context.labels.offset? name = none
  waiting : e.context.labels.pending name ≠ []
  shut : ¬LawfulRegion.Writable e.region

/-- The emission with a label that is defined at the cursor and for which the cells still wait. -/
def halfDefined (e : Emission ρ) (name : String) : Emission ρ :=
  { e with context :=
      { e.context with labels := e.context.labels.define name e.context.cursor } }

/-- All that can be asked about the labels, the cursor and the cells is answered in the same way. -/
structure SameView (e e' : Emission ρ) : Prop where
  offset? : ∀ name, e'.context.labels.offset? name = e.context.labels.offset? name
  pending : ∀ name, e'.context.labels.pending name = e.context.labels.pending name
  cursor : e'.context.cursor = e.context.cursor
  cells : ∀ i : Nat, Region.load e'.region i = Region.load e.region i

/-- A definition that fails changes nothing, or the label counts as defined and the region was
shut. -/
theorem defineLabel_cases {name : String} (h : defineLabel name e = .error failure e') :
    failure.crashed ∨ ¬e.Stranded name ∧ e' = e ∨ e.Stranded name ∧ e' = e.halfDefined name := by
  rw [defineLabel_eq] at h
  split at h
  · next hopen =>
    split at h
    · next hname =>
      split at h
      · next offset hoffset =>
        cases h
        refine .inr (.inl ⟨fun hs => ?_, rfl⟩)
        rw [hs.undefined] at hoffset
        cases hoffset
      · next hnew =>
        unfold placeLabel at h
        rcases error_of_bind h with hdefine | ⟨⟨⟩, e₁, hdefine, h⟩
        · cases hdefine
        · cases hdefine
          rcases error_of_bind h with hsites | ⟨⟨⟩, e₂, _, h⟩
          · rcases writeSites_failed _ hsites with hcrash | ⟨hwaiting, hshut, rfl⟩
            · exact .inl hcrash
            · exact .inr (.inr ⟨⟨hopen, hname, hnew, hwaiting, hshut⟩, rfl⟩)
          · cases h
    · next hname =>
      cases h
      exact .inr (.inl ⟨fun hs => hname hs.named, rfl⟩)
  · next hopen =>
    cases h
    exact .inr (.inl ⟨fun hs => hopen hs.status, rfl⟩)

/-- A definition that finds its region shut fails. -/
theorem Stranded.exists_error {name : String} (hs : e.Stranded name) :
    ∃ failure e', defineLabel name e = .error failure e' := by
  obtain ⟨site, rest, hsites⟩ := List.exists_cons_of_ne_nil hs.waiting
  cases hrun : defineLabel name e with
  | error failure e' => exact ⟨failure, e', rfl⟩
  | ok a e' =>
    -- the first cell that waits would have to be written
    rw [defineLabel_eq, if_pos hs.status, if_pos hs.named, hs.undefined] at hrun
    simp only [placeLabel, hsites] at hrun
    obtain ⟨⟨⟩, e₁, hdefine, hrun⟩ := ok_of_bind hrun
    cases hdefine
    obtain ⟨⟨⟩, e₂, hwrite, hrun⟩ := ok_of_bind hrun
    obtain ⟨⟨⟩, e₃, hstore, -⟩ := ok_of_bind hwrite
    unfold store onRegion at hstore
    split at hstore
    · next hregion => exact absurd (GuardedRegion.writable_of_store hregion).1 hs.shut
    · cases hstore

/-- **A definition that fails changes nothing, unless it finds its region shut.** Then it fails as
well, but the label counts as defined at the cursor; the cells that wait for it, the cursor and the
region are as they were. -/
theorem defineLabel_failed_iff (name : String) (e : Emission ρ) :
    (e.Stranded name → ∃ failure e', defineLabel name e = .error failure e') ∧
    ∀ failure e', defineLabel name e = .error failure e' → failure.crashed = false →
      (e.SameView e' ↔ ¬e.Stranded name) ∧
      (¬e.Stranded name → e' = e) ∧ (e.Stranded name → e' = e.halfDefined name) := by
  refine ⟨Stranded.exists_error, fun failure e' hrun hcrash => ?_⟩
  rcases defineLabel_cases hrun with hcrashed | ⟨hs, rfl⟩ | ⟨hs, rfl⟩
  · rw [hcrash] at hcrashed
    cases hcrashed
  · exact ⟨⟨fun _ => hs, fun _ => ⟨fun _ => rfl, fun _ => rfl, rfl, fun _ => rfl⟩⟩,
      fun _ => rfl, fun h => absurd h hs⟩
  · refine ⟨⟨fun hview => ?_, fun h => absurd hs h⟩, fun h => absurd hs h, fun _ => rfl⟩
    have hoffset := hview.offset? name
    change (e.context.labels.define name e.context.cursor).offset? name = _ at hoffset
    rw [LabelTable.offset?_define, if_pos rfl, hs.undefined] at hoffset
    cases hoffset

end Failed

/-- An emission that has used a label too early and whose buffer was sealed behind it. -/
def sampleStranded : Emission Buffer where
  context :=
    { mode := .static, capacity := 4, cursor := 2, emitted := 1
      labels := { origin := 0, labels := [{ name := "end", pending := [⟨1, .relative⟩] }] } }
  region := { base := 0, cells := #[129, 0, 0, 0], sealed? := some 2 }

/-- The definition of a label fails on a buffer that was sealed, and the label is defined after
it. -/
theorem defineLabel_failed_iff_sample :
    sampleStranded.Stranded "end" ∧
    ∃ failure e', defineLabel "end" sampleStranded = .error failure e' ∧
      failure.crashed = false ∧ ¬sampleStranded.SameView e' ∧
      e'.context.labels.offset? "end" = some 2 := by
  have hs : sampleStranded.Stranded "end" := by
    refine ⟨rfl, by decide +kernel, by decide +kernel, by decide +kernel, ?_⟩
    intro hw
    cases hw
  obtain ⟨hfails, hleft⟩ := defineLabel_failed_iff "end" sampleStranded
  obtain ⟨failure, e', hrun⟩ := hfails hs
  have hcrash : failure.crashed = false := by
    have hreported : defineLabel "end" sampleStranded =
        .error (.storeRefused (.bufferSealed 0)) (sampleStranded.halfDefined "end") := by rfl
    rw [hreported] at hrun
    cases hrun
    rfl
  obtain ⟨hview, -, hdefined⟩ := hleft failure e' hrun hcrash
  refine ⟨hs, failure, e', hrun, hcrash, fun h => hview.1 h hs, ?_⟩
  rw [hdefined hs]
  rfl

end Emission

namespace EmissionCall

/-- Whether the call defines a label. -/
def defines : EmissionCall → Bool
  | .add (.label _) => true
  | _ => false

/-- A call that fails changes nothing, unless it defines a label. -/
theorem perform_failed {ρ : Type} [Region ρ] [LawfulRegion ρ] [GuardedRegion ρ]
    {e e' : Emission ρ} {failure : Failure} {c : EmissionCall} (hc : c.defines = false)
    (h : c.perform e = .error failure e') : failure.crashed ∨ e' = e := by
  cases c with
  | add call =>
    cases call with
    | emit symbols? mnemonic operands => exact Emission.emit_failed h
    | emitOp symbols? op operands => exact Emission.emitOp_failed h
    | label name => cases hc
  | discard => exact Emission.discard_failed h
  | finalize =>
    rw [perform_finalize_eq] at h
    split at h
    · split at h
      · split at h
        · cases h
        · next cause region hseal =>
          cases h
          rcases GuardedRegion.sealUp_error hseal with hcrash | rfl
          · exact .inl hcrash
          · exact .inr rfl
      · cases h
        exact .inr rfl
    · cases h
      exact .inr rfl

/-- **A call that fails changes nothing**, unless it defines a label: the emission and its region,
with all that is around the region, are what they were, whatever they had come to. And after any
calls, with anything done to the region in between, **the cursor is the sum of the widths of the
instructions that were emitted**, and within the capacity. -/
theorem unchanged_of_error (ρ : Type) [Region ρ] [LawfulRegion ρ] [GuardedRegion ρ] :
    (∀ (c : EmissionCall) (e e' : Emission ρ) (failure : Failure), c.defines = false →
      c.perform e = .error failure e' → failure.crashed = false → e' = e) ∧
    ∀ (mode : Mode) (region : ρ) (moves : List (EmissionMove ρ)) (e : Emission ρ),
      e = EmissionMove.afterAll moves (.start mode region) →
      e.context.cursor =
        ((EmissionMove.emittedAll moves (.start mode region)).map Op.width).sum ∧
      e.context.cursor ≤ e.context.capacity ∧ e.context.capacity = Region.capacity region := by
  constructor
  · intro c e e' failure hc hrun hcrash
    rcases perform_failed hc hrun with hcrashed | heq
    · rw [hcrash] at hcrashed
      cases hcrashed
    · exact heq
  · rintro mode region moves e rfl
    have h := Emission.gauged_afterAll moves (Emission.gauged_start mode region)
    rw [List.nil_append] at h
    exact ⟨h.cursor, h.same_capacity.symm ▸ h.room, h.same_capacity⟩

/-- Whether a call fails without a crash. -/
def refuses {ρ : Type} [Region ρ] (c : EmissionCall) (e : Emission ρ) : Bool :=
  match c.perform e with
  | .ok _ _ => false
  | .error failure _ => !failure.crashed

/-- A call that fails without a crash does so with a failure. -/
theorem exists_of_refuses {ρ : Type} [Region ρ] {c : EmissionCall} {e : Emission ρ}
    (h : c.refuses e) :
    ∃ failure e', c.perform e = .error failure e' ∧ failure.crashed = false := by
  unfold refuses at h
  split at h
  · cases h
  · next failure e' hrun =>
    simp only [Bool.not_eq_true'] at h
    exact ⟨failure, e', hrun, h⟩

/-- A leased region is emitted into, and then the lease is given up. -/
def sampleReleased : List (EmissionMove Leasehold) :=
  [.call (.add (.emit none "CONST.P" [.immediate 5])),
    .call (.add (.emit none "JREL" [.label "end"])), .behind Leasehold.release.after]

/-- A segment is emitted into, and then something is appended to its program. -/
def sampleMoved : List (EmissionMove Placement) :=
  [.call (.add (.emitOp none .ret [])),
    .behind fun s => { s with program := s.program.append #[0] }]

/-- A segment of two cells at the start of a program. -/
def sampleSegment : Placement where
  segment := { buffer := { base := 0, cells := #[0, 0] }, entry := 0 }
  program := { dataBase := 0, dataCells := 0 }

/-- Neither can the stream go on in a region that was given up, nor can the region be filled with
traps; and a segment whose program has moved on cannot be sealed. -/
theorem unchanged_of_error_sample :
    (∀ c ∈ [EmissionCall.add (.emit none "RET" []), .discard], ∃ failure,
      c.perform (EmissionMove.afterAll sampleReleased (.start .dynamic sampleHook)) =
        .error failure (EmissionMove.afterAll sampleReleased (.start .dynamic sampleHook))) ∧
    (∃ failure,
      EmissionCall.finalize.perform
        (EmissionMove.afterAll sampleMoved (.start .static sampleSegment)) =
          .error failure (EmissionMove.afterAll sampleMoved (.start .static sampleSegment))) ∧
    (EmissionMove.afterAll sampleReleased (.start .dynamic sampleHook)).context.cursor =
      ((EmissionMove.emittedAll sampleReleased (.start .dynamic sampleHook)).map Op.width).sum := by
  have hlease := unchanged_of_error Leasehold
  refine ⟨?_, ?_, (hlease.2 .dynamic sampleHook sampleReleased _ rfl).1⟩
  · intro c hc
    have hcall : c.defines = false ∧ c.refuses
        (EmissionMove.afterAll sampleReleased (.start .dynamic sampleHook)) := by
      rcases List.mem_pair.1 hc with rfl | rfl
      · exact ⟨rfl, by decide +kernel⟩
      · exact ⟨rfl, by decide +kernel⟩
    obtain ⟨failure, e', hrun, hcrash⟩ := exists_of_refuses hcall.2
    have heq := hlease.1 c _ e' failure hcall.1 hrun hcrash
    exact ⟨failure, heq ▸ hrun⟩
  · have hmoved : EmissionCall.finalize.refuses
        (EmissionMove.afterAll sampleMoved (.start .static sampleSegment)) := by decide +kernel
    obtain ⟨failure, e', hrun, hcrash⟩ := exists_of_refuses hmoved
    have heq := (unchanged_of_error Placement).1 .finalize _ e' failure rfl hrun hcrash
    exact ⟨failure, heq ▸ hrun⟩

end EmissionCall

end CellMachine
