import CellMachine.Proofs.Emission.Write
import CellMachine.Proofs.Operand.Reports

/-!
# What an emission does to its region

An emission writes cells inside its capacity, seals its region and poisons it; it does nothing else
to its region. So a property of regions that survives these three survives every call to an
emission, however the call ends. A call to a machine is treated in the same way.

* `Region.Upheld` — a property of regions that writing inside, sealing and poisoning preserve.
* `Emission.Keeping` — the region of an emission has a property, and the cells that wait for a label
  lie inside the region.
* `EmissionCall` — everything that can be asked of an emission, its closing included.
* `EmissionCall.preserves` — **every call preserves it**, whether it succeeds, fails or crashes.
* `Region.Accepting` — a region that refuses no write inside it; then a call that fails has changed
  nothing, and it did not crash (`Emission.emitOp_refused`, `Emission.defineLabel_refused`).
-/

namespace CellMachine

open CellMachine.Action

/-- A property of regions that survives all that an emission of `capacity` cells does to its
region. -/
structure Region.Upheld {ρ : Type} [Region ρ] (capacity : Nat) (P : ρ → Prop) : Prop where
  store : ∀ (offset : Nat) (v : Cell), offset < capacity →
    Preserves P (Region.store (offset : Int) v)
  sealUp : ∀ length : Int, Preserves P (Region.sealUp length)
  poison : Preserves P (Region.poison (ρ := ρ))

namespace Emission

variable {ρ : Type} {capacity : Nat} {P : ρ → Prop}

/-- The region of an emission has a property, and the cells that wait for labels lie inside the
capacity. -/
structure Keeping (capacity : Nat) (P : ρ → Prop) (e : Emission ρ) : Prop where
  region : P e.region
  same_capacity : e.context.capacity = capacity
  waiting : ∀ name, ∀ site ∈ e.context.labels.pending name, site.offset < capacity

/-! ### Parts of calls -/

/-- A change of the context that leaves the capacity and the waiting cells alone. -/
theorem modifyContext_preserves {f : Context → Context} (hcap : ∀ c, (f c).capacity = c.capacity)
    (hpending : ∀ c name, ∀ site ∈ (f c).labels.pending name, site ∈ c.labels.pending name) :
    Preserves (Keeping capacity P) (modifyContext f) := by
  intro e h
  exact ⟨h.region, (hcap e.context).trans h.same_capacity,
    fun name site hsite => h.waiting name site (hpending e.context name site hsite)⟩

/-- Looking at the context changes nothing. -/
theorem getContext_preserves : Preserves (Keeping capacity P) (getContext (ρ := ρ)) :=
  fun _ h => h

/-- Looking at the status changes nothing. -/
theorem checkOpen_preserves : Preserves (Keeping capacity P) (checkOpen (ρ := ρ)) := by
  intro e h
  unfold after checkOpen
  by_cases hopen : e.context.status = .open
  · simpa only [if_pos hopen] using h
  · simpa only [if_neg hopen] using h

/-- What an action on the region preserves is preserved with the context around it. -/
theorem onRegion_preserves {α : Type} {x : Action ρ α} (hx : Preserves P x)
    (report : Failure → Failure) : Preserves (Keeping capacity P) (onRegion report x) := by
  intro e h
  unfold after onRegion
  cases hr : x e.region with
  | ok a region =>
    have hregion : P region := hx.ok h.region hr
    exact { h with region := hregion }
  | error cause region =>
    have hregion : P region := hx.error h.region hr
    exact { h with region := hregion }

/-- A use of a label may make its own cell wait, which lies inside the capacity. -/
theorem reference_preserves (name : String) {site : Nat} (hsite : site < capacity)
    (rule : PatchRule) : Preserves (Keeping capacity P) (reference (ρ := ρ) name site rule) := by
  intro e h
  refine ⟨h.region, h.same_capacity, ?_⟩
  intro n s hs
  change s ∈ (e.context.labels.reference name site rule).2.pending n at hs
  rw [LabelTable.pending_reference] at hs
  split at hs
  · rcases List.mem_append.mp hs with hold | hnew
    · exact h.waiting n s hold
    · have heq : s = ⟨site, rule⟩ := by simpa using hnew
      rw [heq]
      exact hsite
  · exact h.waiting n s hs

variable [Region ρ]

/-- Writing a cell inside the capacity is writing it to the region. -/
theorem store_preserves (hP : Region.Upheld capacity P) {offset : Nat} (ho : offset < capacity)
    (v : Cell) : Preserves (Keeping capacity P) (store offset v) :=
  onRegion_preserves (hP.store offset v ho) _

/-- Operands that fit are written one after the other. -/
theorem writeOperands_preserves (hP : Region.Upheld capacity P) :
    (encs : List Encoded) → ∀ {offset : Nat}, offset + encs.length ≤ capacity →
      Preserves (Keeping capacity P) (writeOperands offset encs)
  | [], _, _ => .pure ()
  | .cell v :: rest, offset, hroom => by
    rw [List.length_cons] at hroom
    exact .bind (store_preserves hP (by omega) v) fun _ =>
      writeOperands_preserves hP rest (by omega)
  | .label name rule :: rest, offset, hroom => by
    rw [List.length_cons] at hroom
    exact .bind (reference_preserves name (by omega) rule) fun v =>
      .bind (store_preserves hP (by omega) v) fun _ => writeOperands_preserves hP rest (by omega)

/-- The cells that waited for a label are written one after the other. -/
theorem writeSites_preserves (hP : Region.Upheld capacity P) (labels : LabelTable)
    (target : Nat) {sites : List Site} (hsites : ∀ s ∈ sites, s.offset < capacity) :
    Preserves (Keeping capacity P) (writeSites labels target sites) := by
  induction sites with
  | nil => exact .pure ()
  | cons site rest ih =>
    exact .bind (store_preserves hP (hsites site List.mem_cons_self) _) fun _ =>
      ih fun s hs => hsites s (List.mem_cons_of_mem _ hs)

/-- Traps inside the capacity are written one after the other. -/
theorem fillTraps_preserves (hP : Region.Upheld capacity P) :
    (count : Nat) → ∀ {offset : Nat}, offset + count ≤ capacity →
      Preserves (Keeping capacity P) (fillTraps count offset)
  | 0, _, _ => .pure ()
  | count + 1, offset, hroom =>
    .bind (onRegion_preserves (hP.store offset _ (by omega)) _) fun _ =>
      fillTraps_preserves hP count (by omega)

/-! ### Calls -/

/-- An instruction is written inside the capacity. -/
theorem emitOp_preserves (hP : Region.Upheld capacity P) (symbols? : Option SymbolTable) (op : Op)
    (operands : List Operand) :
    Preserves (Keeping capacity P) (emitOp symbols? op operands) := by
  intro e h
  unfold after
  rw [emitOp_eq]
  by_cases hopen : e.context.status = .open
  · rw [if_pos hopen]
    cases hres : Resolver.resolveAll ⟨e.context.mode, symbols?⟩ op operands with
    | error failure => exact h
    | ok encs =>
      dsimp only
      by_cases hroom : e.context.capacity < e.context.cursor + op.width
      · rw [if_pos hroom]
        exact h
      · rw [if_neg hroom]
        have hlen := Resolver.length_of_resolveAll hres
        have hcap := h.same_capacity
        have hfits : e.context.cursor + 1 + encs.length ≤ capacity := by
          unfold Op.width at hroom
          omega
        have hwrite : Preserves (Keeping capacity P) (do
            store e.context.cursor op.cell
            writeOperands (e.context.cursor + 1) encs
            modifyContext fun c =>
              { c with cursor := c.cursor + op.width, emitted := c.emitted + 1 }) := by
          refine .bind (store_preserves hP (by omega) _) fun _ =>
            .bind (writeOperands_preserves hP encs hfits) fun _ => ?_
          exact modifyContext_preserves (fun _ => rfl) fun _ _ _ hs => hs
        exact hwrite e h
  · rw [if_neg hopen]
    exact h

/-- The instruction of a mnemonic is written inside the capacity. -/
theorem emit_preserves (hP : Region.Upheld capacity P) (symbols? : Option SymbolTable)
    (mnemonic : String) (operands : List Operand) :
    Preserves (Keeping capacity P) (emit symbols? mnemonic operands) := by
  refine .bind checkOpen_preserves fun _ => .bind getContext_preserves fun c => ?_
  exact .bind (.ofExcept _) fun op => emitOp_preserves hP symbols? op operands

/-- A definition writes the cells that waited for it. -/
theorem defineLabel_preserves (hP : Region.Upheld capacity P) (name : String) :
    Preserves (Keeping capacity P) (defineLabel name) := by
  intro e h
  unfold after
  rw [defineLabel_eq]
  by_cases hopen : e.context.status = .open
  · rw [if_pos hopen]
    by_cases hname : Text.isName name
    · rw [if_pos hname]
      cases e.context.labels.offset? name with
      | some offset => exact h
      | none =>
        have hplace : Preserves (Keeping capacity P) (do
            modifyContext fun c => { c with labels := c.labels.define name c.cursor }
            writeSites e.context.labels e.context.cursor (e.context.labels.pending name)
            modifyContext fun c => { c with labels := c.labels.settle name }) := by
          refine .bind (modifyContext_preserves ?_ ?_) fun _ =>
            .bind (writeSites_preserves hP _ _ (h.waiting name)) fun _ =>
              modifyContext_preserves ?_ ?_
          · exact fun _ => rfl
          · intro c n site hsite
            rwa [LabelTable.pending_define] at hsite
          · exact fun _ => rfl
          · intro c n site hsite
            rw [LabelTable.pending_settle] at hsite
            split at hsite
            · cases hsite
            · exact hsite
        exact hplace e h
    · rw [if_neg hname]
      exact h
  · rw [if_neg hopen]
    exact h

/-- Finalizing seals the region. -/
theorem finalize_preserves (hP : Region.Upheld capacity P) :
    Preserves (Keeping capacity P) (finalize (ρ := ρ)) := by
  refine .bind checkOpen_preserves fun _ => .bind getContext_preserves fun c => .refuse ?_
  refine .bind (onRegion_preserves (hP.sealUp c.cursor) _) fun _ =>
    .bind (modifyContext_preserves ?_ ?_) fun _ => .bind .get fun _ => .pure _
  · exact fun _ => rfl
  · exact fun _ _ _ hs => hs

/-- What an emission that is given up does, by its status. -/
theorem discard_eq (e : Emission ρ) :
    discard e = match e.context.status with
      | .discarded => .ok () e
      | .finalized => .error (.notOpen .finalized) e
      | .open => (do
          fillTraps e.context.capacity 0
          onRegion .poisonRefused Region.poison
          modifyContext fun c => { c with status := .discarded }) e := by
  have hget : getContext e = .ok e.context e := rfl
  unfold discard
  rw [bind_of_ok hget]
  cases e.context.status <;> rfl

/-- Giving an emission up fills the region with traps and poisons it. -/
theorem discard_preserves (hP : Region.Upheld capacity P) :
    Preserves (Keeping capacity P) (discard (ρ := ρ)) := by
  intro e h
  unfold after
  rw [discard_eq]
  cases e.context.status with
  | finalized => exact h
  | discarded => exact h
  | «open» =>
    have hsame := h.same_capacity
    have hcap : 0 + e.context.capacity ≤ capacity := by omega
    have hfill : Preserves (Keeping capacity P) (do
        fillTraps e.context.capacity 0
        onRegion .poisonRefused Region.poison
        modifyContext fun c => { c with status := .discarded }) := by
      refine .bind (fillTraps_preserves hP _ hcap) fun _ =>
        .bind (onRegion_preserves hP.poison _) fun _ => ?_
      exact modifyContext_preserves (fun _ => rfl) fun _ _ _ hs => hs
    exact hfill e h

end Emission

/-- Whatever can be asked of an emission. -/
inductive EmissionCall
  /-- Adds to the stream. -/
  | add (call : Call)
  | finalize
  | discard

namespace EmissionCall

variable {ρ : Type} [Region ρ]

/-- The emission after a call, whether it succeeds or fails. -/
def after : EmissionCall → Emission ρ → Emission ρ
  | .add call => call.perform.after
  | .finalize => Emission.finalize.after
  | .discard => Emission.discard.after

/-- **A call to an emission preserves what writing inside, sealing and poisoning preserve.** -/
theorem preserves {capacity : Nat} {P : ρ → Prop} (hP : Region.Upheld capacity P)
    (c : EmissionCall) {e : Emission ρ} (h : e.Keeping capacity P) :
    (c.after e).Keeping capacity P := by
  cases c with
  | add call =>
    cases call with
    | emit symbols? mnemonic operands =>
      exact Emission.emit_preserves hP symbols? mnemonic operands e h
    | emitOp symbols? op operands => exact Emission.emitOp_preserves hP symbols? op operands e h
    | label name => exact Emission.defineLabel_preserves hP name e h
  | finalize => exact Emission.finalize_preserves hP e h
  | discard => exact Emission.discard_preserves hP e h

end EmissionCall

/-! ### Regions that refuse no write -/

/-- A property of regions under which every write inside the capacity is made. -/
def Region.Accepting {ρ : Type} [Region ρ] (capacity : Nat) (P : ρ → Prop) : Prop :=
  ∀ (offset : Nat) (v : Cell) (r : ρ), offset < capacity → P r →
    ∃ r', Region.store (offset : Int) v r = .ok () r' ∧ P r'

namespace Emission

variable {ρ : Type} [Region ρ] {capacity : Nat} {P : ρ → Prop}

/-- A cell inside the capacity is written. -/
theorem exists_store (hP : Region.Accepting capacity P) {e : Emission ρ} (h : P e.region)
    {offset : Nat} (ho : offset < capacity) (v : Cell) :
    ∃ region, store offset v e = .ok () { e with region } ∧ P region := by
  obtain ⟨region, hstore, hregion⟩ := hP offset v e.region ho h
  refine ⟨region, ?_, hregion⟩
  unfold store onRegion
  rw [hstore]

/-- Operands that fit are written. -/
theorem exists_writeOperands (hP : Region.Accepting capacity P) :
    (encs : List Encoded) → ∀ {e : Emission ρ} {offset : Nat}, P e.region →
      offset + encs.length ≤ capacity →
      ∃ e', writeOperands offset encs e = .ok () e' ∧ P e'.region
  | [], e, _, h, _ => ⟨e, rfl, h⟩
  | .cell v :: rest, e, offset, h, hroom => by
    rw [List.length_cons] at hroom
    have hin : offset < capacity := by omega
    have hrest : offset + 1 + rest.length ≤ capacity := by omega
    obtain ⟨region, hstore, hregion⟩ := exists_store hP h hin v
    obtain ⟨e', hrest, he'⟩ := exists_writeOperands hP rest (e := { e with region }) hregion hrest
    exact ⟨e', (bind_of_ok hstore).trans hrest, he'⟩
  | .label name rule :: rest, e, offset, h, hroom => by
    rw [List.length_cons] at hroom
    have hin : offset < capacity := by omega
    have hrest : offset + 1 + rest.length ≤ capacity := by omega
    have href : reference name offset rule e = .ok _ _ := rfl
    obtain ⟨region, hstore, hregion⟩ := exists_store hP
      (e := { e with context :=
        { e.context with labels := (e.context.labels.reference name offset rule).2 } })
      h hin (e.context.labels.reference name offset rule).1
    obtain ⟨e', hrest, he'⟩ := exists_writeOperands hP rest
      (e := { context :=
        { e.context with labels := (e.context.labels.reference name offset rule).2 }, region })
      hregion hrest
    exact ⟨e', (bind_of_ok href).trans ((bind_of_ok hstore).trans hrest), he'⟩

/-- The cells that waited for a label are written if they lie inside the capacity. -/
theorem exists_writeSites (hP : Region.Accepting capacity P) (labels : LabelTable) (target : Nat) :
    (sites : List Site) → ∀ {e : Emission ρ}, P e.region → (∀ s ∈ sites, s.offset < capacity) →
      ∃ e', writeSites labels target sites e = .ok () e' ∧ P e'.region
  | [], e, h, _ => ⟨e, rfl, h⟩
  | site :: rest, e, h, hsites => by
    obtain ⟨region, hstore, hregion⟩ := exists_store hP h (hsites site List.mem_cons_self)
      (labels.operand site.rule target site.offset)
    obtain ⟨e', hrest, he'⟩ := exists_writeSites hP labels target rest (e := { e with region })
      hregion fun s hs => hsites s (List.mem_cons_of_mem _ hs)
    exact ⟨e', (bind_of_ok hstore).trans hrest, he'⟩

/-- Traps inside the capacity are written. -/
theorem exists_fillTraps (hP : Region.Accepting capacity P) :
    (count : Nat) → ∀ {e : Emission ρ} {offset : Nat}, P e.region → offset + count ≤ capacity →
      ∃ region, fillTraps count offset e = .ok () { e with region } ∧ P region
  | 0, e, _, h, _ => ⟨e.region, rfl, h⟩
  | count + 1, e, offset, h, hroom => by
    obtain ⟨region, hstore, hregion⟩ := hP offset Op.trap.cell e.region (by omega) h
    have hon : onRegion (fun cause => .discardRefused (.storeRefused cause))
        (Region.store (offset : Int) Op.trap.cell) e = .ok () { e with region } := by
      unfold onRegion
      rw [hstore]
    have hrest : offset + 1 + count ≤ capacity := by omega
    obtain ⟨last, hrest, hlast⟩ := exists_fillTraps hP count (e := { e with region }) hregion hrest
    exact ⟨last, (bind_of_ok hon).trans hrest, hlast⟩

/-- **An instruction that fails has changed nothing**, on a region that refuses no write; and the
failure is no crash. -/
theorem emitOp_refused (hP : Region.Accepting capacity P) {e e' : Emission ρ} (h : P e.region)
    (hcap : e.context.capacity = capacity) {symbols? : Option SymbolTable} {op : Op}
    {operands : List Operand} {failure : Failure}
    (hrun : emitOp symbols? op operands e = .error failure e') :
    e' = e ∧ failure.crashed = false := by
  rw [emitOp_eq] at hrun
  by_cases hopen : e.context.status = .open
  · rw [if_pos hopen] at hrun
    cases hres : Resolver.resolveAll ⟨e.context.mode, symbols?⟩ op operands with
    | error cause =>
      rw [hres] at hrun
      cases hrun
      exact ⟨rfl, (Resolver.resolveAll_reports _ op operands _ hres).uncrashed⟩
    | ok encs =>
      rw [hres] at hrun
      by_cases hroom : e.context.capacity < e.context.cursor + op.width
      · simp only [if_pos hroom] at hrun
        cases hrun
        exact ⟨rfl, rfl⟩
      · -- nothing is left to fail: the opcode and the operands are all inside the capacity
        simp only [if_neg hroom] at hrun
        have hlen := Resolver.length_of_resolveAll hres
        unfold Op.width at hroom
        have hin : e.context.cursor < capacity := by omega
        have hrest : e.context.cursor + 1 + encs.length ≤ capacity := by omega
        obtain ⟨region, hstore, hregion⟩ := exists_store hP h hin op.cell
        obtain ⟨e₁, hwrite, -⟩ :=
          exists_writeOperands hP encs (e := { e with region }) hregion hrest
        unfold writeInstruction at hrun
        rw [bind_of_ok hstore, bind_of_ok hwrite] at hrun
        cases hrun
  · rw [if_neg hopen] at hrun
    cases hrun
    exact ⟨rfl, rfl⟩

/-- The instruction of a mnemonic that fails has changed nothing, on a region that refuses no
write. -/
theorem emit_refused (hP : Region.Accepting capacity P) {e e' : Emission ρ} (h : P e.region)
    (hcap : e.context.capacity = capacity) {symbols? : Option SymbolTable} {mnemonic : String}
    {operands : List Operand} {failure : Failure}
    (hrun : emit symbols? mnemonic operands e = .error failure e') :
    e' = e ∧ failure.crashed = false := by
  rw [emit_eq] at hrun
  by_cases hopen : e.context.status = .open
  · rw [if_pos hopen] at hrun
    cases hop : Resolver.chooseOp ⟨e.context.mode, symbols?⟩ mnemonic operands with
    | error cause =>
      rw [hop] at hrun
      cases hrun
      have hreport : failure.Report False := Resolver.chooseOp_reports _ mnemonic operands _ hop
      exact ⟨rfl, hreport.uncrashed⟩
    | ok op =>
      rw [hop] at hrun
      exact emitOp_refused hP h hcap hrun
  · rw [if_neg hopen] at hrun
    cases hrun
    exact ⟨rfl, rfl⟩

/-- **A definition that fails has changed nothing**, on a region that refuses no write. -/
theorem defineLabel_refused (hP : Region.Accepting capacity P) {e e' : Emission ρ}
    (h : P e.region) {name : String}
    (hwaiting : ∀ s ∈ e.context.labels.pending name, s.offset < capacity) {failure : Failure}
    (hrun : defineLabel name e = .error failure e') : e' = e ∧ failure.crashed = false := by
  rw [defineLabel_eq] at hrun
  split at hrun
  · split at hrun
    · split at hrun
      · cases hrun
        exact ⟨rfl, rfl⟩
      · unfold placeLabel at hrun
        have hdefine : modifyContext
            (fun c => { c with labels := c.labels.define name c.cursor }) e = .ok () _ := rfl
        obtain ⟨e₁, hsites, -⟩ := exists_writeSites hP e.context.labels e.context.cursor
          (e.context.labels.pending name)
          (e := { e with context :=
            { e.context with labels := e.context.labels.define name e.context.cursor } })
          h hwaiting
        rw [bind_of_ok hdefine, bind_of_ok hsites] at hrun
        cases hrun
    · cases hrun
      exact ⟨rfl, rfl⟩
  · cases hrun
    exact ⟨rfl, rfl⟩

end Emission

end CellMachine
