import CellMachine.Proofs.Emission.Decoding

/-!
# Routines built from blocks

A block is an emission inside a program: its conditionals decide which calls reach the emission,
and variables can be declared while it is open. None of that touches what the emission has written.

* `BlockCall` — what can be done while a block is open; `Worksite.runCalls` does one thing after the
  other and records the calls that were carried out by the emission.
* `Worksite.tracks_run` — the invariant of the emission holds along such a run.
* `Worksite.appended_of_finalizes` — finalizing a block appends the cells of its finished stream to
  the program.
* `Program.FromBlocks` — the program is inside a routine that has been built from blocks alone.
* `Program.FromBlocks.stretch` — **such a routine is read as whole instructions**, up to its end.
-/

namespace CellMachine

/-! ### Calls while a block is open -/

/-- What can be done while a block is open. -/
inductive BlockCall
  | emit (mnemonic : String) (operands : List Operand)
  | emitOp (op : Op) (operands : List Operand)
  | label (name : String)
  /-- A call to the emission itself, whatever branch is selected. -/
  | direct (call : Call)
  | openIf (cond : Bool)
  | elseIf (cond : Bool)
  | elseLast
  | endIf
  /-- Variables are declared, or frames of variables opened and closed. -/
  | rescope (scope : Scope)

namespace BlockCall

/-- Makes the call. -/
def perform : BlockCall → Action Worksite Unit
  | .emit mnemonic operands => Worksite.emit mnemonic operands
  | .emitOp op operands => Worksite.emitOp op operands
  | .label name => Worksite.label name
  | .direct call => Worksite.onEmission call.perform
  | .openIf cond => modify fun w => { w with block := w.block.openIf cond }
  | .elseIf cond => Worksite.onBlock (Block.elseIf cond)
  | .elseLast => Worksite.onBlock Block.elseLast
  | .endIf => Worksite.onBlock Block.endIf
  | .rescope scope => modify fun w => { w with program := { w.program with scope } }

/-- The call of the emission that a call of the block comes to, if there is one and its branch is
selected. -/
def reaching? (w : Worksite) : BlockCall → Option Call
  | .emit mnemonic operands =>
    if w.block.active then some (.emit w.symbols mnemonic operands) else none
  | .emitOp op operands => if w.block.active then some (.emitOp w.symbols op operands) else none
  | .label name => if w.block.active then some (.label name) else none
  | .direct call => some call
  | _ => none

end BlockCall

namespace Worksite

/-- Makes calls one after the other and records those that the emission has carried out. -/
def runCalls : List BlockCall → Worksite → Except Failure (List Done × Worksite) :=
  Action.runAll BlockCall.perform fun call w =>
    ((call.reaching? w).map fun c => ⟨w.block.context.cursor, c⟩).toList

/-! ### What one call does -/

/-- What ends well on the emission of a block. -/
theorem onEmission_ok {α : Type} {action : Action (Emission Placement) α} {w w' : Worksite} {a : α}
    (h : onEmission action w = .ok a w') :
    ∃ e, action w.emission = .ok a e ∧ w' = w.ofEmission e := by
  unfold onEmission at h
  split at h
  · next e he =>
    cases h
    exact ⟨e, he, rfl⟩
  · cases h

/-- What fails on the emission of a block. -/
theorem onEmission_error {α : Type} {action : Action (Emission Placement) α} {w w' : Worksite}
    {failure : Failure} (h : onEmission action w = .error failure w') :
    ∃ e, action w.emission = .error failure e ∧ w' = w.ofEmission e := by
  unfold onEmission at h
  split at h
  · cases h
  · next e he =>
    cases h
    exact ⟨e, he, rfl⟩

/-- What depends on whether the branch is selected. -/
theorem ifActive_eq (f : Worksite → Action Worksite Unit) (g : Action Worksite Unit)
    (w : Worksite) :
    (do
      let w ← get
      if w.block.active then f w else g : Action Worksite Unit) w =
      if w.block.active then f w w else g w := by
  refine (Action.bind_of_ok rfl).trans ?_
  split
  · rfl
  · rfl

/-- Nothing happened that concerns the emission: at most levels, counters and variables differ. -/
structure Aside (w w' : Worksite) : Prop where
  context : w'.block.context = w.block.context
  segment : w'.block.segment = w.block.segment
  program : w'.program.withoutScope = w.program.withoutScope

end Worksite

namespace Block

/-- The action changes the levels of conditionals alone, and nothing if it is refused. -/
def SetsLevels (action : Action Block Unit) : Prop :=
  ∀ b, (∃ failure, action b = .error failure b) ∨ ∃ levels, action b = .ok () { b with levels }

/-- Going on to the next branch changes the levels alone. -/
theorem setsLevels_elseIf (cond : Bool) : SetsLevels (elseIf cond) := by
  intro b
  unfold elseIf
  split
  · exact .inl ⟨_, rfl⟩
  · split
    · exact .inl ⟨_, rfl⟩
    · exact .inr ⟨_, rfl⟩

/-- Going on to the last branch changes the levels alone. -/
theorem setsLevels_elseLast : SetsLevels elseLast := by
  intro b
  unfold elseLast
  split
  · exact .inl ⟨_, rfl⟩
  · split
    · exact .inl ⟨_, rfl⟩
    · exact .inr ⟨_, rfl⟩

/-- Closing a level changes the levels alone. -/
theorem setsLevels_endIf : SetsLevels endIf := by
  intro b
  unfold endIf
  split
  · exact .inl ⟨_, rfl⟩
  · exact .inr ⟨_, rfl⟩

/-- On a worksite, too, such an action changes the levels alone. -/
theorem SetsLevels.onBlock {action : Action Block Unit} (h : SetsLevels action) (w : Worksite) :
    (∃ failure, Worksite.onBlock action w = .error failure w) ∨
      ∃ levels, Worksite.onBlock action w =
        .ok () { w with block := { w.block with levels } } := by
  unfold Worksite.onBlock
  rcases h w.block with ⟨failure, herror⟩ | ⟨levels, hok⟩
  · rw [herror]
    exact .inl ⟨failure, rfl⟩
  · rw [hok]
    exact .inr ⟨levels, rfl⟩

end Block

namespace BlockCall

/-- The calls that reach the emission as long as their branch is selected. -/
theorem perform_of_reaching {call : BlockCall} {w : Worksite} {c : Call}
    (h : call.reaching? w = some c) : call.perform w = Worksite.onEmission c.perform w := by
  cases call with
  | emit mnemonic operands | emitOp op operands | label name =>
    simp only [reaching?] at h
    split at h
    · next hactive =>
      cases h
      exact (Worksite.ifActive_eq ..).trans (if_pos hactive)
    · cases h
  | direct call =>
    cases h
    rfl
  | openIf _ | elseIf _ | elseLast | endIf | rescope _ => cases h

/-- A call that does not reach the emission does not concern it, and changes nothing if it is
refused. -/
theorem aside_of_reaching {call : BlockCall} {w : Worksite} (hnone : call.reaching? w = none) :
    (∃ failure, call.perform w = .error failure w) ∨
      ∃ w', call.perform w = .ok () w' ∧ w.Aside w' := by
  have hlevels {action : Action Block Unit} (h : Block.SetsLevels action) :
      (∃ failure, Worksite.onBlock action w = .error failure w) ∨
        ∃ w', Worksite.onBlock action w = .ok () w' ∧ w.Aside w' := by
    rcases h.onBlock w with herror | ⟨levels, hok⟩
    · exact .inl herror
    · exact .inr ⟨_, hok, rfl, rfl, rfl⟩
  cases call with
  | emit mnemonic operands | emitOp op operands | label name =>
    simp only [reaching?] at hnone
    split at hnone
    · cases hnone
    · next hactive =>
      refine .inr ⟨_, (Worksite.ifActive_eq ..).trans (if_neg hactive), ?_⟩
      exact ⟨rfl, rfl, rfl⟩
  | direct call => cases hnone
  | openIf cond => exact .inr ⟨_, rfl, rfl, rfl, rfl⟩
  | elseIf cond => exact hlevels (Block.setsLevels_elseIf cond)
  | elseLast => exact hlevels Block.setsLevels_elseLast
  | endIf => exact hlevels Block.setsLevels_endIf
  | rescope scope => exact .inr ⟨_, rfl, rfl, rfl, rfl⟩

end BlockCall

/-- Two programs have the same code and are inside the same routine. -/
structure Program.SameCode (p p' : Program) : Prop where
  codeBase : p'.codeBase = p.codeBase
  code : p'.code = p.code
  current : p'.current? = p.current?

/-- Programs that differ in their variables alone have the same code. -/
theorem Program.SameCode.of_withoutScope {p p' : Program} (h : p'.withoutScope = p.withoutScope) :
    p.SameCode p' := by
  have hbase := congrArg Program.codeBase h
  have hcode := congrArg Program.code h
  have hcurrent := congrArg Program.current? h
  exact ⟨hbase, hcode, hcurrent⟩

/-! ### What a run of calls does -/

namespace Worksite

variable {region : Placement} {log : List Done} {items : List Item} {w w' : Worksite}

/-- What does not concern the emission keeps its invariant. -/
theorem Aside.tracks (haside : w.Aside w') (h : Tracks .static region log items w.emission) :
    Tracks .static region log items w'.emission := by
  have hregion : w'.emission.region = ⟨w.block.segment, w'.program⟩ := by
    show (⟨w'.block.segment, w'.program⟩ : Placement) = _
    rw [haside.segment]
  have hemission : w'.emission = { w.emission with region := w'.emission.region } := by
    show Emission.mk w'.block.context _ = Emission.mk w.block.context _
    rw [haside.context]
    rfl
  rw [hemission, hregion]
  refine h.of_region ⟨⟨rfl, rfl, rfl⟩, ?_⟩ h.writable fun _ _ => rfl
  exact Prod.ext rfl haside.program

/-- A call keeps the invariant of the emission; the log grows if the call reaches the emission. -/
theorem tracks_perform (h : Tracks .static region log items w.emission) {call : BlockCall}
    (hcall : call.perform w = .ok () w') :
    ∃ items', Tracks .static region
      (log ++ ((call.reaching? w).map fun c => ⟨w.block.context.cursor, c⟩).toList) items'
      w'.emission := by
  rcases hreach : call.reaching? w with _ | c
  · rcases BlockCall.aside_of_reaching hreach with ⟨failure, herror⟩ | ⟨w₁, hok, haside⟩
    · rw [herror] at hcall
      cases hcall
    · rw [hok] at hcall
      cases hcall
      refine ⟨items, ?_⟩
      show Tracks .static region (log ++ []) items w'.emission
      rw [List.append_nil]
      exact haside.tracks h
  · rw [BlockCall.perform_of_reaching hreach] at hcall
    obtain ⟨e, he, rfl⟩ := onEmission_ok hcall
    obtain ⟨item, h'⟩ := h.perform he
    exact ⟨_, h'⟩

/-- A call that is refused changes nothing. -/
theorem tracks_refused (h : Tracks .static region log items w.emission) {call : BlockCall}
    {failure : Failure} (hcall : call.perform w = .error failure w') :
    failure.crashed ∨ w' = w := by
  rcases hreach : call.reaching? w with _ | c
  · rcases BlockCall.aside_of_reaching hreach with ⟨failure', herror⟩ | ⟨w₁, hok, _⟩
    · rw [herror] at hcall
      cases hcall
      exact .inr rfl
    · rw [hok] at hcall
      cases hcall
  · rw [BlockCall.perform_of_reaching hreach] at hcall
    obtain ⟨e, he, rfl⟩ := onEmission_error hcall
    rcases h.refused he with hcrash | rfl
    · exact .inl hcrash
    · exact .inr rfl

/-- **The invariant of the emission holds along a run of calls.** -/
theorem tracks_run {calls : List BlockCall} {more : List Done}
    (hrun : runCalls calls w = .ok (more, w')) (h : Tracks .static region log items w.emission) :
    ∃ items', Tracks .static region (log ++ more) items' w'.emission := by
  refine Action.runAll_preserves
    (P := fun log w => ∃ items, Tracks .static region log items w.emission) ?_ ?_ calls hrun
    ⟨items, h⟩
  · rintro log w w' call ⟨items, h⟩ hcall
    exact tracks_perform h hcall
  · rintro log w w' call failure ⟨items, h⟩ hcall
    exact tracks_refused h hcall

/-! ### Opening and closing -/

/-- A block that was just opened has an emission that was just started, at the end of the code and
inside the current routine. -/
theorem openBlock_ok {capacity : Int} {p p' : Program} {b : Block}
    (h : Program.openBlock capacity p = .ok b p') :
    ∃ r, p.current? = some r ∧ p' = { p with openBlock? := some p.blocks, blocks := p.blocks + 1 } ∧
      b.segment.entry = r.base ∧ b.segment.buffer.base = p.here ∧
      LawfulRegion.Writable b.segment.buffer ∧
      (⟨b, p'⟩ : Worksite).emission = Emission.start .static ⟨b.segment, p'⟩ := by
  unfold Program.openBlock at h
  split at h
  · cases h
  · next r hr =>
    split at h
    · cases h
    · split at h
      · cases h
      · next buffer hbuffer =>
        cases h
        unfold Buffer.new at hbuffer
        rcases hcells : zeroCells (if capacity ≤ 0 then defaultBlockCells else capacity) with f | cs
        · rw [hcells] at hbuffer
          cases hbuffer
        · rw [hcells] at hbuffer
          cases hbuffer
          exact ⟨r, hr, rfl, rfl, rfl, rfl, rfl⟩

/-- The block is finalized: it is closed, or its emission is finalized directly. -/
def Finalizes (w : Worksite) (routine : Routine) (w' : Worksite) : Prop :=
  close w = .ok routine w' ∨ onEmission Emission.finalize w = .ok routine w'

/-- Finalizing a block finalizes its emission. -/
theorem Finalizes.emission {routine : Routine} (h : w.Finalizes routine w') :
    ∃ e, Emission.finalize w.emission = .ok routine e ∧ e.region.program.SameCode w'.program := by
  rcases h with h | h
  · unfold close at h
    obtain ⟨w₁, w₂, hget, h⟩ := Action.ok_of_bind h
    cases hget
    rcases hlevels : w.block.levels with _ | ⟨level, levels⟩
    · simp only [hlevels, List.isEmpty_nil, Bool.not_true, Bool.false_eq_true, if_false] at h
      obtain ⟨r, w₃, hfin, h⟩ := Action.ok_of_bind h
      obtain ⟨e, he, rfl⟩ := onEmission_ok hfin
      cases h
      exact ⟨e, he, rfl, rfl, rfl⟩
    · simp only [hlevels, List.isEmpty_cons, Bool.not_false, if_true] at h
      obtain ⟨⟨⟩, w₃, hthrow, _⟩ := Action.ok_of_bind h
      cases hthrow
  · obtain ⟨e, he, rfl⟩ := onEmission_ok h
    exact ⟨e, he, rfl, rfl, rfl⟩

/-- Filling a segment with traps leaves the program alone. -/
theorem fillTraps_program : (count : Nat) → ∀ {offset : Nat} {e e' : Emission Placement},
    Emission.fillTraps count offset e = .ok () e' → e'.region.program = e.region.program
  | 0, _, _, _, h => by
    cases h
    rfl
  | count + 1, offset, e, e', h => by
    obtain ⟨⟨⟩, e₁, hstore, h⟩ := Action.ok_of_bind h
    refine (fillTraps_program count h).trans ?_
    unfold Emission.onRegion at hstore
    split at hstore
    · next region hregion =>
      cases hstore
      obtain ⟨buffer, _, rfl⟩ := Placement.onBuffer_ok hregion
      rfl
    · cases hstore

/-- Giving up an open emission leaves the program alone. -/
theorem discard_program {e e' : Emission Placement} (h : Emission.discard e = .ok () e') :
    e'.region.program = e.region.program := by
  unfold Emission.discard at h
  obtain ⟨c, e₁, hget, h⟩ := Action.ok_of_bind h
  cases hget
  rcases hstatus : e.context.status
  all_goals simp only [hstatus] at h
  case discarded =>
    cases h
    rfl
  case finalized => cases h
  case «open» =>
    obtain ⟨⟨⟩, e₂, hfill, h⟩ := Action.ok_of_bind h
    obtain ⟨⟨⟩, e₃, hpoison, h⟩ := Action.ok_of_bind h
    cases h
    show e₃.region.program = e.region.program
    rw [← fillTraps_program _ hfill]
    unfold Emission.onRegion at hpoison
    split at hpoison
    · next region hregion =>
      cases hpoison
      obtain ⟨buffer, _, rfl⟩ := Placement.onBuffer_ok hregion
      rfl
    · cases hpoison

/-- Giving up a block leaves the code alone. -/
theorem sameCode_of_discard (h : discard w = .ok () w') : w.program.SameCode w'.program := by
  unfold discard at h
  obtain ⟨⟨⟩, w₁, hmodify, h⟩ := Action.ok_of_bind h
  have hw₁ : w₁ = if w.program.openBlock? = some w.block.id then
      { w with program := { w.program with openBlock? := none } } else w := by
    cases hmodify
    rfl
  obtain ⟨e, he, rfl⟩ := onEmission_ok h
  have hprogram : e.region.program = w₁.program := discard_program he
  show w.program.SameCode e.region.program
  rw [hprogram, hw₁]
  by_cases hopen : w.program.openBlock? = some w.block.id
  · rw [if_pos hopen]
    exact ⟨rfl, rfl, rfl⟩
  · rw [if_neg hopen]
    exact ⟨rfl, rfl, rfl⟩

/-- A sealed buffer hands over the cells that were written to it. -/
theorem contents_eq {buffer : Buffer} {length : Nat} {contents : Array Cell} {cells : List Cell}
    (h : Buffer.contents { buffer with sealed? := some (length : Int) } = .ok contents)
    (hlength : cells.length = length)
    (hload : ∀ (i : Nat) v, cells[i]? = some v → buffer.load i = .ok v) :
    contents = cells.toArray := by
  have hcell {i : Nat} {v : Cell} (hi : cells[i]? = some v) : buffer.cells[i]? = some v := by
    have hv := hload i v hi
    rw [Buffer.load_natCast] at hv
    rcases hc : buffer.cells[i]? with _ | c
    · rw [hc] at hv
      cases hv
    · rw [hc] at hv
      cases hv
      rfl
  simp only [Buffer.contents] at h
  split at h
  · next hfits =>
    cases h
    refine Array.ext_getElem? fun i => ?_
    have hright : cells.toArray[i]? = cells[i]? := List.getElem?_toArray ..
    rw [hright, Array.getElem?_extract, Nat.zero_add, Int.toNat_natCast]
    by_cases hi : i < cells.length
    · have hlast := List.getElem?_eq_getElem hi
      rw [hlast, ← hcell hlast, if_pos (by omega)]
    · have hnone : cells[i]? = none := List.getElem?_eq_none (by omega)
      rw [hnone, if_neg (by omega)]
  · cases h

/-- **Finalizing a block appends its finished stream to the program.** -/
theorem appended_of_finalizes (h : Tracks .static region log items w.emission) {routine : Routine}
    (hfin : w.Finalizes routine w') :
    ∃ cells e, Finished .static region log items cells routine (e : Emission Placement) ∧
      (w.program.append cells.toArray).SameCode w'.program := by
  obtain ⟨e, hfin, hsame⟩ := hfin.emission
  obtain ⟨cells, hfinished⟩ := h.finished hfin
  refine ⟨cells, e, hfinished, ?_⟩
  obtain ⟨_, hseal, _, hroutine⟩ := Emission.finalize_ok hfin
  obtain ⟨contents, _, hcontents, hregion⟩ := Placement.sealUp_ok hseal
  have hlength : cells.length = w.emission.context.cursor := by
    rw [← hfinished.length, hroutine]
  have heq : contents = cells.toArray := by
    refine contents_eq hcontents hlength fun i v hi => ?_
    have hload := hfinished.written i v hi
    rw [hregion] at hload
    exact hload
  rw [hregion, heq] at hsame
  exact hsame

end Worksite

/-! ### Routines built from blocks -/

namespace Program

/-- The program is inside a routine that was begun in `p₀` and has been built from blocks alone. In
between anything may have happened that left the code alone: variables were declared, or a block
was given up. -/
inductive FromBlocks (p₀ : Program) : Program → Prop
  | begin {name : String} {p : Program} (h : beginRoutine name p₀ = .ok () p) : FromBlocks p₀ p
  | aside {p p' : Program} (before : FromBlocks p₀ p) (h : p.SameCode p') : FromBlocks p₀ p'
  | block {capacity : Int} {calls : List BlockCall} {log : List Done} {p p₁ : Program} {b : Block}
      {w w' : Worksite} {routine : Routine} (before : FromBlocks p₀ p)
      (hopen : openBlock capacity p = .ok b p₁)
      (hrun : Worksite.runCalls calls ⟨b, p₁⟩ = .ok (log, w))
      (hfin : w.Finalizes routine w') : FromBlocks p₀ w'.program

/-- The cells of the routine that was begun in `p₀`, which are whole instructions. -/
structure Stretch (p₀ p : Program) (cells : List Cell) : Prop where
  codeBase : p.codeBase = p₀.codeBase
  code : p.code = p₀.code ++ cells.toArray
  current : ∃ name, p.current? = some { name, base := p₀.here }
  whole : ∀ after, ∃ ds, Reader.Reads { cells := cells ++ after } ds
    { cells := cells ++ after, pos := cells.length }

namespace Stretch

variable {p₀ p p' : Program} {cells : List Cell}

/-- The place behind the routine. -/
theorem here (h : Stretch p₀ p cells) : p.here = p₀.here + Int64.ofNat cells.length := by
  unfold Program.here
  rw [h.codeBase, h.code, Array.size_append, Int64.ofNat_add, ← Int64.add_assoc]
  rfl

/-- What leaves the code alone leaves the cells of the routine alone. -/
theorem of_sameCode (h : Stretch p₀ p cells) (hsame : p.SameCode p') : Stretch p₀ p' cells where
  codeBase := hsame.codeBase.trans h.codeBase
  code := hsame.code.trans h.code
  current := hsame.current ▸ h.current
  whole := h.whole

/-- A routine that has just begun has no cells. -/
theorem begin {name : String} (h : beginRoutine name p₀ = .ok () p) : Stretch p₀ p [] := by
  unfold beginRoutine at h
  split at h
  · cases h
  · split at h
    · cases h
    · cases h
      exact
        { codeBase := rfl
          code := Array.append_empty.symm
          current := ⟨name, rfl⟩
          whole := fun after => ⟨[], .nil _⟩ }

/-- A block that is opened behind a routine starts an emission there. The distance from the start
of the routine is that of its cells. -/
theorem openBlock (h : Stretch p₀ p cells) {capacity : Int} {b : Block}
    (hopen : Program.openBlock capacity p = .ok b p') :
    Tracks .static (Placement.mk b.segment p') [] [] (Worksite.mk b p').emission ∧
      Region.base (Placement.mk b.segment p') = p₀.here + Int64.ofNat cells.length ∧
      Int64.ofInt (Region.origin (Placement.mk b.segment p')) = Int64.ofNat cells.length ∧
      Stretch p₀ p' cells := by
  obtain ⟨r, hr, rfl, hentry, hbase, hw, hstart⟩ := Worksite.openBlock_ok hopen
  obtain ⟨name, hname⟩ := h.current
  have hr' : r.base = p₀.here := by
    rw [hname] at hr
    cases hr
    rfl
  have hbase' : b.segment.buffer.base = p₀.here + Int64.ofNat cells.length := hbase.trans h.here
  refine ⟨?_, hbase', ?_, h.of_sameCode ⟨rfl, rfl, rfl⟩⟩
  · rw [hstart]
    exact Tracks.start .static hw
  · show Int64.ofInt (b.segment.buffer.base - b.segment.entry).toInt = _
    rw [Int64.ofInt_toInt, hbase', hentry, hr']
    grind

/-- A finished stream adds whole instructions. -/
theorem append (h : Stretch p₀ p cells) {region : Placement} {log : List Done}
    {items : List Item} {more : List Cell} {routine : Routine} {e : Emission Placement}
    (hfinished : Finished .static region log items more routine e) :
    Stretch p₀ (p.append more.toArray) (cells ++ more) where
  codeBase := h.codeBase
  code := by
    have hmore : cells.toArray ++ more.toArray = (cells ++ more).toArray := List.append_toArray ..
    show p.code ++ more.toArray = _
    rw [h.code, ← hmore, Array.append_assoc]
  current := h.current
  whole after := by
    obtain ⟨ds₁, hreads₁⟩ := h.whole (more ++ after)
    obtain ⟨ds₂, hreads₂, _⟩ := hfinished.recorded.reads hfinished.assembled cells
      (Nat.add_zero _).symm after
    refine ⟨ds₁ ++ ds₂, ?_⟩
    rw [List.append_assoc, List.length_append]
    exact hreads₁.append hreads₂

/-- A block that is opened behind a routine, worked on and finalized adds its finished stream. -/
theorem block (h : Stretch p₀ p cells) {capacity : Int} {calls : List BlockCall} {log : List Done}
    {b : Block} {w w' : Worksite} {routine : Routine}
    (hopen : Program.openBlock capacity p = .ok b p')
    (hrun : Worksite.runCalls calls ⟨b, p'⟩ = .ok (log, w)) (hfin : w.Finalizes routine w') :
    ∃ items more e,
      Finished .static (Placement.mk b.segment p') log items more routine
        (e : Emission Placement) ∧
      Stretch p₀ w'.program (cells ++ more) := by
  obtain ⟨htracks, _, _, hopened⟩ := h.openBlock hopen
  obtain ⟨items, htracks'⟩ := Worksite.tracks_run hrun htracks
  obtain ⟨more, e, hfinished, hsame⟩ := Worksite.appended_of_finalizes htracks' hfin
  have hprogram : w.program.withoutScope = p'.withoutScope :=
    congrArg Prod.snd htracks'.kept.surroundings
  refine ⟨items, more, e, hfinished, Stretch.of_sameCode ?_ hsame⟩
  exact (hopened.of_sameCode (.of_withoutScope hprogram)).append hfinished

end Stretch

/-- **A routine that was built from blocks is read as whole instructions**, up to its end. -/
theorem FromBlocks.stretch {p₀ p : Program} (h : FromBlocks p₀ p) :
    ∃ cells, Stretch p₀ p cells := by
  induction h with
  | begin h => exact ⟨[], .begin h⟩
  | aside _ h ih =>
    obtain ⟨cells, hcells⟩ := ih
    exact ⟨cells, hcells.of_sameCode h⟩
  | block _ hopen hrun hfin ih =>
    obtain ⟨cells, hcells⟩ := ih
    obtain ⟨items, more, e, _, hmore⟩ := hcells.block hopen hrun hfin
    exact ⟨cells ++ more, hmore⟩

/-- A block that was given up leaves the routine one that is built from blocks. -/
theorem FromBlocks.discard {p₀ p p₁ : Program} (h : FromBlocks p₀ p) {capacity : Int}
    {calls : List BlockCall} {log : List Done} {b : Block} {w w' : Worksite}
    (hopen : openBlock capacity p = .ok b p₁)
    (hrun : Worksite.runCalls calls ⟨b, p₁⟩ = .ok (log, w))
    (hdiscard : Worksite.discard w = .ok () w') : FromBlocks p₀ w'.program := by
  obtain ⟨cells, hcells⟩ := h.stretch
  obtain ⟨htracks, _⟩ := hcells.openBlock hopen
  obtain ⟨items, htracks'⟩ := Worksite.tracks_run hrun htracks
  have hprogram : w.program.withoutScope = p₁.withoutScope :=
    congrArg Prod.snd htracks'.kept.surroundings
  have hp₁ : p.SameCode p₁ := by
    obtain ⟨r, _, rfl, _⟩ := Worksite.openBlock_ok hopen
    exact ⟨rfl, rfl, rfl⟩
  have hworked : FromBlocks p₀ w.program := .aside (h.aside hp₁) (.of_withoutScope hprogram)
  exact hworked.aside (Worksite.sameCode_of_discard hdiscard)

end Program

end CellMachine
