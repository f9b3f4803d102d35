import CellMachine.Proofs.Patch.Body
import CellMachine.Proofs.Program.Blocks

/-!
# Blocks and the programs around them

While a block is open its segment is detached from the program: what is emitted goes to the segment,
and the program can change in the meantime. Only sealing brings the two together again. So an open
block is described without its program, and goes on working in any program.

* `Placement.Detached` — a segment of some size leaves the program alone until it is sealed.
* `Block.Working` — a block is open in a routine and has carried out some calls.
* `Block.Working.perform`, `Block.Working.refused` — calls to the block leave the program alone, and
  a call that is refused leaves the block alone as well.
* `Block.Working.finalize_ok` — **finalizing appends the assembled calls to the program.**
* `Block.Working.finalize_error` — a block that cannot be finalized goes on as before.
* `Block.Working.exists_discard` — an open block can always be given up.
* `Worksite.close_cases`, `Worksite.discard_closes` — what closing and giving up come to.
-/

namespace CellMachine

open CellMachine.Action

/-! ### Segments -/

namespace Placement

/-- A segment has `n` cells, and its program is `p` as long as it is not sealed. -/
structure Detached (n : Nat) (p : Program) (s : Placement) : Prop where
  size : s.segment.buffer.cells.size = n
  program : s.segment.buffer.sealed? = none → s.program = p

variable {n : Nat} {p : Program} {s s' : Placement}

/-- What leaves the size and the seal of a buffer alone leaves its segment detached. -/
theorem onBuffer_preserves {action : Action Buffer Unit}
    (h : ∀ b, (action.after b).cells.size = b.cells.size ∧ (action.after b).sealed? = b.sealed?) :
    Preserves (Detached n p) (onBuffer action) := by
  intro s hs
  have hafter : (onBuffer action).after s =
      { s with segment := { s.segment with buffer := action.after s.segment.buffer } } := by
    unfold after onBuffer
    cases action s.segment.buffer with
    | ok => rfl
    | error => rfl
  obtain ⟨hsize, hsealed⟩ := h s.segment.buffer
  rw [hafter]
  exact ⟨hsize.trans hs.size, fun hopen => hs.program (hsealed.symm.trans hopen)⟩

/-- A write leaves the size and the seal of a buffer alone. -/
theorem store_after (offset : Int) (v : Cell) (b : Buffer) :
    ((Buffer.store offset v).after b).cells.size = b.cells.size ∧
      ((Buffer.store offset v).after b).sealed? = b.sealed? := by
  unfold after Buffer.store
  cases b.refusal? with
  | some failure => exact ⟨rfl, rfl⟩
  | none =>
    by_cases h : 0 ≤ offset ∧ offset.toNat < b.cells.size
    · simp [h]
    · simp [h]

/-- Poisoning leaves the size and the seal of a buffer alone. -/
theorem poison_after (b : Buffer) :
    (Buffer.poison.after b).cells.size = b.cells.size ∧
      (Buffer.poison.after b).sealed? = b.sealed? := by
  unfold after Buffer.poison
  by_cases h : b.sealed?.isSome
  · simp [h]
  · simp [h]

/-- A buffer that is open is sealed. -/
theorem onBuffer_sealUp {length : Int}
    (hopen : ¬(s.segment.buffer.sealed?.isSome ∨ s.segment.buffer.poisoned)) :
    onBuffer (Buffer.sealUp length) s = .ok () { s with segment :=
      { s.segment with buffer := { s.segment.buffer with sealed? := some length } } } := by
  unfold onBuffer Buffer.sealUp
  rw [if_neg hopen]

/-- Sealing leaves a segment as it was, or makes it one that is sealed. -/
theorem sealUp_preserves (length : Int) : Preserves (Detached n p) (sealUp length) := by
  intro s hs
  unfold after
  rw [sealUp_eq]
  by_cases hhere : s.program.here ≠ s.segment.buffer.base
  · rw [if_pos hhere]
    exact hs
  rw [if_neg hhere]
  by_cases hclosed : s.segment.buffer.sealed?.isSome ∨ s.segment.buffer.poisoned
  · have hseal : onBuffer (Buffer.sealUp length) s =
        .error (.bufferReleased s.segment.buffer.base) s := by
      unfold onBuffer Buffer.sealUp
      rw [if_pos hclosed]
    rw [hseal]
    exact hs
  · rw [onBuffer_sealUp hclosed]
    dsimp only
    cases Buffer.contents { s.segment.buffer with sealed? := some length } with
    | error failure => exact ⟨hs.size, fun hopen => by cases hopen⟩
    | ok cells => exact ⟨hs.size, fun hopen => by cases hopen⟩

/-- A detached segment stays one, whatever an emission does to it. -/
theorem upheld_detached (n : Nat) (p : Program) : Region.Upheld n (Detached n p) where
  store offset v _ := onBuffer_preserves (store_after offset v)
  sealUp := sealUp_preserves
  poison := onBuffer_preserves poison_after

/-- A detached segment that is open takes every write inside it. -/
theorem accepting_detached (n : Nat) (p : Program) :
    Region.Accepting n fun s => Detached n p s ∧ LawfulRegion.Writable s := by
  rintro offset v s ho ⟨hs, hopen⟩
  have hin : offset < s.segment.buffer.cells.size := by
    rw [hs.size]
    exact ho
  have hstore := Buffer.store_of_writable hopen hin v
  refine ⟨{ s with segment := { s.segment with
    buffer := { s.segment.buffer with
      cells := s.segment.buffer.cells.setIfInBounds offset v } } }, ?_, ⟨?_, hs.program⟩, hopen⟩
  · show onBuffer (Buffer.store offset v) s = _
    unfold onBuffer
    rw [hstore]
  · show (s.segment.buffer.cells.setIfInBounds offset v).size = n
    rw [Array.size_setIfInBounds]
    exact hs.size

/-- A buffer that accepts writes is not sealed. -/
theorem sealed?_of_writable (h : LawfulRegion.Writable s) : s.segment.buffer.sealed? = none := by
  have hopen : s.segment.buffer.refusal? = none := h
  unfold Buffer.refusal? at hopen
  split at hopen
  · cases hopen
  · next hsealed => simpa using hsealed

/-- Sealing a stream that fits fails only if the program has moved on, and then nothing has
happened. -/
theorem sealUp_error (hs : LawfulRegion.Writable s) {length : Nat}
    (hfits : length ≤ s.segment.buffer.cells.size) {failure : Failure}
    (h : sealUp length s = .error failure s') : s' = s := by
  have hopen : s.segment.buffer.refusal? = none := hs
  have hsealed := sealed?_of_writable hs
  have hpoisoned : s.segment.buffer.poisoned = false := by
    simpa [Buffer.refusal?, hsealed] using hopen
  have hclosed : ¬(s.segment.buffer.sealed?.isSome ∨ s.segment.buffer.poisoned) := by
    simp [hsealed, hpoisoned]
  rw [sealUp_eq] at h
  by_cases hhere : s.program.here ≠ s.segment.buffer.base
  · rw [if_pos hhere] at h
    cases h
    rfl
  · have hcontents : Buffer.contents { s.segment.buffer with sealed? := some (length : Int) } =
        .ok (s.segment.buffer.cells.extract 0 length) := by
      simp only [Buffer.contents, Int.toNat_natCast]
      rw [if_pos ⟨by omega, by omega⟩]
    rw [if_neg hhere, onBuffer_sealUp hclosed] at h
    simp only [hcontents] at h
    cases h

end Placement

/-! ### Emissions on segments -/

/-- The invariant of an emission on a segment does not depend on the program. -/
theorem Tracks.of_program {segment segment' : Segment} {p : Program} {log : List Done}
    {items : List Item} {c : Context}
    (h : Tracks .static (Placement.mk segment p) log items ⟨c, Placement.mk segment' p⟩)
    (q : Program) :
    Tracks .static (Placement.mk segment q) log items ⟨c, Placement.mk segment' q⟩ where
  status := h.status
  same_mode := h.same_mode
  capacity := h.capacity
  kept := by
    have hentry : segment'.entry = segment.entry := congrArg Prod.fst h.kept.surroundings
    refine ⟨⟨h.kept.base, h.kept.capacity, h.kept.origin⟩, ?_⟩
    show (segment'.entry, q.withoutScope) = (segment.entry, q.withoutScope)
    rw [hentry]
  writable := h.writable
  recorded := h.recorded
  cursor := h.cursor
  room := h.room
  emitted := h.emitted
  origin := h.origin
  distinct := h.distinct
  placed := h.placed
  waiting := h.waiting
  written := h.written
  untouched := h.untouched

/-- The progress of an emission on a detached segment does not depend on the program. -/
theorem Progress.of_program {n : Nat} {segment segment' : Segment} {p : Program}
    {calls : List Call} {c : Context}
    (h : Progress (Placement.Detached n p) .static ⟨segment, p⟩ calls ⟨c, ⟨segment', p⟩⟩)
    (q : Program) :
    Progress (Placement.Detached n q) .static ⟨segment, q⟩ calls ⟨c, ⟨segment', q⟩⟩ where
  tracks := by
    obtain ⟨log, items, htracks, hcalls⟩ := h.tracks
    exact ⟨log, items, htracks.of_program q, hcalls⟩
  keeping := ⟨⟨h.keeping.region.size, fun _ => rfl⟩, h.keeping.same_capacity, h.keeping.waiting⟩
  untouched hcursor := by
    have hsame : segment' = segment := congrArg Placement.segment (h.untouched hcursor)
    rw [hsame]

/-- The call is none that opens or closes frames of variables directly. -/
def BlockCall.KeepsScope : BlockCall → Prop
  | .rescope _ => False
  | _ => True

/-- A call that does not concern the emission leaves the program alone. -/
theorem BlockCall.program_of_aside {call : BlockCall} (hkeeps : call.KeepsScope) {w w' : Worksite}
    (hnone : call.reaching? w = none) (hcall : call.perform w = .ok () w') :
    w'.program = w.program ∧ w'.block.id = w.block.id := by
  have hlevels {action : Action Block Unit} (h : Block.SetsLevels action)
      (hok : Worksite.onBlock action w = .ok () w') :
      w'.program = w.program ∧ w'.block.id = w.block.id := by
    rcases h.onBlock w with ⟨failure, herror⟩ | ⟨levels, hset⟩
    · rw [herror] at hok
      cases hok
    · rw [hset] at hok
      cases hok
      exact ⟨rfl, rfl⟩
  cases call with
  | emit mnemonic operands | emitOp op operands | label name =>
    simp only [reaching?] at hnone
    split at hnone
    · cases hnone
    · next hactive =>
      have hskip := ((Worksite.ifActive_eq ..).trans (if_neg hactive)).symm.trans hcall
      cases hskip
      exact ⟨rfl, rfl⟩
  | direct call => cases hnone
  | openIf cond =>
    cases hcall
    exact ⟨rfl, rfl⟩
  | elseIf cond => exact hlevels (Block.setsLevels_elseIf cond) hcall
  | elseLast => exact hlevels Block.setsLevels_elseLast hcall
  | endIf => exact hlevels Block.setsLevels_endIf hcall
  | rescope scope => cases hkeeps

namespace Block

variable {b : Block} {calls : List Call} {r : OpenRoutine} {p : Program}

/-- A block is open in a routine, and its emission has carried out the calls. This does not depend
on the program around it. -/
structure Working (b : Block) (calls : List Call) (r : OpenRoutine) : Prop where
  entry : b.segment.entry = r.base
  progress : ∃ segment : Segment, ∀ p : Program,
    Progress (Placement.Detached segment.buffer.cells.size p) .static ⟨segment, p⟩ calls
      (Worksite.mk b p).emission

namespace Working

/-- Levels of conditionals and counters do not matter. -/
theorem of_same (h : b.Working calls r) {b' : Block} (hcontext : b'.context = b.context)
    (hsegment : b'.segment = b.segment) : b'.Working calls r := by
  obtain ⟨segment, hprogress⟩ := h.progress
  refine ⟨hsegment ▸ h.entry, segment, fun q => ?_⟩
  have hemission : (Worksite.mk b' q).emission = (Worksite.mk b q).emission := by
    unfold Worksite.emission
    rw [hcontext, hsegment]
  rw [hemission]
  exact hprogress q

/-- A block that has just been opened is the only open one, and has done nothing. -/
theorem of_openBlock {capacity : Int} {p' : Program} (h : Program.openBlock capacity p = .ok b p') :
    p.openBlock? = none ∧ b.id = p.blocks ∧
      p' = { p with openBlock? := some p.blocks, blocks := p.blocks + 1 } ∧
      ∃ r, p.current? = some r ∧ b.Working [] r := by
  obtain ⟨r, hcurrent, hp', hentry, -, hopen, hstart⟩ := Worksite.openBlock_ok h
  have hsite : p.openBlock? = none ∧ b.id = p.blocks := by
    unfold Program.openBlock at h
    rw [hcurrent] at h
    dsimp only at h
    split at h
    · cases h
    · next hnone =>
      split at h
      · cases h
      · cases h
        exact ⟨Option.not_isSome_iff_eq_none.mp hnone, rfl⟩
  refine ⟨hsite.1, hsite.2, hp', r, hcurrent, hentry, b.segment, fun q => ?_⟩
  have hsame : (Worksite.mk b q).emission = Emission.start .static (Placement.mk b.segment q) :=
    congrArg (fun e : Emission Placement => Emission.mk e.context (Placement.mk b.segment q)) hstart
  rw [hsame]
  exact .start .static hopen ⟨rfl, fun _ => rfl⟩

/-- **A call to an open block leaves the program alone**, and is noted if it reaches the
emission. -/
theorem perform (h : b.Working calls r) {call : BlockCall} (hkeeps : call.KeepsScope)
    {w : Worksite} (hcall : call.perform ⟨b, p⟩ = .ok () w) :
    w.program = p ∧ w.block.id = b.id ∧
      w.block.Working (calls ++ (call.reaching? ⟨b, p⟩).toList) r := by
  rcases hreach : call.reaching? ⟨b, p⟩ with _ | c
  · obtain ⟨hprogram, hid⟩ := BlockCall.program_of_aside hkeeps hreach hcall
    rcases BlockCall.aside_of_reaching hreach with ⟨failure, herror⟩ | ⟨w₁, hok, haside⟩
    · rw [herror] at hcall
      cases hcall
    · rw [hok] at hcall
      cases hcall
      refine ⟨hprogram, hid, ?_⟩
      rw [Option.toList_none, List.append_nil]
      exact h.of_same haside.context haside.segment
  · rw [BlockCall.perform_of_reaching hreach] at hcall
    obtain ⟨e, he, rfl⟩ := Worksite.onEmission_ok hcall
    obtain ⟨segment, hprogress⟩ := h.progress
    have hnext := (hprogress p).perform
      (Placement.upheld_detached segment.buffer.cells.size p) he
    obtain ⟨log, items, htracks, -⟩ := hnext.tracks
    have hprogram : e.region.program = p :=
      hnext.keeping.region.program (Placement.sealed?_of_writable htracks.writable)
    have hentry : e.region.segment.entry = segment.entry :=
      congrArg Prod.fst htracks.kept.surroundings
    obtain ⟨log₀, items₀, htracks₀, -⟩ := (hprogress p).tracks
    have hentry₀ : b.segment.entry = segment.entry := congrArg Prod.fst htracks₀.kept.surroundings
    refine ⟨hprogram, rfl, hentry.trans (hentry₀.symm.trans h.entry), segment, fun q => ?_⟩
    have hregion : e = ⟨e.context, ⟨e.region.segment, p⟩⟩ := by
      rw [← hprogram]
    rw [hregion] at hnext
    exact hnext.of_program q

/-- **A call to an open block that is refused changes nothing.** -/
theorem refused (h : b.Working calls r) {call : BlockCall} {failure : Failure} {w : Worksite}
    (hcall : call.perform ⟨b, p⟩ = .error failure w) : w = ⟨b, p⟩ := by
  rcases hreach : call.reaching? ⟨b, p⟩ with _ | c
  · rcases BlockCall.aside_of_reaching hreach with ⟨cause, herror⟩ | ⟨w₁, hok, -⟩
    · rw [herror] at hcall
      cases hcall
      rfl
    · rw [hok] at hcall
      cases hcall
  · rw [BlockCall.perform_of_reaching hreach] at hcall
    obtain ⟨e, he, rfl⟩ := Worksite.onEmission_error hcall
    obtain ⟨segment, hprogress⟩ := h.progress
    obtain ⟨rfl, -⟩ := (hprogress p).refused
      (Placement.accepting_detached segment.buffer.cells.size p) he
    rfl

/-- The distance of an open block from the start of its routine. -/
theorem origin_eq {segment : Segment}
    (h : b.Working calls r) {log : List Done} {items : List Item}
    (htracks : Tracks .static (Placement.mk segment p) log items (Worksite.mk b p).emission)
    (hhere : p.here = b.segment.buffer.base) :
    Region.origin (Placement.mk segment p) = (p.here - r.base).toInt := by
  rw [← htracks.kept.origin, hhere, ← h.entry]
  rfl

/-- **Finalizing an open block appends its assembled calls to the program.** -/
theorem finalize_ok (h : b.Working calls r) {routine : Routine} {e : Emission Placement}
    (hfin : Emission.finalize (Worksite.mk b p).emission = .ok routine e) :
    e.context.status = .finalized ∧ ∃ cells,
      assembleCalls? .static (p.here - r.base).toInt calls = some cells ∧
      e.region.program = p.append cells.toArray := by
  obtain ⟨segment, hprogress⟩ := h.progress
  obtain ⟨log, items, htracks, hcalls⟩ := (hprogress p).tracks
  obtain ⟨cells, hfinished⟩ := htracks.finished hfin
  obtain ⟨-, hseal, hcontext, hroutine⟩ := Emission.finalize_ok hfin
  obtain ⟨contents, hhere, hcontents, hregion⟩ := Placement.sealUp_ok hseal
  refine ⟨by rw [hcontext], cells, ?_, ?_⟩
  · rw [← h.origin_eq htracks hhere, ← hcalls]
    unfold assembleCalls?
    rw [hfinished.recorded.mapM_item]
    exact (writeItems?_congr hfinished.labels _ items 0).symm.trans hfinished.assembled
  · have hlength : cells.length = (Worksite.mk b p).emission.context.cursor := by
      rw [← hfinished.length, hroutine]
    have hsame : contents = cells.toArray := by
      apply Worksite.contents_eq hcontents hlength
      intro i v hi
      have hload := hfinished.written i v hi
      rw [hregion] at hload
      exact hload
    rw [hregion, hsame]
    rfl

/-- **A block that cannot be finalized goes on as before.** -/
theorem finalize_error (h : b.Working calls r) {failure : Failure} {e : Emission Placement}
    (hfin : Emission.finalize (Worksite.mk b p).emission = .error failure e) :
    e = (Worksite.mk b p).emission := by
  obtain ⟨segment, hprogress⟩ := h.progress
  obtain ⟨log, items, htracks, -⟩ := (hprogress p).tracks
  have hcheck : Emission.checkOpen (Worksite.mk b p).emission =
      .ok () (Worksite.mk b p).emission := if_pos htracks.status
  unfold Emission.finalize at hfin
  replace hfin := (bind_of_ok hcheck).symm.trans hfin
  replace hfin := (bind_of_ok rfl).symm.trans hfin
  by_cases hunresolved : !(Worksite.mk b p).emission.context.labels.unresolved.isEmpty
  · rw [if_pos hunresolved] at hfin
    cases hfin
    rfl
  rw [if_neg hunresolved] at hfin
  rcases error_of_bind hfin with hseal | ⟨_, e₁, -, hrest⟩
  · unfold Emission.onRegion at hseal
    split at hseal
    · cases hseal
    · next cause region hregion =>
      cases hseal
      have hfits : (Worksite.mk b p).emission.context.cursor ≤ b.segment.buffer.cells.size := by
        rw [htracks.cursor]
        exact Nat.le_trans htracks.room (Nat.le_of_eq htracks.kept.capacity.symm)
      rw [Placement.sealUp_error htracks.writable hfits hregion]
  · cases hrest

/-- **An open block can always be given up.** -/
theorem exists_discard (h : b.Working calls r) (p : Program) :
    ∃ e, Emission.discard (Worksite.mk b p).emission = .ok () e ∧ e.region.program = p ∧
      e.context.status = .discarded := by
  obtain ⟨segment, hprogress⟩ := h.progress
  obtain ⟨log, items, htracks, -⟩ := (hprogress p).tracks
  have hkeeping := (hprogress p).keeping
  have hroom : 0 + (Worksite.mk b p).emission.context.capacity ≤ segment.buffer.cells.size := by
    rw [Nat.zero_add]
    exact Nat.le_of_eq hkeeping.same_capacity
  obtain ⟨region, hfill, hdetached, hopen⟩ := Emission.exists_fillTraps
    (Placement.accepting_detached segment.buffer.cells.size p) _
    ⟨hkeeping.region, htracks.writable⟩ hroom
  have hsealed := Placement.sealed?_of_writable hopen
  let last : Placement := { region with segment :=
    { region.segment with buffer := { region.segment.buffer with poisoned := true } } }
  have hpoison : Emission.onRegion .poisonRefused Region.poison
      (Emission.mk (Worksite.mk b p).emission.context region) =
        .ok () ⟨(Worksite.mk b p).emission.context, last⟩ := by
    have hregion : (Region.poison : Action Placement Unit) region = .ok () last := by
      show Placement.onBuffer Buffer.poison region = _
      simp [Placement.onBuffer, Buffer.poison, hsealed, last]
    unfold Emission.onRegion
    rw [hregion]
  rw [Emission.discard_eq, htracks.status]
  refine ⟨_, (bind_of_ok hfill).trans (bind_of_ok hpoison), ?_, rfl⟩
  exact hdetached.program hsealed

end Working

end Block

/-! ### Blocks that are closed -/

/-- An emission that is not open takes no calls. -/
theorem Call.perform_of_closed {ρ : Type} [Region ρ] {e : Emission ρ}
    (h : e.context.status ≠ .open) (c : Call) :
    c.perform e = .error (.notOpen e.context.status) e := by
  cases c with
  | emit symbols? mnemonic operands => exact (Emission.emit_eq ..).trans (if_neg h)
  | emitOp symbols? op operands => exact (Emission.emitOp_eq ..).trans (if_neg h)
  | label name => exact (Emission.defineLabel_eq ..).trans (if_neg h)

/-- An emission that is not open is not finalized. -/
theorem Emission.finalize_of_closed {ρ : Type} [Region ρ] {e : Emission ρ}
    (h : e.context.status ≠ .open) : finalize e = .error (.notOpen e.context.status) e := by
  have hcheck : checkOpen e = .error (.notOpen e.context.status) e := if_neg h
  exact bind_of_error hcheck

/-- An emission that is not open is not given up. -/
theorem Emission.discard_of_closed {ρ : Type} [Region ρ] {e : Emission ρ}
    (h : e.context.status ≠ .open) : discard.after e = e := by
  unfold after
  rw [discard_eq]
  cases hstatus : e.context.status with
  | «open» => exact absurd hstatus h
  | finalized => rfl
  | discarded => rfl

/-- A block that is not open takes calls to its conditionals only. -/
theorem BlockCall.perform_of_closed {call : BlockCall} (hkeeps : call.KeepsScope) {w : Worksite}
    (hclosed : w.block.context.status ≠ .open) :
    (∃ failure, call.perform w = .error failure w) ∨
      ∃ w', call.perform w = .ok () w' ∧ w'.program = w.program ∧ w'.block.id = w.block.id ∧
        w'.block.context = w.block.context := by
  rcases hreach : call.reaching? w with _ | c
  · rcases aside_of_reaching hreach with herror | ⟨w', hok, haside⟩
    · exact .inl herror
    · obtain ⟨hprogram, hid⟩ := program_of_aside hkeeps hreach hok
      exact .inr ⟨w', hok, hprogram, hid, haside.context⟩
  · refine .inl ⟨.notOpen w.block.context.status, ?_⟩
    rw [perform_of_reaching hreach]
    unfold Worksite.onEmission
    rw [Call.perform_of_closed (e := w.emission) hclosed]
    rfl

namespace Worksite

variable {w : Worksite}

/-- Closing a block finalizes its emission, once all conditionals are closed. -/
theorem close_eq (w : Worksite) :
    close w =
      if !w.block.levels.isEmpty then .error (.unbalanced (.unclosed w.block.levels.length)) w
      else match Emission.finalize w.emission with
        | .error failure e => .error failure (w.ofEmission e)
        | .ok routine e => .ok routine { w.ofEmission e with
            program := { e.region.program with openBlock? := none } } := by
  have hget : (MonadState.get : Action Worksite Worksite) w = .ok w w := rfl
  unfold close
  rw [bind_of_ok hget]
  by_cases hlevels : !w.block.levels.isEmpty
  · rw [if_pos hlevels, if_pos hlevels]
    rfl
  · rw [if_neg hlevels, if_neg hlevels]
    cases hfin : Emission.finalize w.emission with
    | error failure e =>
      have hon : onEmission Emission.finalize w = .error failure (w.ofEmission e) := by
        unfold onEmission
        rw [hfin]
      exact bind_of_error hon
    | ok routine e =>
      have hon : onEmission Emission.finalize w = .ok routine (w.ofEmission e) := by
        unfold onEmission
        rw [hfin]
      exact bind_of_ok hon

/-- A block that is not open, or has open conditionals, is not closed. -/
theorem close_refused {b : Block} {p : Program}
    (h : b.context.status ≠ .open ∨ ¬b.levels.isEmpty) :
    ∃ failure, close ⟨b, p⟩ = .error failure ⟨b, p⟩ := by
  rw [close_eq]
  by_cases hlevels : !b.levels.isEmpty
  · exact ⟨_, if_pos hlevels⟩
  · rw [if_neg hlevels]
    rcases h with hstatus | hopen
    · rw [Emission.finalize_of_closed (e := (mk b p).emission) hstatus]
      exact ⟨_, rfl⟩
    · simp_all

/-- Closing an open block is refused, or appends its stream to the program. -/
theorem close_cases {b : Block} {calls : List Call} {r : OpenRoutine} (h : b.Working calls r)
    (p : Program) :
    (∃ failure, close ⟨b, p⟩ = .error failure ⟨b, p⟩) ∨
      ∃ routine w cells, close ⟨b, p⟩ = .ok routine w ∧
        w.program = { p.append cells with openBlock? := none } ∧ w.block.id = b.id ∧
        w.block.context.status = .finalized ∧
        assembleCalls? .static (p.here - r.base).toInt calls = some cells.toList := by
  by_cases hlevels : !b.levels.isEmpty
  · exact .inl (close_refused (.inr (by simpa using hlevels)))
  · rw [close_eq, if_neg hlevels]
    cases hfin : Emission.finalize (mk b p).emission with
    | error failure e =>
      refine .inl ⟨failure, ?_⟩
      rw [h.finalize_error hfin]
      rfl
    | ok routine e =>
      obtain ⟨hstatus, cells, hcells, hprogram⟩ := h.finalize_ok hfin
      refine .inr ⟨routine, _, cells.toArray, rfl, ?_, rfl, hstatus, hcells⟩
      rw [hprogram]

/-- The block is no longer the open one of its program. -/
def released (w : Worksite) : Worksite :=
  if w.program.openBlock? = some w.block.id then
    { w with program := { w.program with openBlock? := none } }
  else w

/-- A block stays as it is when it is released. -/
@[simp] theorem released_block (w : Worksite) : w.released.block = w.block := by
  unfold released
  split
  · rfl
  · rfl

/-- Giving a block up releases it and then gives up its emission. -/
theorem after_discard (w : Worksite) :
    discard.after w = w.released.ofEmission (Emission.discard.after w.released.emission) := by
  have hmodify : (modify released : Action Worksite Unit) w = .ok () w.released := rfl
  have hafter : discard.after w = (onEmission Emission.discard).after w.released :=
    after_congr (bind_of_ok hmodify)
  rw [hafter]
  unfold after onEmission
  cases Emission.discard w.released.emission with
  | ok => rfl
  | error => rfl

/-- The program of a block that is released keeps every other open block. -/
theorem released_program (w : Worksite) :
    ∃ openBlock?, w.released.program = { w.program with openBlock? } ∧
      ∀ other, other ≠ w.block.id → w.program.openBlock? = some other →
        openBlock? = some other := by
  unfold released
  split
  · next hopen =>
    refine ⟨none, rfl, fun other hne hother => ?_⟩
    exact absurd (Option.some.inj (hother.symm.trans hopen)) hne
  · exact ⟨w.program.openBlock?, rfl, fun _ _ hother => hother⟩

/-- A block that is given up is no longer open, and the program has at most lost its open block. -/
theorem discard_closes 
    (h : w.block.context.status = .open → ∃ calls r, w.block.Working calls r) :
    (discard.after w).program = w.released.program ∧
      (discard.after w).block.id = w.block.id ∧
      (discard.after w).block.context.status ≠ .open := by
  have hid (e : Emission Placement) : (w.released.ofEmission e).block.id = w.block.id := by
    show w.released.block.id = w.block.id
    rw [released_block]
  rw [after_discard]
  by_cases hstatus : w.block.context.status = .open
  · obtain ⟨calls, r, hworking⟩ := h hstatus
    obtain ⟨e, hdiscard, hregion, hdone⟩ := hworking.exists_discard w.released.program
    have hemission : w.released.emission = (mk w.block w.released.program).emission := by
      unfold emission
      rw [released_block]
    rw [hemission, after_of_ok hdiscard]
    refine ⟨hregion, hid e, ?_⟩
    show e.context.status ≠ .open
    rw [hdone]
    nofun
  · have hclosed : w.released.emission.context.status ≠ .open := by
      show w.released.block.context.status ≠ .open
      rw [released_block]
      exact hstatus
    rw [Emission.discard_of_closed hclosed]
    exact ⟨rfl, hid _, hclosed⟩

end Worksite

end CellMachine
