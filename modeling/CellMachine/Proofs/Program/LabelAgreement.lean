import Mathlib
import CellMachine.Proofs.Emission.Target
import CellMachine.Proofs.Program.Blocks

/-!
# Labels in programs and in memory

Code comes to run in two ways. A block of a program is a static emission, and its stream becomes
part of a routine; a lease is taken on a region of memory for a dynamic emission, and the stream is
the routine. In both the reader, the machine and the routine agree about every label operand.

* `Leasehold.attest_ok` — a lease to which an emission was bound accepts writes.
* `Leasehold.holds_of_finished` — memory holds the cells of a finished dynamic stream.
* `labelsAgree_of_finalizes` — **label operands mean the same to all**, in blocks and in
  leased memory.
-/

namespace CellMachine

/-! ### Dynamic emissions -/

namespace Leasehold

/-- A lease to which an emission was bound accepts writes. -/
theorem attest_ok {h h' : Leasehold} (hattest : attest h = .ok () h') : Standing h' := by
  unfold attest withParts at hattest
  split at hattest
  · next lease span hparts =>
    obtain ⟨h₁, h₂, hget, hattest⟩ := Action.ok_of_bind hattest
    cases hget
    rcases hs : h.stands lease span
    · simp only [hs, Bool.not_false, if_true] at hattest
      obtain ⟨⟨⟩, _, hthrow, _⟩ := Action.ok_of_bind hattest
      cases hthrow
    · simp only [hs, Bool.not_true, Bool.false_eq_true, if_false] at hattest
      by_cases hrunning : 0 < span.running
      · simp only [if_pos hrunning] at hattest
        obtain ⟨⟨⟩, _, hthrow, _⟩ := Action.ok_of_bind hattest
        cases hthrow
      · simp only [if_neg hrunning] at hattest
        by_cases hbound : lease.bound = true
        · simp only [if_pos hbound] at hattest
          obtain ⟨⟨⟩, _, hthrow, _⟩ := Action.ok_of_bind hattest
          cases hthrow
        · simp only [if_neg hbound] at hattest
          cases hattest
          obtain ⟨hlease, hspan⟩ := parts?_eq_some_iff.1 hparts
          refine ⟨{ lease with bound := true }, span, parts?_eq_some_iff.2 ⟨?_, hspan⟩, hs⟩
          show (h.memory.leases.modify h.lease _)[h.lease]? = _
          rw [Array.getElem?_modify, if_pos rfl, hlease]
          rfl
  · cases hattest

/-- Memory holds the cells of a finished dynamic stream. -/
theorem holds_of_finished {mode : Mode} {region : Leasehold} {log : List Done} {items : List Item}
    {cells : List Cell} {routine : Routine} {e : Emission Leasehold}
    (h : Finished mode region log items cells routine e) :
    e.region.memory.Holds routine.base cells := by
  intro i v hi
  have hload := h.written i v hi
  have hbase : Region.base e.region = routine.base := h.shape.base.trans h.base.symm
  rcases hparts : e.region.parts? with _ | ⟨lease, span⟩
  · change Leasehold.load e.region i = .ok v at hload
    unfold Leasehold.load at hload
    rw [hparts] at hload
    cases hload
  · rw [load_of_parts hparts, Int64.ofInt_eq_ofNat] at hload
    rw [base_of_parts hparts] at hbase
    rw [← hbase]
    exact Memory.load_of_get hload

end Leasehold

/-- An emission that was opened dynamically has just been started, on a lease that stands. -/
theorem Context.openDynamic_ok {h h' : Leasehold} {context : Context}
    (hopen : openDynamic h = .ok context h') :
    h'.Standing ∧ (⟨context, h'⟩ : Emission Leasehold) = Emission.start .dynamic h' := by
  unfold openDynamic at hopen
  split at hopen
  · next region hattest =>
    cases hopen
    exact ⟨Leasehold.attest_ok hattest, rfl⟩
  · cases hopen

/-! ### Both ways -/

/-- **Label operands mean the same to all.** The stream of a block that is finalized anywhere in a
routine of blocks, and the stream of a dynamic emission that is finalized on leased memory: the
reader, the machine and the routine agree about the label operands of both. -/
theorem labelsAgree_of_finalizes :
    (∀ {p₀ p p₁ : Program} {capacity : Int} {b : Block} {calls : List BlockCall}
        {log : List Done} {w w' : Worksite} {routine : Routine},
      Program.FromBlocks p₀ p → Program.openBlock capacity p = .ok b p₁ →
      Worksite.runCalls calls ⟨b, p₁⟩ = .ok (log, w) → w.Finalizes routine w' →
      ∃ r cells shift, w'.program.current? = some r ∧ r.base = p₀.here ∧
        w'.program.code = p₀.code ++ cells.toArray ∧ cells.length = shift + routine.length ∧
        LabelsAgree r.base cells shift log routine) ∧
    ∀ {h h₁ : Leasehold} {context : Context} {calls : List Call} {log : List Done}
        {e e' : Emission Leasehold} {routine : Routine},
      Context.openDynamic h = .ok context h₁ →
      Emission.runCalls calls ⟨context, h₁⟩ = .ok (log, e) →
      Emission.finalize e = .ok routine e' →
      ∃ cells, cells.length = routine.length ∧ e'.region.memory.Holds routine.base cells ∧
        LabelsAgree routine.base cells 0 log routine := by
  refine ⟨?_, ?_⟩
  · intro p₀ p p₁ capacity b calls log w w' routine hbuilt hopen hrun hfin
    obtain ⟨before, hbefore⟩ := hbuilt.stretch
    obtain ⟨_, hbase, horigin, _⟩ := hbefore.openBlock hopen
    obtain ⟨items, cells, e, hfinished, hall⟩ := hbefore.block hopen hrun hfin
    obtain ⟨name, hname⟩ := hall.current
    refine ⟨_, before ++ cells, before.length, hname, rfl, hall.code, ?_, ?_⟩
    · rw [List.length_append, hfinished.length]
    · exact hfinished.labelsAgree hbase horigin hbefore.whole
  · intro h h₁ context calls log e e' routine hopen hrun hfin
    obtain ⟨hstanding, hstart⟩ := Context.openDynamic_ok hopen
    rw [hstart] at hrun
    obtain ⟨items, cells, hfinished⟩ := Emission.finished_of_runCalls hstanding hrun hfin
    have hbase : Region.base h₁ = routine.base + Int64.ofNat ([] : List Cell).length := by
      rw [← hfinished.base]
      exact (Int64.add_zero _).symm
    refine ⟨cells, hfinished.length.symm, Leasehold.holds_of_finished hfinished, ?_⟩
    exact hfinished.labelsAgree hbase rfl fun after => ⟨[], .nil _⟩

/-! ### A sample -/

/-- Opens a block, makes calls and closes it. -/
def Program.closeBlock? (capacity : Int) (calls : List BlockCall) (p : Program) :
    Option (List Done × Routine × Program) :=
  match Program.openBlock capacity p with
  | .error _ _ => none
  | .ok b p =>
    match Worksite.runCalls calls ⟨b, p⟩ with
    | .error _ => none
    | .ok (log, w) =>
      match Worksite.close w with
      | .error _ _ => none
      | .ok routine w => some (log, routine, w.program)

/-- A block that was opened, worked on and closed. -/
theorem Program.of_closeBlock? {capacity : Int} {calls : List BlockCall} {p p' : Program}
    {log : List Done} {routine : Routine}
    (h : Program.closeBlock? capacity calls p = some (log, routine, p')) :
    ∃ b p₁ w w', Program.openBlock capacity p = .ok b p₁ ∧
      Worksite.runCalls calls ⟨b, p₁⟩ = .ok (log, w) ∧ Worksite.close w = .ok routine w' ∧
      w'.program = p' := by
  unfold Program.closeBlock? at h
  split at h
  · cases h
  · next b p₁ hopen =>
    split at h
    · cases h
    · next log w hrun =>
      split at h
      · cases h
      · next routine w' hclose =>
        cases h
        exact ⟨b, p₁, w, w', hopen, hrun, hclose, rfl⟩

/-- A program with two data cells in front of its code. -/
def sampleProgram : Program := { dataBase := 64, dataCells := 2 }

/-- A routine of two blocks, the second of which has a loop. -/
def sampleRoutine (p : Program) : Option (List Done × Routine × Program) :=
  (Program.closeBlock? 4 [.emit "PROC" [], .emitOp .zeroP []] p).bind fun (_, _, p) =>
    Program.closeBlock? 8
      [.label "top", .emit "JZER" [.label "end"], .openIf false, .emit "RET" [], .endIf,
        .emit "JUMP" [.label "top"], .label "end", .emitOp .ret []] p

/-- A leased region of eight cells. -/
def sampleLease : Leasehold where
  lease := 0
  memory :=
    { cells := Array.replicate 24 0, next := 16, limit := 20
      spans := #[{ id := 0, name := "hook", base := 4, capacity := 8, lease? := some 0 }]
      names := ⟨[("hook", 0)]⟩
      leases := #[{ span := 0 }] }

/-- The second of two blocks, which starts two cells into its routine, and the sample calls on a
leased region. -/
theorem labelsAgree_of_finalizes_sample :
    (∃ p p₁ b calls log w routine w', Program.FromBlocks sampleProgram p ∧
      Program.openBlock 8 p = .ok b p₁ ∧ Worksite.runCalls calls ⟨b, p₁⟩ = .ok (log, w) ∧
      Worksite.close w = .ok routine w' ∧
      w'.program.code.toList = [16, 34, 130, 3, 128, 2, 17] ∧
      (∃ done ∈ log, Operand.label "end" ∈ done.call.operands) ∧
      LabelsAgree 66 [16, 34, 130, 3, 128, 2, 17] 2 log routine) ∧
    ∃ context h₁ log e routine e', Context.openDynamic sampleLease = .ok context h₁ ∧
      Emission.runCalls sampleCalls ⟨context, h₁⟩ = .ok (log, e) ∧
      Emission.finalize e = .ok routine e' ∧ routine.label? "end" = some 10 ∧
      ∃ cells, e'.region.memory.Holds routine.base cells ∧
        LabelsAgree routine.base cells 0 log routine := by
  refine ⟨?_, ?_⟩
  · have hbegin : Program.beginRoutine "main" sampleProgram = .ok () { sampleProgram with
        current? := some ⟨"main", sampleProgram.here⟩, scope := { frames := [[]] } } := by
      simp [Program.beginRoutine, sampleProgram, Scope.push]
    have houtcome : (sampleRoutine { sampleProgram with
        current? := some ⟨"main", sampleProgram.here⟩, scope := { frames := [[]] } }).map
          (fun (log, routine, p) =>
            (log.map fun done => done.call.operands, routine.length, p.code.toList)) =
        some ([[], [.label "end"], [.label "top"], [], []], 5, [16, 34, 130, 3, 128, 2, 17]) := by
      decide +kernel
    obtain ⟨⟨log, routine, p'⟩, hroutine, hvalues⟩ := Option.map_eq_some_iff.1 houtcome
    simp only [Prod.mk.injEq] at hvalues
    obtain ⟨hlog, hlength, hcode⟩ := hvalues
    obtain ⟨⟨log₁, routine₁, p⟩, hfirst, hsecond⟩ := Option.bind_eq_some_iff.1 hroutine
    obtain ⟨b₁, q₁, w₁, w₁', hopen₁, hrun₁, hclose₁, rfl⟩ := Program.of_closeBlock? hfirst
    obtain ⟨b, p₁, w, w', hopen, hrun, hclose, rfl⟩ := Program.of_closeBlock? hsecond
    have hbuilt : Program.FromBlocks sampleProgram w₁'.program :=
      .block (.begin hbegin) hopen₁ hrun₁ (.inl hclose₁)
    obtain ⟨r, cells, shift, _, hr, hcells, hshift, hagree⟩ :=
      labelsAgree_of_finalizes.1 hbuilt hopen hrun (.inl hclose)
    have hcells' : cells = [16, 34, 130, 3, 128, 2, 17] := by
      rw [hcells] at hcode
      simpa [sampleProgram] using hcode
    have hshift' : shift = 2 := by
      rw [hcells', hlength] at hshift
      have hseven : ([16, 34, 130, 3, 128, 2, 17] : List Cell).length = 7 := rfl
      omega
    have hentry : r.base = 66 := by
      rw [hr]
      decide
    have hdone : [Operand.label "end"] ∈ log.map fun done => done.call.operands := by
      rw [hlog]
      exact List.mem_cons_of_mem _ List.mem_cons_self
    obtain ⟨done, hmem, hoperands⟩ := List.mem_map.1 hdone
    rw [hentry, hshift', hcells'] at hagree
    refine ⟨_, _, _, _, log, w, routine, w', hbuilt, hopen, hrun, hclose, hcode,
      ⟨done, hmem, ?_⟩, hagree⟩
    rw [hoperands]
    exact List.mem_cons_self
  · have houtcome : (match Context.openDynamic sampleLease with
        | .error _ _ => none
        | .ok context h₁ =>
          (Emission.outcome? sampleCalls ⟨context, h₁⟩).map fun (routine, _) =>
            routine.label? "end") = some (some 10) := by
      cbv
    split at houtcome
    · cases houtcome
    next context h₁ hopen =>
    obtain ⟨⟨routine, e'⟩, hsome, hlabel⟩ := Option.map_eq_some_iff.1 houtcome
    obtain ⟨log, e, hrun, hfin⟩ := Emission.of_outcome? hsome
    obtain ⟨cells, _, hholds, hagree⟩ := labelsAgree_of_finalizes.2 hopen hrun hfin
    exact ⟨context, h₁, log, e, routine, e', hopen, hrun, hfin, hlabel, cells, hholds, hagree⟩

end CellMachine
