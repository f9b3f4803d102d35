import CellMachine.Proofs.Patch.Lease
import CellMachine.Proofs.Patch.Moves

/-!
# What becomes of a patch

A patch leases its region, emits its body there and seals the lease. If something goes wrong, the
region is given back or filled with traps, depending on where the cursor is. Statements can fail for
many reasons and at any place; nevertheless there are three outcomes only. The memory may have been
patched before, since patches lead to memories that can come about (`Patch.apply_reachable`).

* `Patch.Outcome` — the body stands in the region, the region is as it was, or it is full of traps.
* `Patch.write_ok`, `Patch.write_error` — what a body has come to when it ends or fails.
* `Patch.outcome_of_sound`, `Patch.apply_outcome` — **there is no other outcome.**
-/

namespace CellMachine

open CellMachine.Action

/-! ### Outcomes -/

namespace Patch

/-- The number of instructions of the body that are emitted. -/
def emitted (p : Patch) (m : Memory) : Nat :=
  match lease p.target m with
  | .error _ _ => 0
  | .ok id memory =>
    match Context.openDynamic (Leasehold.mk id memory) with
    | .error _ _ => 0
    | .ok context region =>
      ((p.write (Memory.globalSymbol m.addresses)).after { context, region }).context.emitted

/-- The three outcomes of a patch of a region. None is a crash. -/
inductive Outcome (p : Patch) (m : Memory) (s : Span) :
    EStateM.Result Failure Memory Routine → Prop
  /-- The region begins with the cells of the body; its other cells are as they were. -/
  | patched {routine : Routine} {m' : Memory} {calls : List Call} {cells : List Cell} :
    callsOf (some (Memory.globalSymbol m.addresses)) p.body = .ok calls →
    assembleCalls? .dynamic 0 calls = some cells →
    cells.length = routine.length → (cells.length : Int) ≤ s.capacity.toInt →
    (∀ (i : Nat) v, cells[i]? = some v → m'.cells[s.base.toInt.toNat + i]? = some v) →
    (∀ i : Nat, cells.length ≤ i → (i : Int) < s.capacity.toInt →
      m'.cells[s.base.toInt.toNat + i]? = m.cells[s.base.toInt.toNat + i]?) →
    { s with length := cells.length, poisoned := false } ∈ m'.spans →
    Frame m s m' → Outcome p m s (.ok routine m')
  /-- No instruction was emitted: all cells and the region are as they were. -/
  | kept {failure : Failure} {m' : Memory} :
    failure.crashed = false → p.emitted m = 0 → m'.cells = m.cells → (s ∈ m.spans → s ∈ m'.spans) →
    Frame m s m' → Outcome p m s (.error failure m')
  /-- An instruction was emitted: the region is full of traps and poisoned. -/
  | trapped {failure : Failure} {m' : Memory} :
    failure.crashed = false → 0 < p.emitted m →
    (∀ i : Nat, (i : Int) < s.capacity.toInt →
      m'.cells[s.base.toInt.toNat + i]? = some Op.trap.cell) →
    { s with poisoned := true } ∈ m'.spans →
    Frame m s m' → Outcome p m s (.error failure m')

/-! ### The body -/

/-- Without a lease nothing is emitted. -/
theorem emitted_of_refused {p : Patch} {m m' : Memory} {failure : Failure}
    (h : lease p.target m = .error failure m') : p.emitted m = 0 := by
  unfold emitted
  rw [h]

/-- What is emitted is emitted by the body. -/
theorem emitted_of_open {p : Patch} {m m' : Memory} {id : Nat} {h' : Leasehold}
    (h : lease p.target m = .ok id m')
    (hopen : Context.openDynamic (Leasehold.mk id m') = .ok (Context.fresh .dynamic h') h') :
    p.emitted m = ((p.write (Memory.globalSymbol m.addresses)).after
      (Emission.start .dynamic h')).context.emitted := by
  unfold emitted
  rw [h]
  simp only [hopen]
  rfl

section Write

variable {m : Memory} {s : Span} {l : Lease} {h : Leasehold} {p : Patch} {symbols : SymbolTable}
  {e e' : Emission Leasehold}

/-- A body that ends well has carried all its calls out and is finalized. -/
theorem write_ok (hh : m.Held s l h) (henc : m.Encloses s) (hsize : m.cells.size ≤ maxCells)
    {routine : Routine}
    (hrun : p.write symbols (Emission.start .dynamic h) = .ok routine e') :
    ∃ calls e, callsOf (some symbols) p.body = .ok calls ∧
      Progress (h.memory.Inside h.lease (s.leased h.lease)) .dynamic h calls e ∧
      Emission.finalize e = .ok routine e' := by
  obtain ⟨⟨⟩, e, hbody, hfin⟩ := ok_of_bind hrun
  obtain ⟨calls, hcalls, hprogress⟩ :=
    Progress.statements_ok (hh.upheld henc hsize) p.body hh.start hbody
  refine ⟨calls, e, hcalls, hprogress, ?_⟩
  have hresult := ok_of_at hfin
  split at hresult
  · next hfinal =>
    cases hresult
    exact hfinal
  · cases hresult

/-- A finalization is refused for a missing label only, as long as the lease is held. -/
theorem finalize_refused (hopen : e.context.status = .open) (hh : m.Held s l e.region)
    {failure : Failure} (hrun : Emission.finalize e = .error failure e') :
    e' = e ∧ failure.crashed = false := by
  have hcheck : Emission.checkOpen e = .ok () e := by
    unfold Emission.checkOpen
    rw [if_pos hopen]
  have hget : Emission.getContext e = .ok e.context e := rfl
  unfold Emission.finalize at hrun
  rw [bind_of_ok hcheck, bind_of_ok hget] at hrun
  by_cases hlabels : e.context.labels.unresolved.isEmpty
  · simp only [hlabels, Bool.not_true, Bool.false_eq_true, if_false] at hrun
    rcases error_of_bind hrun with hseal | ⟨⟨⟩, e₁, -, hrest⟩
    · unfold Emission.onRegion at hseal
      rw [hh.sealUp] at hseal
      cases hseal
    · cases hrest
  · simp only [hlabels, Bool.not_false, if_true] at hrun
    cases hrun
    exact ⟨rfl, rfl⟩

/-- A body that fails has made progress, and the emission is still open. -/
theorem write_error (hh : m.Held s l h) (henc : m.Encloses s) (hsize : m.cells.size ≤ maxCells)
    {failure : Failure}
    (hrun : p.write symbols (Emission.start .dynamic h) = .error failure e') :
    (∃ calls, Progress (h.memory.Inside h.lease (s.leased h.lease)) .dynamic h calls e') ∧
      failure.crashed = false := by
  have hupheld := hh.upheld henc hsize
  rcases error_of_bind hrun with hbody | ⟨⟨⟩, e, hbody, hfin⟩
  · obtain ⟨⟨calls, hprogress⟩, hcrash⟩ :=
      Progress.statements_error hupheld (hh.accepting henc hsize) p.body hh.start hbody
    exact ⟨⟨_, hprogress⟩, hcrash⟩
  · obtain ⟨calls, -, hprogress⟩ := Progress.statements_ok hupheld p.body hh.start hbody
    obtain ⟨log, items, htracks, -⟩ := hprogress.tracks
    obtain ⟨l', hheld⟩ := hh.progress hprogress
    obtain ⟨cause, hresult, rfl⟩ := error_of_at hfin
    split at hresult
    · cases hresult
    · next hfinal =>
      cases hresult
      obtain ⟨rfl, hcrash⟩ := finalize_refused htracks.status hheld hfinal
      exact ⟨⟨_, hprogress⟩, hcrash⟩

end Write

/-! ### Three endings -/

section Endings

variable {m : Memory} {s : Span} {l : Lease} {h : Leasehold} {p : Patch} {e e' : Emission Leasehold}

/-- **A body that ends well stands in its region.** -/
theorem outcome_of_ok (hh : m.Held s l h) (henc : m.Encloses s) (hsize : m.cells.size ≤ maxCells)
    (hfree : s.lease? = none) (hcells : h.memory.cells = m.cells) {routine : Routine}
    (hrun :
      p.write (Memory.globalSymbol m.addresses) (Emission.start .dynamic h) = .ok routine e') :
    p.Outcome m s (.ok routine e'.region.memory) := by
  obtain ⟨calls, e, hcalls, hprogress, hfin⟩ := write_ok hh henc hsize hrun
  obtain ⟨log, items, htracks, hlog⟩ := hprogress.tracks
  obtain ⟨l', hheld⟩ := hh.progress hprogress
  obtain ⟨cells, hfinished⟩ := htracks.finished hfin
  obtain ⟨-, hseal, -, hroutine⟩ := Emission.finalize_ok hfin
  have hlength : (e.context.cursor : Int) = cells.length := by
    rw [← hfinished.length, hroutine]
  rw [hlength] at hseal
  have hcell {i : Nat} (hi : (i : Int) < s.capacity.toInt) {v : Cell} :=
    hheld.load_sealed henc hsize hseal hi (v := v)
  obtain ⟨hframe, hmem⟩ := hheld.close (f := Leasehold.sealedSpan cells.length) (fun _ => rfl)
    fun _ => rfl
  have hregion := hheld.sealUp cells.length
  rw [hseal] at hregion
  rw [← (EStateM.Result.ok.inj hregion).2] at hframe hmem
  have hcapacity := henc.capacity
  have hroom := hfinished.room
  rw [hh.capacity] at hroom
  refine .patched hcalls ?_ hfinished.length.symm ?_ ?_ ?_ ?_ hframe
  · unfold assembleCalls?
    rw [← hlog, hfinished.recorded.mapM_item]
    exact (writeItems?_congr hfinished.labels 0 items 0).symm.trans hfinished.assembled
  · omega
  · intro i v hi
    have hlt : i < cells.length := (List.getElem?_eq_some_iff.mp hi).1
    exact (hcell (by omega)).mp (hfinished.written i v hi)
  · intro i hi hin
    obtain ⟨v, hv⟩ := henc.exists_cell hin
    rw [hv, ← hcell hin, hfinished.untouched i hi (by rw [hh.capacity]; omega),
      hh.load_eq_ok_iff henc hsize hin, hcells]
    exact hv
  · rwa [Leasehold.sealedSpan_leased hfree] at hmem

/-- **A region without a new instruction is given back as it was.** -/
theorem outcome_of_untouched (hh : m.Held s l h) (hfree : s.lease? = none)
    (hcells : h.memory.cells = m.cells) (hwritten : l.written = false) {failure : Failure}
    (hcrash : failure.crashed = false) (hregion : e.region = h) (hcursor : e.context.cursor = 0)
    (hemitted : p.emitted m = 0) :
    p.Outcome m s (.error (abandon failure e).1 (abandon failure e).2.memory) := by
  have habandon : abandon failure e =
      (failure, h.close (s.leased h.lease) (Leasehold.releasedSpan false)) := by
    unfold abandon
    rw [if_pos hcursor, hregion, Leasehold.release_of_open hh.parts hh.unclosed, hwritten]
  obtain ⟨hframe, hmem⟩ := hh.close (f := Leasehold.releasedSpan false) (fun _ => rfl) fun _ => rfl
  rw [habandon]
  refine .kept hcrash hemitted hcells (fun _ => ?_) hframe
  rwa [Leasehold.releasedSpan_leased hfree] at hmem

/-- An emission that is given up fills the region with traps and poisons it. -/
theorem exists_discard (hh : m.Held s l h) (henc : m.Encloses s) (hsize : m.cells.size ≤ maxCells)
    {calls : List Call}
    (hprogress : Progress (h.memory.Inside h.lease (s.leased h.lease)) .dynamic h calls e) :
    ∃ l' r, m.Held s l' r ∧
      (∀ i : Nat, i < s.capacity.toInt.toNat → Region.load r i = .ok Op.trap.cell) ∧
      Emission.discard e = .ok ()
        { context := { e.context with status := .discarded }
          region := r.close (s.leased r.lease) Leasehold.poisonedSpan } := by
  obtain ⟨log, items, htracks, -⟩ := hprogress.tracks
  have hcapacity := htracks.capacity
  have hroom : 0 + e.context.capacity ≤ Region.capacity h := by omega
  obtain ⟨r, hfill, hin, hw⟩ := Emission.exists_fillTraps (hh.accepting henc hsize)
    e.context.capacity ⟨hprogress.keeping.region, htracks.writable⟩ hroom
  obtain ⟨-, hstored⟩ := Emission.fillTraps_ok _ hfill htracks.writable (by
    rw [htracks.kept.capacity]
    exact hroom)
  obtain ⟨l', hheld⟩ := hh.of_inside hin (htracks.kept.trans hstored.toKept) hw
  refine ⟨l', r, hheld, ?_, ?_⟩
  · intro i hi
    have hreplicate : (List.replicate e.context.capacity Op.trap.cell)[i]? = some Op.trap.cell := by
      rw [List.getElem?_replicate, if_pos]
      rwa [htracks.capacity, hh.capacity]
    have hload := hstored.inside i _ hreplicate
    rwa [Nat.zero_add] at hload
  · have hpoison : Emission.onRegion .poisonRefused Region.poison { e with region := r } =
        .ok () { e with region := r.close (s.leased r.lease) Leasehold.poisonedSpan } := by
      unfold Emission.onRegion
      rw [hheld.poison]
    rw [Emission.discard_eq, htracks.status]
    exact (bind_of_ok hfill).trans (bind_of_ok hpoison)

/-- **A region with a new instruction is filled with traps.** -/
theorem outcome_of_touched (hh : m.Held s l h) (henc : m.Encloses s)
    (hsize : m.cells.size ≤ maxCells) (hfree : s.lease? = none) {failure : Failure}
    (hcrash : failure.crashed = false) {calls : List Call}
    (hprogress : Progress (h.memory.Inside h.lease (s.leased h.lease)) .dynamic h calls e)
    (hcursor : e.context.cursor ≠ 0) (hemitted : 0 < p.emitted m) :
    p.Outcome m s (.error (abandon failure e).1 (abandon failure e).2.memory) := by
  obtain ⟨l', r, hheld, htraps, hdiscard⟩ := exists_discard hh henc hsize hprogress
  have habandon : abandon failure e =
      (failure, r.close (s.leased r.lease) Leasehold.poisonedSpan) := by
    unfold abandon
    rw [if_neg hcursor, hdiscard]
  obtain ⟨hframe, hmem⟩ := hheld.close (f := Leasehold.poisonedSpan) (fun _ => rfl) fun _ => rfl
  rw [habandon]
  refine .trapped hcrash hemitted ?_ ?_ hframe
  · intro i hi
    exact (hheld.load_eq_ok_iff henc hsize hi).mp (htraps i (by omega))
  · rwa [Leasehold.poisonedSpan_leased hfree] at hmem

end Endings

/-! ### Every patch -/

/-- **A patch has three outcomes** on every memory whose tables agree, if its region lies inside the
memory and is not leased. -/
theorem outcome_of_sound {m : Memory} (hordered : m.Ordered) (hsound : m.Sound)
    (hsize : m.cells.size ≤ maxCells) (p : Patch) {s : Span} (htarget : p.target.Designates m s)
    (henc : m.Encloses s) (hfree : s.lease? = none) : p.Outcome m s (p.apply m) := by
  rcases Memory.lease_cases hordered hsound hsize htarget henc hfree with
    ⟨failure, hlease, hcrash⟩ | ⟨m₁, hprep, hrunning, hlease⟩
  · rw [apply_of_refused hlease]
    exact .kept hcrash (emitted_of_refused hlease) rfl (fun hs => hs) (htarget.frame hsound hfree)
  · have hheld := (hprep.held hfree).bindLease
    have hopen := (hprep.held hfree).openDynamic hrunning rfl
    have hemitted := emitted_of_open hlease hopen
    rw [apply_of_lease hlease, overwrite_of_open hopen]
    cases hrun : p.write (Memory.globalSymbol m.addresses) (Emission.start .dynamic _) with
    | ok routine e => exact outcome_of_ok hheld henc hsize hfree hprep.cells hrun
    | error failure e =>
      obtain ⟨⟨calls, hprogress⟩, hcrash⟩ := write_error hheld henc hsize hrun
      rw [after_of_error hrun] at hemitted
      by_cases hcursor : e.context.cursor = 0
      · have hnone : p.emitted m = 0 := by
          rw [hemitted]
          exact hprogress.emitted_eq_zero_iff.mpr hcursor
        exact outcome_of_untouched hheld hfree hprep.cells rfl hcrash
          (hprogress.untouched hcursor) hcursor hnone
      · have hsome : 0 < p.emitted m := by
          rw [hemitted]
          exact Nat.pos_of_ne_zero fun h => hcursor (hprogress.emitted_eq_zero_iff.mp h)
        exact outcome_of_touched hheld henc hsize hfree hcrash hprogress hcursor hsome

/-- **A patch has three outcomes.** Whatever has come about on a memory, a patch of a region that
lies inside the memory and is not leased puts its body there, or leaves everything as it was, or
fills the region with traps; which of the last two depends on whether an instruction was emitted.
Nothing outside the region is changed, no lease on it is left open, and nothing crashes. -/
theorem apply_outcome {w : Estate} (hw : w.Reachable) (p : Patch) {s : Span}
    (htarget : p.target.Designates w.memory s) (henc : w.memory.Encloses s)
    (hfree : s.lease? = none) : p.Outcome w.memory s (p.apply w.memory) := by
  obtain ⟨size, stack, m₀, hnew, hpath⟩ := hw.path
  obtain ⟨-, -, -, hsize⟩ := hpath.bounds hnew
  exact outcome_of_sound hw.sound.ordered hw.sound.tables hsize p htarget henc hfree

/-- A memory with one region. -/
def sampleEstate : Estate :=
  .run { memory := { cells := Array.replicate 16 0, limit := 8 } } [.memory (.reserve "hook" 4)]

/-- The region. -/
def sampleSpan : Span := { id := 0, name := "hook", base := 0, capacity := 4, length := 3 }

/-- A patch that returns at once. -/
def sampleReturn : Patch where
  pos := ⟨1, 1⟩
  target := .region "hook"
  body := [{ pos := ⟨2, 1⟩, op? := some "PROC" }, { pos := ⟨3, 1⟩, op? := some "RET" }]

/-- A patch without an instruction: its first word is none. -/
def sampleMisspelt : Patch where
  pos := ⟨1, 1⟩
  target := .region "hook"
  body := [{ pos := ⟨2, 1⟩, op? := some "PROK" }, { pos := ⟨3, 1⟩, op? := some "RET" }]

/-- A patch that jumps to a label that it does not have. -/
def sampleUnresolved : Patch where
  pos := ⟨1, 1⟩
  target := .region "hook"
  body := [
    { pos := ⟨2, 1⟩, op? := some "PROC" },
    { pos := ⟨3, 1⟩, op? := some "JREL", args := [{ pos := ⟨3, 6⟩, text := ":nowhere" }] }]

/-- Each of the three outcomes occurs. A patch that returns at once stands in the region, with the
cells behind it as they were; one without an instruction changes nothing; and of the third both
instructions are emitted before it fails, so that the region is full of traps. -/
theorem apply_outcome_sample :
    sampleEstate.Reachable ∧
      (∃ routine m', sampleReturn.apply sampleEstate.memory = .ok routine m' ∧
        routine.length = 2 ∧ m'.cells[0]? = some Op.proc.cell ∧ m'.cells[1]? = some Op.ret.cell ∧
        m'.cells[2]? = sampleEstate.memory.cells[2]? ∧
        { sampleSpan with length := 2 } ∈ m'.spans) ∧
      (∃ failure m', sampleMisspelt.apply sampleEstate.memory = .error failure m' ∧
        m'.cells = sampleEstate.memory.cells ∧ sampleSpan ∈ m'.spans) ∧
      sampleUnresolved.emitted sampleEstate.memory = 2 ∧
      ∃ failure m', sampleUnresolved.apply sampleEstate.memory = .error failure m' ∧
        (∀ i : Nat, i < 4 → m'.cells[i]? = some Op.trap.cell) ∧
        { sampleSpan with poisoned := true } ∈ m'.spans := by
  have hnew : Memory.new 16 8 = .ok { cells := Array.replicate 16 0, limit := 8 } := rfl
  have hreach : sampleEstate.Reachable := Estate.Reachable.run (.new hnew) _
  have hname : sampleEstate.memory.spanNamed? "hook" = some sampleSpan := by decide +kernel
  have hspan : sampleSpan ∈ sampleEstate.memory.spans := by decide +kernel
  have hsize : sampleEstate.memory.cells.size = 16 := by decide +kernel
  have henc : sampleEstate.memory.Encloses sampleSpan := by
    refine ⟨by decide, by decide, ?_⟩
    rw [hsize]
    decide
  have houtcome (p : Patch) (htarget : p.target = .region "hook") :
      p.Outcome sampleEstate.memory sampleSpan (p.apply sampleEstate.memory) :=
    apply_outcome hreach p (htarget ▸ .region hname) henc rfl
  refine ⟨hreach, ?_, ?_, by decide +kernel, ?_⟩
  · have hok : (sampleReturn.apply.result? sampleEstate.memory).isSome := by decide +kernel
    have hcells : (callsOf (some (Memory.globalSymbol sampleEstate.memory.addresses))
        sampleReturn.body).toOption.bind (assembleCalls? .dynamic 0) =
          some [Op.proc.cell, Op.ret.cell] := by decide +kernel
    have hreturn := houtcome sampleReturn rfl
    cases hrun : sampleReturn.apply sampleEstate.memory with
    | error failure m' => simp [result?, hrun] at hok
    | ok routine m' =>
      rw [hrun] at hreturn
      cases hreturn with
      | @patched _ _ calls cells hcalls hassembled hlength hfits hbody hrest hmem hframe =>
        rw [hcalls] at hcells
        obtain rfl := Option.some.inj (hassembled.symm.trans hcells)
        refine ⟨routine, m', rfl, hlength.symm, hbody 0 _ rfl, hbody 1 _ rfl, ?_, hmem⟩
        exact hrest 2 (by decide) (by decide)
  · have hfails : (sampleMisspelt.apply.result? sampleEstate.memory).isNone := by decide +kernel
    have hemitted : sampleMisspelt.emitted sampleEstate.memory = 0 := by decide +kernel
    have hmisspelt := houtcome sampleMisspelt rfl
    cases hrun : sampleMisspelt.apply sampleEstate.memory with
    | ok routine m' => simp [result?, hrun] at hfails
    | error failure m' =>
      rw [hrun] at hmisspelt
      cases hmisspelt with
      | kept hcrash hnone hcells hkept hframe => exact ⟨failure, m', rfl, hcells, hkept hspan⟩
      | trapped hcrash hsome htraps hmem hframe => simp [hemitted] at hsome
  · have hfails : (sampleUnresolved.apply.result? sampleEstate.memory).isNone := by
      decide +kernel
    have hemitted : sampleUnresolved.emitted sampleEstate.memory = 2 := by decide +kernel
    have hunresolved := houtcome sampleUnresolved rfl
    cases hrun : sampleUnresolved.apply sampleEstate.memory with
    | ok routine m' => simp [result?, hrun] at hfails
    | error failure m' =>
      rw [hrun] at hunresolved
      cases hunresolved with
      | kept hcrash hnone hcells hkept hframe => simp [hemitted] at hnone
      | trapped hcrash hsome htraps hmem hframe =>
        refine ⟨failure, m', rfl, fun i hi => ?_, hmem⟩
        have htrap := htraps i (by show (i : Int) < 4; omega)
        rwa [show sampleSpan.base.toInt.toNat = 0 from rfl, Nat.zero_add] at htrap

end Patch

end CellMachine
