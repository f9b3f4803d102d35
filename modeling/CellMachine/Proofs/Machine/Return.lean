import CellMachine.Proofs.Machine.Activation
import CellMachine.Proofs.Machine.Decoders
import CellMachine.Proofs.Program.Bounds

/-!
# Returns and the count of arguments

A return takes the arguments of its frame off the stack. How many there are is a cell like any
other: the program pushed it before the call, and may have written over it since. So the return
compares the end of the arguments with the end of memory. It computes the end with wrap-around: an
end that is no address at all comes out negative and passes.

* `Machine.linkage_of_ret` — a return that ends well has read four cells at the frame pointer.
* `Linkage.ret_refused`, `Linkage.ret_passes`, `Linkage.ret_wraps` — the fates of a count.
* `Machine.ReturnsExactly` — what a return owes its caller.
* `Estate.Reachable.returnsExactly_iff` — **a return is exact if and only if the end of its
  arguments does not wrap around**; if it does, the run goes on with a negative stack pointer.
-/

namespace CellMachine

open CellMachine.Action

namespace Machine

/-! ### The cells of linkage -/

/-- The frame pointer points at a frame: four cells of memory that hold the saved frame pointer, the
return address, the code base and the count of arguments. -/
structure Linkage (x : Machine) (fp pc base count : Cell) : Prop where
  low : 0 ≤ x.processor.fp.toInt
  fp : x.memory.load x.processor.fp = .ok fp
  pc : x.memory.load (x.processor.fp + 1) = .ok pc
  base : x.memory.load (x.processor.fp + 2) = .ok base
  count : x.memory.load (x.processor.fp + 3) = .ok count

variable {x y : Machine} {fp pc base count : Cell} {ended : Bool}

/-- A count that stands three cells above a frame pointer which is an address is part of a frame. -/
theorem exists_linkage (hsize : x.memory.cells.size ≤ maxCells) (hlow : 0 ≤ x.processor.fp.toInt)
    (hcount : x.memory.load (x.processor.fp + 3) = .ok count) :
    x.processor.fp.toInt + 4 ≤ x.memory.cells.size ∧ ∃ fp pc base, x.Linkage fp pc base count := by
  have hmax : (maxCells : Int) = 35184372088832 := by decide
  obtain ⟨hin, hlast⟩ := Memory.inBounds_iff.mp (Memory.inBounds_of_load hcount)
  have hthree : (x.processor.fp + 3).toInt = x.processor.fp.toInt + 3 := by
    by_cases hwraps : Overflows x.processor.fp 3
    · exact absurd hin (Int.not_le.mpr (toInt_add_neg hwraps))
    · exact toInt_add_of_not_overflows hlow (by decide) hwraps
  have hload (k : Nat) (hk : k < 4) :
      ∃ v, x.memory.load (x.processor.fp + Int64.ofNat k) = .ok v := by
    have hplace : (x.processor.fp + Int64.ofNat k).toInt =
        (x.processor.fp.toInt.toNat + k : Nat) := by
      rw [toInt_above hsize hlow (by omega)]
      omega
    exact ⟨_, Memory.load_of_getElem? hplace (Array.getElem?_eq_getElem (by omega))⟩
  obtain ⟨fp, hfp⟩ := hload 0 (by decide)
  obtain ⟨pc, hpc⟩ := hload 1 (by decide)
  obtain ⟨base, hbase⟩ := hload 2 (by decide)
  have hzero : x.processor.fp + Int64.ofNat 0 = x.processor.fp := Int64.add_zero _
  exact ⟨by omega, fp, pc, base, hlow, hzero ▸ hfp, hpc, hbase, hcount⟩

/-- **A return that ends well has read a frame.** -/
theorem linkage_of_ret (h : ret x = .ok ended y) :
    ∃ fp pc base count, x.Linkage fp pc base count := by
  unfold ret at h
  obtain ⟨⟨⟩, x₀, hstart, h⟩ := ok_of_bind h
  cases hstart
  obtain ⟨fp, x₁, hfirst, h⟩ := ok_of_bind h
  obtain ⟨hfp, rfl⟩ := pop_ok hfirst
  obtain ⟨pc, x₂, hsecond, h⟩ := ok_of_bind h
  obtain ⟨hpc, rfl⟩ := pop_ok hsecond
  obtain ⟨base, x₃, hthird, h⟩ := ok_of_bind h
  obtain ⟨hbase, rfl⟩ := pop_ok hthird
  obtain ⟨count, x₄, hfourth, h⟩ := ok_of_bind h
  obtain ⟨hcount, rfl⟩ := pop_ok hfourth
  change x.memory.load x.processor.fp = .ok fp at hfp
  change x.memory.load (x.processor.fp + 1 + 1) = .ok base at hbase
  change x.memory.load (x.processor.fp + 1 + 1 + 1) = .ok count at hcount
  have htwo : x.processor.fp + 1 + 1 = x.processor.fp + 2 := Int64.add_assoc ..
  have hthree : x.processor.fp + 2 + 1 = x.processor.fp + 3 := Int64.add_assoc ..
  rw [htwo] at hbase hcount
  rw [hthree] at hcount
  have hlow := (Memory.inBounds_iff.mp (Memory.inBounds_of_load hfp)).1
  exact ⟨fp, pc, base, count, hlow, hfp, hpc, hbase, hcount⟩

/-! ### The fates of a count -/

namespace Linkage

variable (h : x.Linkage fp pc base count) (hsize : x.memory.cells.size ≤ maxCells)

include h hsize

/-- The end of the linkage is an address. -/
theorem toInt_end : x.processor.fp.toInt + 4 ≤ x.memory.cells.size ∧
    (x.processor.fp + 4).toInt = x.processor.fp.toInt + 4 := by
  have hhigh := (exists_linkage hsize h.low h.count).1
  exact ⟨hhigh, toInt_above hsize h.low (k := 4) hhigh⟩

/-- A count that is negative, or that leads behind the memory and is no greater than an address, is
refused. -/
theorem ret_refused
    (hcount : count.toInt < 0 ∨ x.memory.cells.size < x.processor.fp.toInt + 4 + count.toInt)
    (hexact : x.processor.fp.toInt + 4 + count.toInt < 2 ^ 63) :
    ret x = .error (.argumentUnderflow count) (x.unwound 4) := by
  obtain ⟨hhigh, hend⟩ := h.toInt_end hsize
  rw [ret_eq_of_linkage hsize h.low h.fp h.pc h.base h.count, if_pos]
  by_cases hneg : count.toInt < 0
  · exact .inl (toInt_neg_iff.mpr hneg)
  · have hlow := h.low
    have haddress : ¬Overflows (x.processor.fp + 4) count := by
      unfold Overflows
      omega
    refine .inr ?_
    rw [toInt_add_of_not_overflows (by omega) (Int.not_lt.mp hneg) haddress, hend]
    exact hcount.resolve_left hneg

/-- The return that is made if the count passes. It computes nothing and writes no cell. -/
theorem ret_passes (hpos : 0 ≤ count.toInt)
    (hhigh : (x.processor.fp + 4 + count).toInt ≤ x.memory.cells.size) :
    ∃ y, ret x = .ok (pc == returnSentinel) y ∧
      y.processor.sp = x.processor.fp + 4 + count ∧ y.processor.p = x.processor.p ∧
      y.processor.steps = x.processor.steps ∧ y.memory.cells = x.memory.cells := by
  have hfits : ¬(count < 0 ∨ (x.memory.size : Int) < (x.processor.fp + 4 + count).toInt) := by
    rintro (hneg | hover)
    · exact absurd (toInt_neg_iff.mp hneg) (Int.not_lt.mpr hpos)
    · exact absurd hover (Int.not_lt.mpr hhigh)
  rw [ret_eq_of_linkage hsize h.low h.fp h.pc h.base h.count, if_neg hfits]
  obtain ⟨hprocessor, hcells⟩ := leaveOne_eq
    ⟨{ x.processor with sp := x.processor.fp + 4 + count, fp, pc, codeBase := base }, x.memory⟩
  refine ⟨_, rfl, ?_, ?_, ?_, hcells⟩
  · rw [hprocessor]
  · rw [hprocessor]
  · rw [hprocessor]

/-- **A count whose end wraps around passes**, and leaves a negative stack pointer. -/
theorem ret_wraps (hwraps : 2 ^ 63 ≤ x.processor.fp.toInt + 4 + count.toInt) :
    ∃ y, ret x = .ok (pc == returnSentinel) y ∧
      y.processor.sp.toInt = x.processor.fp.toInt + 4 + count.toInt - 2 ^ 64 ∧
      y.processor.sp.toInt < 0 := by
  have hmax : (maxCells : Int) = 35184372088832 := by decide
  obtain ⟨hhigh, hend⟩ := h.toInt_end hsize
  have hover : Overflows (x.processor.fp + 4) count := by
    unfold Overflows
    rw [hend]
    exact hwraps
  have hneg := toInt_add_neg hover
  obtain ⟨y, hret, hsp, -⟩ := h.ret_passes hsize (by omega) (by omega)
  refine ⟨y, hret, ?_, hsp ▸ hneg⟩
  rw [hsp, toInt_add_of_overflows hover, hend]

end Linkage

/-! ### Exact returns -/

/-- What a return owes: if it ends well, the count of arguments is not negative, the arguments end
inside the memory and the stack pointer is their end; and a count of more arguments than there are
cells above the frame is a stack underflow. -/
structure ReturnsExactly (z : Machine) : Prop where
  succeeds : ∀ ended z', step z = .ok ended z' → ∃ count,
    z.memory.load (z.processor.fp + 3) = .ok count ∧ 0 ≤ count.toInt ∧
      z.processor.fp.toInt + 4 + count.toInt ≤ z.memory.cells.size ∧
      z'.processor.sp.toInt = z.processor.fp.toInt + 4 + count.toInt
  refuses : ∀ count, z.memory.load (z.processor.fp + 3) = .ok count → 0 ≤ z.processor.fp.toInt →
    z.memory.cells.size < z.processor.fp.toInt + 4 + count.toInt →
    ∃ z', step z =
      .error (.machineFault z.processor.pc Op.ret.code (.argumentUnderflow count)) z'

/-- The end of the arguments of the frame is greater than every address. -/
def CountWraps (z : Machine) (count : Cell) : Prop :=
  0 ≤ z.processor.fp.toInt ∧ z.memory.load (z.processor.fp + 3) = .ok count ∧
    2 ^ 63 ≤ z.processor.fp.toInt + 4 + count.toInt

variable {z : Machine} {ins : Fetched}

/-- A step of a return is the return. -/
theorem step_eq_ret (hsteps : ¬z.spent) (hfetch : z.memory.fetch z.processor.pc = .ok ins)
    (hret : ins.op = .ret) :
    step z = match ret (z.advanced ins) with
      | .ok ended z' => .ok ended z'
      | .error cause z' => .error (.machineFault z.processor.pc Op.ret.code cause) z' := by
  obtain ⟨op, first, second⟩ := ins
  cases hret
  exact step_eq hsteps hfetch

/-- A count whose end wraps around lets the return pass. -/
theorem CountWraps.passes (h : z.CountWraps count) (hsize : z.memory.cells.size ≤ maxCells)
    (hsteps : ¬z.spent) (hfetch : z.memory.fetch z.processor.pc = .ok ins) (hret : ins.op = .ret) :
    ∃ ended z', step z = .ok ended z' ∧
      z'.processor.sp.toInt = z.processor.fp.toInt + 4 + count.toInt - 2 ^ 64 ∧
      z'.processor.sp.toInt < 0 := by
  obtain ⟨hlow, hcount, hwraps⟩ := h
  obtain ⟨-, fp, pc, base, hlinkage⟩ :=
    exists_linkage (x := z.advanced ins) hsize hlow hcount
  obtain ⟨z', hreturn, hsp, hneg⟩ := hlinkage.ret_wraps hsize hwraps
  refine ⟨pc == returnSentinel, z', ?_, hsp, hneg⟩
  rw [step_eq_ret hsteps hfetch hret, hreturn]

/-- **A return is exact if and only if the end of its arguments does not wrap around.** -/
theorem returnsExactly_iff_not_wraps (hsize : z.memory.cells.size ≤ maxCells) (hsteps : ¬z.spent)
    (hfetch : z.memory.fetch z.processor.pc = .ok ins) (hret : ins.op = .ret) :
    z.ReturnsExactly ↔ ∀ count, ¬z.CountWraps count := by
  constructor
  · intro hexact count hwraps
    obtain ⟨ended, z', hstep, -, hneg⟩ := hwraps.passes hsize hsteps hfetch hret
    obtain ⟨count', -, hpos, -, hsp⟩ := hexact.succeeds ended z' hstep
    have hlow := hwraps.1
    omega
  · intro hnot
    refine ⟨?_, ?_⟩
    · intro ended z' hstep
      rw [step_eq_ret hsteps hfetch hret] at hstep
      split at hstep
      · next ended' y hreturn =>
        cases hstep
        obtain ⟨fp, pc, base, count, hlinkage⟩ := linkage_of_ret hreturn
        have hexact : z.processor.fp.toInt + 4 + count.toInt < 2 ^ 63 :=
          Int.not_le.mp fun hwraps => hnot count ⟨hlinkage.low, hlinkage.count, hwraps⟩
        by_cases hbad : count.toInt < 0 ∨
            z.memory.cells.size < z.processor.fp.toInt + 4 + count.toInt
        · rw [hlinkage.ret_refused hsize hbad hexact] at hreturn
          cases hreturn
        · obtain ⟨hpos, hhigh⟩ := not_or.mp hbad
          obtain ⟨y', hreturn', hsp, -⟩ := ret_of_linkage (x := z.advanced ins) hsize
            hlinkage.low (Int.not_lt.mp hpos) (Int.not_lt.mp hhigh) hlinkage.fp hlinkage.pc
            hlinkage.base hlinkage.count
          rw [hreturn] at hreturn'
          cases hreturn'
          exact ⟨count, hlinkage.count, Int.not_lt.mp hpos, Int.not_lt.mp hhigh, hsp⟩
      · cases hstep
    · intro count hcount hlow hover
      obtain ⟨-, fp, pc, base, hlinkage⟩ :=
        exists_linkage (x := z.advanced ins) hsize hlow hcount
      have hexact : z.processor.fp.toInt + 4 + count.toInt < 2 ^ 63 :=
        Int.not_le.mp fun hwraps => hnot count ⟨hlow, hcount, hwraps⟩
      refine ⟨(z.advanced ins).unwound 4, ?_⟩
      rw [step_eq_ret hsteps hfetch hret, hlinkage.ret_refused hsize (.inr hover) hexact]

/-- The size of the memory is the same all along a run. -/
theorem Visits.size {entry : Addr} {args : List Cell} (h : Visits entry args x y) :
    y.memory.cells.size = x.memory.cells.size :=
  h.upheld (Memory.upheld_size _) rfl

end Machine

/-- **A return is exact if and only if the end of its arguments does not wrap around**, in every run
on a memory that can come about. If the end wraps around, the return passes and the stack pointer is
negative. -/
theorem Estate.Reachable.returnsExactly_iff {w : Estate} (hw : w.Reachable) {processor : Processor}
    {entry : Addr} {args : List Cell} {z : Machine}
    (hvisits : Machine.Visits entry args { processor, memory := w.memory } z) (hsteps : ¬z.spent)
    {ins : Fetched} (hfetch : z.memory.fetch z.processor.pc = .ok ins) (hret : ins.op = .ret) :
    (z.ReturnsExactly ↔ ∀ count, ¬z.CountWraps count) ∧
      ∀ count, z.CountWraps count → ∃ ended z', Machine.step z = .ok ended z' ∧
        z'.processor.sp.toInt = z.processor.fp.toInt + 4 + count.toInt - 2 ^ 64 ∧
        z'.processor.sp.toInt < 0 := by
  have hsize : z.memory.cells.size ≤ maxCells := by
    obtain ⟨size, stack, m₀, hnew, hpath⟩ := hw.path
    rw [hvisits.size]
    exact (hpath.bounds hnew).2.2.2
  exact ⟨Machine.returnsExactly_iff_not_wraps hsize hsteps hfetch hret,
    fun count hwraps => hwraps.passes hsize hsteps hfetch hret⟩

namespace Estate

/-- A routine at 0 pushes the greatest count of arguments that there is, calls the routine at 5 and
halts. The other one returns at once. -/
def sampleGreedy : Estate :=
  run { memory := { cells := Array.replicate 32 0, limit := 16 } }
    [.memory (.store 0 Op.pushC.cell), .memory (.store 1 9223372036854775807),
      .memory (.store 2 Op.calla.cell), .memory (.store 3 5), .memory (.store 4 Op.halt.cell),
      .memory (.store 5 Op.proc.cell), .memory (.store 6 Op.ret.cell)]

/-- The machine that is about to run the routine at 0. -/
def sampleEntered : Machine :=
  (Machine.entered 0 []).after { processor := {}, memory := sampleGreedy.memory }

/-- The machine that is about to call the routine at 5. -/
def sampleCalling : Machine := Machine.step.after sampleEntered

/-- The machine that is about to return from it. -/
def sampleReturning : Machine := Machine.step.after (Machine.step.after sampleCalling)

/-- The return passes, though there are four cells above its frame. -/
theorem returnsExactly_iff_sample :
    sampleGreedy.Reachable ∧
      Machine.Visits 0 [] { processor := {}, memory := sampleGreedy.memory } sampleReturning ∧
      sampleReturning.CountWraps 9223372036854775807 ∧ ¬sampleReturning.ReturnsExactly ∧
      ∃ ended z', Machine.step sampleReturning = .ok ended z' ∧
        z'.processor.sp.toInt = 27 - 2 ^ 63 := by
  have hnew : Memory.new 32 16 = .ok { cells := Array.replicate 32 0, limit := 16 } := rfl
  have hreach : sampleGreedy.Reachable := Reachable.run (.new hnew) _
  have hentered : Machine.entered 0 [] { processor := {}, memory := sampleGreedy.memory } =
      .ok () sampleEntered := of_result? (by decide +kernel)
  have hvisits : Machine.Visits 0 [] { processor := {}, memory := sampleGreedy.memory }
      sampleReturning := by
    have hpush : Machine.step sampleEntered = .ok false sampleCalling :=
      of_result? (by decide +kernel)
    have hcall : Machine.step sampleCalling = .ok false (Machine.step.after sampleCalling) :=
      of_result? (by decide +kernel)
    exact .step (.step (.step (.start hentered) hpush) hcall) (of_result? (by decide +kernel))
  have hfetch : sampleReturning.memory.fetch sampleReturning.processor.pc =
      .ok { op := .ret } := by decide +kernel
  have hwraps : sampleReturning.CountWraps 9223372036854775807 :=
    ⟨by decide +kernel, by decide +kernel, by decide +kernel⟩
  obtain ⟨hiff, hpasses⟩ := hreach.returnsExactly_iff hvisits (by decide +kernel) hfetch rfl
  obtain ⟨ended, z', hstep, hsp, -⟩ := hpasses _ hwraps
  have hfp : sampleReturning.processor.fp.toInt = 24 := by decide +kernel
  refine ⟨hreach, hvisits, hwraps, fun hexact => hiff.mp hexact _ hwraps, ended, z', hstep, ?_⟩
  rw [hsp, hfp]
  decide

end Estate

end CellMachine
