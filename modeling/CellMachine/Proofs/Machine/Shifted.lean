import Mathlib.Algebra.Group.Nat.Defs
import CellMachine.Proofs.Lockstep
import CellMachine.Proofs.Machine.Bookkeeping
import CellMachine.Proofs.Machine.Decoders

/-!
# Machines whose code stands elsewhere

Two machines are compared. Their memories hold the same code at two different places and agree
everywhere else; their program counters and code bases differ by fixed distances. The module says
what an instruction does in both of them, if the data that it touches lie outside both places.

* `Covers`, `Elsewhere` — an address lies in a range, or outside both ranges.
* `Memory.Twin` — the two memories; `Machine.Shifted` — the two machines.
* `Machine.accesses` — the cells that an instruction reads or writes as data.
* `Machine.execute_inStep`, `Machine.ret_inStep` — **no instruction observes where it stands**,
  calls apart: a jump within the routine counts from the start of the routine or from its own
  operand, and the others do not look at the program counter or at the start of the routine.
-/

namespace CellMachine

open CellMachine.Action

/-! ### Ranges of cells -/

/-- An address is one of the `n` addresses from `base` on. -/
def Covers (base : Addr) (n : Nat) (a : Addr) : Prop :=
  base.toInt ≤ a.toInt ∧ a.toInt < base.toInt + n

instance (base : Addr) (n : Nat) (a : Addr) : Decidable (Covers base n a) :=
  inferInstanceAs (Decidable (_ ∧ _))

/-- A covered address is the start of the range and an offset. -/
theorem Covers.exists_offset {base : Addr} {n : Nat} {a : Addr} (h : Covers base n a)
    (hn : n < 2 ^ 63) : ∃ i < n, a = base + Int64.ofNat i := by
  obtain ⟨hlow, hhigh⟩ := h
  have hrange := a.toInt_lt
  have hrange' := a.le_toInt
  refine ⟨(a.toInt - base.toInt).toNat, by omega, ?_⟩
  have hoffset : (Int64.ofNat (a.toInt - base.toInt).toNat).toInt =
      ((a.toInt - base.toInt).toNat : Int) := Int64.toInt_ofNat_of_lt (by omega)
  rw [← Int64.toInt_inj, Int64.toInt_add, hoffset, Int.bmod_eq_of_le (by omega) (by omega)]
  omega

namespace Memory

variable {m : Memory} {base : Addr} {code : List Cell}

namespace Holds

/-- The addresses of cells that stand in memory do not wrap around. -/
theorem toInt_addr (h : m.Holds base code) (hshort : code.length < 2 ^ 63) {i : Nat}
    (hi : i < code.length) : (base + Int64.ofNat i).toInt = base.toInt + i := by
  have hstart := h.drop 0
  rw [show base + Int64.ofNat 0 = base from Int64.add_zero base, List.drop_zero] at hstart
  have hbase : 0 ≤ base.toInt := by
    cases code with
    | nil => exact absurd hi (Nat.not_lt_zero i)
    | cons v rest => exact (inBounds_iff.mp (inBounds_of_load h.head)).1
  have hcell := (inBounds_iff.mp (inBounds_of_load (h i _ (List.getElem?_eq_getElem hi)))).1
  have hoffset : (Int64.ofNat i).toInt = i := Int64.toInt_ofNat_of_lt (by omega)
  have hrange := base.toInt_lt
  rw [Int64.toInt_add, hoffset] at hcell ⊢
  unfold Int.bmod at hcell ⊢
  dsimp only at hcell ⊢
  omega

/-- Cells that stand in memory cover their addresses. -/
theorem covers (h : m.Holds base code) (hshort : code.length < 2 ^ 63) {i : Nat}
    (hi : i < code.length) : Covers base code.length (base + Int64.ofNat i) := by
  unfold Covers
  rw [h.toInt_addr hshort hi]
  omega

/-- A covered address shortly behind a cell is the address of a later cell. -/
theorem offset_lt (h : m.Holds base code) (hshort : code.length < 2 ^ 63) {i k : Nat}
    (hi : i < code.length) (hk : k ≤ 2)
    (hcovers : Covers base code.length (base + Int64.ofNat i + Int64.ofNat k)) :
    i + k < code.length := by
  obtain ⟨hlow, hhigh⟩ := hcovers
  have hbase : 0 ≤ base.toInt := by
    have hstart := h.toInt_addr hshort (i := 0) (by omega)
    have hcell := (inBounds_iff.mp (inBounds_of_load (h 0 _ (List.getElem?_eq_getElem
      (Nat.lt_of_le_of_lt (Nat.zero_le i) hi))))).1
    omega
  have haddr := h.toInt_addr hshort hi
  have hoffset : (Int64.ofNat k).toInt = k := Int64.toInt_ofNat_of_lt (by omega)
  have hrange := (base + Int64.ofNat i).toInt_lt
  rw [Int64.toInt_add, haddr, hoffset] at hlow hhigh
  rw [haddr] at hrange
  unfold Int.bmod at hlow hhigh
  dsimp only at hlow hhigh
  omega

/-- Cells still stand in memory after a cell elsewhere was overwritten. -/
theorem set (h : m.Holds base code) (hshort : code.length < 2 ^ 63) {a : Addr}
    (hin : m.inBounds a) (ha : ¬Covers base code.length a) (v : Cell) :
    Holds { m with cells := m.cells.setIfInBounds a.toInt.toNat v } base code := by
  intro i u hu
  have hi : i < code.length := (List.getElem?_eq_some_iff.mp hu).1
  have hne : base + Int64.ofNat i ≠ a := by
    rintro rfl
    exact ha (h.covers hshort hi)
  rw [load_set hin, if_neg hne]
  exact h i u hu

end Holds

end Memory

/-! ### Memories that agree outside two ranges -/

/-- An address lies outside two ranges of the same length. -/
def Elsewhere (b b' : Addr) (n : Nat) (a : Addr) : Prop := ¬Covers b n a ∧ ¬Covers b' n a

/-- The same code stands at `b` in the memory `m` and at `b'` in the memory `m'`, and outside these
two ranges there is no difference. -/
structure Memory.Twin (b b' : Addr) (code : List Cell) (m m' : Memory) : Prop where
  size : m'.cells.size = m.cells.size
  limit : m'.limit = m.limit
  outside : ∀ a, Elsewhere b b' code.length a → m'.load a = m.load a
  short : code.length < 2 ^ 63
  held : m.Holds b code
  held' : m'.Holds b' code

instance (b b' : Addr) (n : Nat) (a : Addr) : Decidable (Elsewhere b b' n a) :=
  inferInstanceAs (Decidable (_ ∧ _))

variable {b b' : Addr} {code : List Cell}

namespace Memory

/-- The cells that `k` pushes write, from a stack pointer on: as many as there is room for. -/
def pushes (m : Memory) (sp : Addr) : Nat → List Addr
  | 0 => []
  | k + 1 => if m.limit ≤ sp - 1 ∧ m.inBounds (sp - 1) then (sp - 1) :: m.pushes (sp - 1) k else []

/-- The cells that `k` pops read, from a stack pointer on: as many as there are. -/
def pops (m : Memory) (sp : Addr) : Nat → List Addr
  | 0 => []
  | k + 1 => if m.inBounds sp then sp :: m.pops (sp + 1) k else []

/-- Which cells are pushed does not depend on what stands in cells. -/
theorem pushes_congr {m m' : Memory} (hsize : m'.cells.size = m.cells.size)
    (hlimit : m'.limit = m.limit) (k : Nat) : ∀ sp, m'.pushes sp k = m.pushes sp k := by
  have hbounds (a : Addr) : m'.inBounds a = m.inBounds a := by
    unfold inBounds
    rw [hsize]
  induction k with
  | zero =>
    intro sp
    rfl
  | succ k ih =>
    intro sp
    unfold pushes
    rw [hbounds, hlimit, ih]

namespace Twin

variable {m m' : Memory}

/-- The same addresses are those of cells. -/
theorem inBounds (h : Twin b b' code m m') (a : Addr) : m'.inBounds a = m.inBounds a := by
  unfold Memory.inBounds
  rw [h.size]

/-- A cell elsewhere is the same in both memories. -/
theorem load (h : Twin b b' code m m') {a : Addr}
    (ha : m.inBounds a → Elsewhere b b' code.length a) : m'.load a = m.load a := by
  by_cases hin : m.inBounds a
  · exact h.outside a (ha hin)
  · unfold Memory.load
    rw [h.inBounds, if_neg hin, if_neg hin]

/-- A cell elsewhere is overwritten in both memories. -/
theorem store (h : Twin b b' code m m') {a : Addr}
    (ha : m.inBounds a → Elsewhere b b' code.length a) (v : Cell) :
    InStep (Twin b b' code) (Memory.store a v m) (Memory.store a v m') := by
  by_cases hin : m.inBounds a
  · have hin' : m'.inBounds a := (h.inBounds a).trans hin
    rw [store_of_bounds hin, store_of_bounds hin']
    refine .ok ⟨?_, h.limit, fun c hc => ?_, h.short, h.held.set h.short hin (ha hin).1 v,
      h.held'.set h.short hin' (ha hin).2 v⟩
    · rw [Array.size_setIfInBounds, Array.size_setIfInBounds]
      exact h.size
    · rw [load_set hin, load_set hin', h.outside c hc]
  · have hin' : ¬m'.inBounds a := by rwa [h.inBounds a]
    unfold Memory.store
    rw [if_neg hin, if_neg hin']
    exact .error ⟨rfl, h⟩

/-- The regions do not show. -/
theorem withSpans (h : Twin b b' code m m') (spans spans' : Array Span) :
    Twin b b' code { m with spans } { m' with spans := spans' } :=
  ⟨h.size, h.limit, h.outside, h.short, h.held, h.held'⟩

end Twin

end Memory

/-! ### Machines whose code stands elsewhere -/

/-- A processor whose program counter and code base are shifted. -/
def Processor.shifted (r : Processor) (δ Δ : Addr) (active : List (Option Nat)) : Processor :=
  { r with pc := r.pc + δ, codeBase := r.codeBase + Δ, active }

namespace Machine

/-- The memories differ in the ranges of the code alone, and the processors in program counter, code
base and activations: the first is shifted by `δ`, the second by `Δ`. -/
inductive Shifted (b b' : Addr) (code : List Cell) (δ Δ : Addr) : Machine → Machine → Prop
  | mk (r : Processor) (active : List (Option Nat)) {m m' : Memory} :
    Memory.Twin b b' code m m' → Shifted b b' code δ Δ ⟨r, m⟩ ⟨r.shifted δ Δ active, m'⟩

variable {δ Δ : Addr} {x x' : Machine}

/-! ### Parts of instructions -/

/-- What follows a look at both processors. -/
theorem getProcessor_bind {α : Type} {Q : α → Machine → Machine → Prop}
    {E : Failure → Failure → Machine → Machine → Prop} {f g : Processor → Action Machine α}
    (h : Matches Q E (f x.processor x) (g x'.processor x')) :
    Matches Q E ((getProcessor >>= f) x) ((getProcessor >>= g) x') := h

/-- What follows the search for a frame offset. -/
theorem frameAddr_bind {α : Type} {Q : α → Machine → Machine → Prop}
    {E : Failure → Failure → Machine → Machine → Prop} {f g : Addr → Action Machine α}
    {offset : Cell}
    (h : Matches Q E (f (x.processor.fp + offset) x) (g (x'.processor.fp + offset) x')) :
    Matches Q E ((frameAddr offset >>= f) x) ((frameAddr offset >>= g) x') := h

/-- Registers change in both processors. -/
theorem modifyProcessor_inStep (hx : Shifted b b' code δ Δ x x') {f f' : Processor → Processor}
    (hf : ∀ r active, f' (r.shifted δ Δ active) = (f r).shifted δ Δ active) :
    InStep (Shifted b b' code δ Δ) (modifyProcessor f x) (modifyProcessor f' x') := by
  cases hx with
  | mk r active hm =>
    have hshifted := Shifted.mk (δ := δ) (Δ := Δ) (f r) active hm
    rw [← hf] at hshifted
    exact .ok hshifted

/-- Setting `P`. -/
theorem setP_inStep (hx : Shifted b b' code δ Δ x x') (v : Cell) :
    InStep (Shifted b b' code δ Δ) (setP v x) (setP v x') :=
  modifyProcessor_inStep hx fun _ _ => rfl

/-- Setting `S`. -/
theorem setS_inStep (hx : Shifted b b' code δ Δ x x') (v : Cell) :
    InStep (Shifted b b' code δ Δ) (setS v x) (setS v x') :=
  modifyProcessor_inStep hx fun _ _ => rfl

/-- Computing. -/
theorem compute_inStep (hx : Shifted b b' code δ Δ x x') (f : Cell → Cell → Cell) :
    InStep (Shifted b b' code δ Δ) (compute f x) (compute f x') :=
  modifyProcessor_inStep hx fun _ _ => rfl

/-- Dividing. -/
theorem divide_inStep (hx : Shifted b b' code δ Δ x x') (f : Cell → Cell → Cell) :
    InStep (Shifted b b' code δ Δ) (divide f x) (divide f x') := by
  refine getProcessor_bind (.refuse ?_ ⟨rfl, hx⟩ fun _ => compute_inStep hx f)
  cases hx with
  | mk r active hm => exact Iff.rfl

/-- Continuing at an address, which is shifted as the program counter is. -/
theorem goto_inStep (hx : Shifted b b' code δ Δ x x') {a a' : Addr} (ha : a' = a + δ) :
    InStep (Shifted b b' code δ Δ) (goto a x) (goto a' x') := by
  subst ha
  exact modifyProcessor_inStep hx fun _ _ => rfl

/-- A jump by a distance from an instruction that is shifted as the program counter is. -/
theorem branch_inStep (hx : Shifted b b' code δ Δ x x') (pc : Addr) (distance : Cell)
    (f : Cell → Cell → Bool) :
    InStep (Shifted b b' code δ Δ) (branch pc distance f x) (branch (pc + δ) distance f x') := by
  refine modifyProcessor_inStep hx fun r active => ?_
  show (if f r.p r.s then { r.shifted δ Δ active with pc := pc + δ + 1 + distance } else
    r.shifted δ Δ active) = _
  have hpc : pc + δ + 1 + distance = pc + 1 + distance + δ := by
    rw [Int64.add_assoc, Int64.add_assoc, Int64.add_comm δ, ← Int64.add_assoc, ← Int64.add_assoc]
  rw [hpc]
  split
  · rfl
  · rfl

/-- Reading a cell elsewhere. -/
theorem load_inStep (hx : Shifted b b' code δ Δ x x') {a : Addr}
    (ha : Elsewhere b b' code.length a) :
    InStep (Shifted b b' code δ Δ) (load a x) (load a x') := by
  cases hx with
  | @mk r active m m' hm =>
    have hload : m'.load a = m.load a := hm.outside a ha
    unfold load
    simp only [hload]
    cases m.load a with
    | ok v => exact .ok (.mk r active hm)
    | error failure => exact .error ⟨rfl, .mk r active hm⟩

/-- Writing a cell elsewhere. -/
theorem store_inStep (hx : Shifted b b' code δ Δ x x') {a : Addr}
    (ha : Elsewhere b b' code.length a) (v : Cell) :
    InStep (Shifted b b' code δ Δ) (store a v x) (store a v x') := by
  cases hx with
  | @mk r active m m' hm =>
    have hstore := hm.store (fun _ => ha) v
    unfold store onMemory
    dsimp only
    generalize Memory.store a v m = o at hstore ⊢
    generalize Memory.store a v m' = o' at hstore ⊢
    cases hstore with
    | ok hm₁ => exact .ok (.mk r active hm₁)
    | error h => exact .error ⟨h.1, .mk r active h.2⟩

/-- Adding to a cell elsewhere. -/
theorem addTo_inStep (hx : Shifted b b' code δ Δ x x') {a : Addr}
    (ha : Elsewhere b b' code.length a) (delta : Cell) :
    InStep (Shifted b b' code δ Δ) (addTo a delta x) (addTo a delta x') :=
  .bind (load_inStep hx ha) fun v _ _ hx₁ => store_inStep hx₁ ha (v + delta)

/-- Moving the stack pointer. -/
theorem reserve_inStep (hx : Shifted b b' code δ Δ x x') (count : Cell) :
    InStep (Shifted b b' code δ Δ) (reserve count x) (reserve count x') := by
  cases hx with
  | @mk r active m m' hm =>
    have hx := Shifted.mk (δ := δ) (Δ := Δ) r active hm
    have hlimit : r.sp - count < m'.limit ↔ r.sp - count < m.limit := by rw [hm.limit]
    have hsize :
        (m'.size : Int) < (r.sp - count).toInt ↔ (m.size : Int) < (r.sp - count).toInt := by
      unfold Memory.size
      rw [hm.size]
    exact .get_bind (.refuse hlimit ⟨rfl, hx⟩ fun _ => .refuse hsize ⟨rfl, hx⟩ fun _ =>
      modifyProcessor_inStep hx fun _ _ => rfl)

/-- **Pushing, if the next cells of the stack lie elsewhere.** One cell fewer is left to look at. -/
theorem push_inStep (hx : Shifted b b' code δ Δ x x') {k : Nat}
    (hcells : ∀ c ∈ x.memory.pushes x.processor.sp (k + 1), Elsewhere b b' code.length c)
    (v : Cell) :
    Matches (fun _ y y' => Shifted b b' code δ Δ y y' ∧
        ∀ c ∈ y.memory.pushes y.processor.sp k, Elsewhere b b' code.length c)
      (fun f g y y' => f = g ∧ Shifted b b' code δ Δ y y') (push v x) (push v x') := by
  cases hx with
  | @mk r active m m' hm =>
    have hx := Shifted.mk (δ := δ) (Δ := Δ) r active hm
    change ∀ c ∈ m.pushes r.sp (k + 1), _ at hcells
    unfold push
    dsimp only
    show Matches _ _ _ (if r.sp - 1 < m'.limit then _ else _)
    rw [hm.limit]
    by_cases hfull : r.sp - 1 < m.limit
    · rw [if_pos hfull, if_pos hfull]
      exact .error ⟨rfl, hx⟩
    · rw [if_neg hfull, if_neg hfull]
      have hnext (hin : m.inBounds (r.sp - 1)) :
          m.pushes r.sp (k + 1) = (r.sp - 1) :: m.pushes (r.sp - 1) k :=
        if_pos ⟨Int64.not_lt.mp hfull, hin⟩
      have hstore := hm.store (a := r.sp - 1)
        (fun hin => hcells _ (by rw [hnext hin]; exact List.mem_cons_self)) v
      dsimp only [Processor.shifted]
      generalize hs : Memory.store (r.sp - 1) v m = o at hstore
      generalize Memory.store (r.sp - 1) v m' = o' at hstore ⊢
      cases hstore with
      | error h => exact .error ⟨h.1, .mk _ active h.2⟩
      | ok hm₁ =>
        obtain ⟨hin, hset⟩ := Memory.store_ok hs
        refine .ok ⟨.mk _ active hm₁, fun c hc => hcells c ?_⟩
        rw [hnext hin]
        refine List.mem_cons_of_mem _ ?_
        have hsame (cells : Array Cell) (hsize : cells.size = m.cells.size) (k : Nat) (sp : Addr) :
            Memory.pushes { m with cells } sp k = m.pushes sp k := by
          apply Memory.pushes_congr
          · exact hsize
          · rfl
        rwa [hset, hsame _ Array.size_setIfInBounds] at hc

/-- Popping reads the cell at the stack pointer, if there is one. -/
theorem pop_cases (x : Machine) :
    pop x = if (x.memory.size : Int) ≤ x.processor.sp.toInt then .error .stackUnderflow x
      else match x.memory.load x.processor.sp with
        | .ok v => .ok v { x with processor := { x.processor with sp := x.processor.sp + 1 } }
        | .error failure => .error failure x := by
  unfold pop
  refine (bind_of_ok rfl).trans ?_
  by_cases hempty : (x.memory.size : Int) ≤ x.processor.sp.toInt
  · rw [if_pos hempty, if_pos hempty]
    rfl
  · rw [if_neg hempty, if_neg hempty]
    cases hload : x.memory.load x.processor.sp with
    | ok v =>
      have hread : load x.processor.sp x = .ok v x := by
        unfold load
        rw [hload]
      exact bind_of_ok hread
    | error failure =>
      have hread : load x.processor.sp x = .error failure x := by
        unfold load
        rw [hload]
      exact bind_of_error hread

/-- **Popping, if the next cells of the stack lie elsewhere.** One cell fewer is left to look at. -/
theorem pop_inStep (hx : Shifted b b' code δ Δ x x') {k : Nat}
    (hcells : ∀ c ∈ x.memory.pops x.processor.sp (k + 1), Elsewhere b b' code.length c) :
    Matches (fun _ y y' => Shifted b b' code δ Δ y y' ∧
        ∀ c ∈ y.memory.pops y.processor.sp k, Elsewhere b b' code.length c)
      (fun f g y y' => f = g ∧ Shifted b b' code δ Δ y y') (pop x) (pop x') := by
  cases hx with
  | @mk r active m m' hm =>
    have hx := Shifted.mk (δ := δ) (Δ := Δ) r active hm
    change ∀ c ∈ m.pops r.sp (k + 1), _ at hcells
    have hnext (hin : m.inBounds r.sp) : m.pops r.sp (k + 1) = r.sp :: m.pops (r.sp + 1) k :=
      if_pos hin
    have hload : m'.load r.sp = m.load r.sp :=
      hm.load fun hin => hcells _ (by rw [hnext hin]; exact List.mem_cons_self)
    rw [pop_cases, pop_cases]
    show Matches _ _ (if (m.cells.size : Int) ≤ r.sp.toInt then _ else _)
      (if (m'.cells.size : Int) ≤ r.sp.toInt then _ else match m'.load r.sp with
        | .ok v => _
        | .error failure => _)
    rw [hm.size, hload]
    by_cases hempty : (m.cells.size : Int) ≤ r.sp.toInt
    · rw [if_pos hempty, if_pos hempty]
      exact .error ⟨rfl, hx⟩
    · rw [if_neg hempty, if_neg hempty]
      dsimp only
      cases hv : m.load r.sp with
      | error failure => exact .error ⟨rfl, hx⟩
      | ok v =>
        refine .ok ⟨.mk _ active hm, fun c hc => hcells c ?_⟩
        rw [hnext (Memory.inBounds_of_load hv)]
        exact List.mem_cons_of_mem _ hc

/-- Pushing cells one after the other. -/
theorem pushAll_inStep (vs : List Cell) {k : Nat} : ∀ {x x' : Machine},
    Shifted b b' code δ Δ x x' →
    (∀ c ∈ x.memory.pushes x.processor.sp (vs.length + k), Elsewhere b b' code.length c) →
    Matches (fun _ y y' => Shifted b b' code δ Δ y y' ∧
        ∀ c ∈ y.memory.pushes y.processor.sp k, Elsewhere b b' code.length c)
      (fun f g y y' => f = g ∧ Shifted b b' code δ Δ y y') (pushAll vs x) (pushAll vs x') := by
  induction vs with
  | nil =>
    intro x x' hx hcells
    rw [List.length_nil, Nat.zero_add] at hcells
    exact .ok ⟨hx, hcells⟩
  | cons v rest ih =>
    intro x x' hx hcells
    rw [List.length_cons, Nat.add_right_comm] at hcells
    exact .bind (push_inStep hx hcells v) fun _ _ _ h => ih h.1 h.2

/-! ### Instructions -/

/-- The cells that an instruction reads or writes as data. -/
def accesses (x : Machine) (ins : Fetched) : List Addr :=
  match ins.op with
  | .loadP | .loadS | .storP | .storS | .incG | .decG | .setm => [ins.first]
  | .loadLP | .loadLS | .storLP | .storLS | .incL | .decL => [x.processor.fp + ins.first]
  | .liP => [x.processor.p]
  | .siP => [x.processor.s]
  | .pushC | .pushP | .pushS => x.memory.pushes x.processor.sp 1
  | .popP | .popS => x.memory.pops x.processor.sp 1
  | .call | .calla => x.memory.pushes x.processor.sp 3
  | .ret => x.memory.pops x.processor.fp 4
  | _ => []

/-- **An instruction that is neither a call nor a return does not observe where it stands.** -/
theorem execute_inStep (hx : Shifted b b' code δ δ x x') {op : Op} {first second : Cell}
    (hcall : op ≠ .call) (hcalla : op ≠ .calla)
    (hcells : ∀ c ∈ x.accesses ⟨op, first, second⟩, Elsewhere b b' code.length c) (pc : Addr) :
    InStep (Shifted b b' code δ δ) (execute pc first second op x)
      (execute (pc + δ) first second op x') := by
  have hpush {v : Cell}
      (h : ∀ c ∈ x.memory.pushes x.processor.sp 1, Elsewhere b b' code.length c) :
      InStep (Shifted b b' code δ δ) (push v x) (push v x') :=
    (push_inStep hx h v).mono (fun _ _ _ h => h.1) fun _ _ _ _ h => h
  have hpop (h : ∀ c ∈ x.memory.pops x.processor.sp 1, Elsewhere b b' code.length c) :
      InStep (Shifted b b' code δ δ) (pop x) (pop x') :=
    (pop_inStep hx h).mono (fun _ _ _ h => h.1) fun _ _ _ _ h => h
  cases hx with
  | @mk r active m m' hm =>
    have hx := Shifted.mk (δ := δ) (Δ := δ) r active hm
    have hdata {a : Addr} (h : ∀ c ∈ [a], Elsewhere b b' code.length c) :
        Elsewhere b b' code.length a := h a (List.mem_singleton_self a)
    cases op
    case call => exact absurd rfl hcall
    case calla => exact absurd rfl hcalla
    all_goals simp only [execute, compare]
    case nop | proc | halt | ret => exact .ok hx
    case trap => exact .error ⟨rfl, hx⟩
    case stack => exact reserve_inStep hx first
    case constP | zeroP => exact setP_inStep hx _
    case constS | zeroS => exact setS_inStep hx _
    case addrLP => exact frameAddr_bind (setP_inStep hx _)
    case moveP => exact getProcessor_bind (setP_inStep hx _)
    case moveS => exact getProcessor_bind (setS_inStep hx _)
    case xchg => exact modifyProcessor_inStep hx fun _ _ => rfl
    case pushC => exact hpush hcells
    case pushP | pushS => exact getProcessor_bind (hpush hcells)
    case popP => exact .bind (hpop hcells) fun v _ _ h => setP_inStep h v
    case popS => exact .bind (hpop hcells) fun v _ _ h => setS_inStep h v
    case loadP => exact .bind (load_inStep hx (hdata hcells)) fun v _ _ h => setP_inStep h v
    case loadS => exact .bind (load_inStep hx (hdata hcells)) fun v _ _ h => setS_inStep h v
    case loadLP =>
      exact frameAddr_bind (.bind (load_inStep hx (hdata hcells)) fun v _ _ h => setP_inStep h v)
    case loadLS =>
      exact frameAddr_bind (.bind (load_inStep hx (hdata hcells)) fun v _ _ h => setS_inStep h v)
    case liP =>
      exact getProcessor_bind (.bind (load_inStep hx (hdata hcells)) fun v _ _ h => setP_inStep h v)
    case storP | storS | siP => exact getProcessor_bind (store_inStep hx (hdata hcells) _)
    case setm => exact store_inStep hx (hdata hcells) _
    case storLP | storLS =>
      exact frameAddr_bind (getProcessor_bind (store_inStep hx (hdata hcells) _))
    case incG | decG => exact addTo_inStep hx (hdata hcells) _
    case incL | decL => exact frameAddr_bind (addTo_inStep hx (hdata hcells) _)
    case incP | decP | add | sub | mul | and | or | xor | shl | shr | neg | not | eq | neq | less |
        leq | grtr | geq => exact compute_inStep hx _
    case div | mod => exact divide_inStep hx _
    case jump =>
      refine getProcessor_bind (goto_inStep hx ?_)
      show r.codeBase + δ + first = r.codeBase + first + δ
      rw [Int64.add_assoc, Int64.add_comm δ, ← Int64.add_assoc]
    case jrel | jzer | jnz | jeq | jneq => exact branch_inStep hx pc first _

/-- The two machines differ in program counter, code base and activations, and in the ranges of the
code. -/
def Alike (b b' : Addr) (code : List Cell) (x x' : Machine) : Prop :=
  ∃ δ Δ, Shifted b b' code δ Δ x x'

/-- Regions and activations do not show. -/
theorem Shifted.withBooks (hx : Shifted b b' code δ Δ x x') (active active' : List (Option Nat))
    (spans spans' : Array Span) :
    Shifted b b' code δ Δ ⟨{ x.processor with active }, { x.memory with spans }⟩
      ⟨{ x'.processor with active := active' }, { x'.memory with spans := spans' }⟩ := by
  cases hx with
  | mk r _ hm => exact .mk { r with active } active' (hm.withSpans spans spans')

/-- Leaving the innermost activations does not show. -/
theorem Shifted.leaveOne (hx : Shifted b b' code δ Δ x x') :
    Shifted b b' code δ Δ x.leaveOne x'.leaveOne := by
  have hleave (y : Machine) : y.leaveOne =
      ⟨{ y.processor with active := y.leaveOne.processor.active },
        { y.memory with spans := y.leaveOne.memory.spans }⟩ := by
    obtain ⟨processor, memory⟩ := y
    unfold Machine.leaveOne
    cases hactive : processor.active with
    | nil =>
      simp only [hactive]
      rw [← hactive]
    | cons id? rest =>
      simp only [hactive]
      rw [← Memory.leave_eq]
  rw [hleave x, hleave x']
  exact hx.withBooks _ _ _ _

/-- **A return does not observe where it stands**: it goes where its frame says. -/
theorem ret_inStep (hx : Shifted b b' code δ Δ x x')
    (hcells : ∀ c ∈ x.memory.pops x.processor.fp 4, Elsewhere b b' code.length c) :
    Matches (fun _ => Shifted b b' code 0 0)
      (fun f g y y' => f = g ∧ Shifted b b' code δ Δ y y') (ret x) (ret x') := by
  cases hx with
  | @mk r active m m' hm =>
    unfold ret
    refine Matches.bind (Q := fun _ y y' => Shifted b b' code δ Δ y y' ∧
        ∀ c ∈ y.memory.pops y.processor.sp 4, Elsewhere b b' code.length c)
      (.ok ⟨.mk { r with sp := r.fp } active hm, hcells⟩) fun _ _ _ h => ?_
    refine .bind (pop_inStep h.1 h.2) fun fp _ _ h => ?_
    refine .bind (pop_inStep h.1 h.2) fun pc _ _ h => ?_
    refine .bind (pop_inStep h.1 h.2) fun base _ _ h => ?_
    refine .bind (pop_inStep h.1 h.2) fun count _ _ ⟨hy, _⟩ => ?_
    cases hy with
    | @mk r active m m' hm =>
      have hsize : (count < 0 ∨ (m'.cells.size : Int) < (r.sp + count).toInt) ↔
          (count < 0 ∨ (m.cells.size : Int) < (r.sp + count).toInt) := by rw [hm.size]
      refine .get_bind (.refuse hsize ⟨rfl, .mk r active hm⟩ fun _ => ?_)
      -- the frame holds addresses, not offsets: from here on nothing is shifted
      have hreturned := Shifted.mk (δ := 0) (Δ := 0)
        { r with sp := r.sp + count, fp, pc, codeBase := base } active hm
      unfold Processor.shifted at hreturned
      simp only [Int64.add_zero] at hreturned
      refine Matches.bind (Q := fun _ => Shifted b b' code 0 0) (.ok hreturned) fun _ _ _ h => ?_
      exact Matches.bind (Q := fun _ => Shifted b b' code 0 0) (.ok h.leaveOne) fun _ _ _ h => .ok h

/-- **An instruction does not observe where it stands**, unless it is a call. If the run goes on, it
goes on in step; a return that ends the run leaves nothing shifted. -/
theorem perform_inStep (hx : Shifted b b' code δ δ x x') {ins : Fetched}
    (hcall : ins.op ≠ .call) (hcalla : ins.op ≠ .calla)
    (hcells : ∀ c ∈ x.accesses ins, Elsewhere b b' code.length c) {pc : Addr}
    (hret : ins.op = .ret → ∀ y, perform pc ins x ≠ .ok false y) :
    Matches (fun ended y y' => Alike b b' code y y' ∧
        (ended = false → Shifted b b' code δ δ y y'))
      (fun f g y y' => f = g ∧ Alike b b' code y y') (perform pc ins x)
      (perform (pc + δ) ins x') := by
  obtain ⟨op, first, second⟩ := ins
  by_cases hop : op = .halt
  · subst hop
    exact .ok ⟨⟨_, _, hx⟩, fun h => (nomatch h)⟩
  by_cases hop' : op = .ret
  · subst hop'
    have hmatches := ret_inStep hx hcells
    change Matches _ _ (ret x) (ret x')
    change _ → ∀ y, ret x ≠ .ok false y at hret
    generalize ret x = o at hmatches hret ⊢
    generalize ret x' = o' at hmatches ⊢
    cases hmatches with
    | @ok ended y y' h =>
      refine .ok ⟨⟨_, _, h⟩, fun hended => ?_⟩
      subst hended
      exact absurd rfl (hret rfl y)
    | error h => exact .error ⟨h.1, _, _, h.2⟩
  · rw [perform_eq hop hop', perform_eq hop hop']
    have hexecute := execute_inStep hx hcall hcalla hcells pc
    refine .bind (hexecute.mono (fun _ _ _ h => h) fun _ _ _ _ h => ⟨h.1, _, _, h.2⟩) ?_
    exact fun _ _ _ h => .ok ⟨⟨_, _, h⟩, fun _ => h⟩

end Machine

end CellMachine
