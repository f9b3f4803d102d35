import CellMachine.Machine.Basic
import CellMachine.Proofs.Emission.Region

/-!
# The stack

The stack grows down from the end of the memory to its limit. Pushes write the cells below the stack
pointer one after the other and nothing else, as long as there is room; on a full stack they
overflow.

* `Machine.Stacked` — the stack lies inside the memory, and the stack pointer in the stack.
* `Machine.PushedCells` — what a number of pushes writes, and that it writes nothing else;
  `Machine.PushedCells.above` — where each cell stands then.
* `Machine.pushAll_cells`, `Machine.pushAll_of_full` — **cells are pushed if and only if there is
  room for all of them.**
* `Machine.pop_eq`, `Machine.pop_ok` — popping reads the cell at the stack pointer.
-/

namespace CellMachine

open CellMachine.Action

/-! ### Cells of a memory -/

namespace Memory

/-- Storing a cell changes what is read at its address alone. -/
theorem load_set {m : Memory} {a : Addr} (ha : m.inBounds a) (v : Cell) (b : Addr) :
    load { m with cells := m.cells.setIfInBounds a.toInt.toNat v } b =
      if b = a then .ok v else m.load b := by
  have hbounds : inBounds { m with cells := m.cells.setIfInBounds a.toInt.toNat v } b =
      m.inBounds b := by
    unfold inBounds
    rw [Array.size_setIfInBounds]
  unfold load
  rw [hbounds, get_set ha]
  by_cases hb : b = a
  · subst hb
    rw [if_pos ha, if_pos rfl, if_pos rfl]
  · rw [if_neg hb, if_neg hb]

/-- There is a cell where a cell stands. -/
theorem inBounds_of_load {m : Memory} {a : Addr} {v : Cell} (h : m.load a = .ok v) :
    m.inBounds a := by
  unfold load at h
  split at h
  · assumption
  · cases h

/-- A cell is stored if there is one at the address. -/
theorem store_of_bounds {m : Memory} {a : Addr} (ha : m.inBounds a) (v : Cell) :
    store a v m = .ok () { m with cells := m.cells.setIfInBounds a.toInt.toNat v } := by
  unfold store put
  rw [if_pos ha, if_pos ha]

/-- A cell that was stored stands at an address of the memory. -/
theorem store_ok {m m' : Memory} {a : Addr} {v : Cell} (h : store a v m = .ok () m') :
    m.inBounds a ∧ m' = { m with cells := m.cells.setIfInBounds a.toInt.toNat v } := by
  by_cases ha : m.inBounds a
  · rw [store_of_bounds ha] at h
    cases h
    exact ⟨ha, rfl⟩
  · unfold store at h
    rw [if_neg ha] at h
    cases h

end Memory

/-! ### Pushing -/

namespace Machine

/-- The stack lies inside the memory, and the stack pointer in the stack. -/
structure Stacked (x : Machine) : Prop where
  limit : 0 < x.memory.limit.toInt
  low : x.memory.limit.toInt ≤ x.processor.sp.toInt
  high : x.processor.sp.toInt ≤ x.memory.cells.size
  size : x.memory.cells.size ≤ maxCells

/-- What a number of pushes leaves alone. -/
structure Pushed (x : Machine) (count : Nat) (x' : Machine) : Prop where
  sp : x'.processor.sp.toInt = x.processor.sp.toInt - count
  steps : x'.processor.steps = x.processor.steps
  spans : x'.memory.spans = x.memory.spans
  limit : x'.memory.limit = x.memory.limit
  size : x'.memory.cells.size = x.memory.cells.size

/-- After pushes that there was room for the stack is as it should be. -/
theorem Stacked.pushed {x x' : Machine} {count : Nat} (hx : x.Stacked) (h : x.Pushed count x')
    (hroom : x.memory.limit.toInt + count ≤ x.processor.sp.toInt) : x'.Stacked := by
  have hsp := h.sp
  have hhigh := hx.high
  refine ⟨?_, ?_, ?_, ?_⟩
  · rw [h.limit]
    exact hx.limit
  · rw [h.limit]
    omega
  · rw [h.size]
    omega
  · rw [h.size]
    exact hx.size

/-- The cell below the stack pointer. -/
theorem Stacked.toInt_below {x : Machine} (hx : x.Stacked) :
    (x.processor.sp - 1).toInt = x.processor.sp.toInt - 1 := by
  have hmax : (maxCells : Int) = 35184372088832 := by decide
  have hlimit := hx.limit
  have hlow := hx.low
  have hhigh := hx.high
  have hsize := hx.size
  have hone : (1 : Addr).toInt = 1 := rfl
  rw [Int64.toInt_sub, hone]
  exact Int.bmod_eq_of_le (by omega) (by omega)

/-- The cells `vs` were pushed one after the other: each stands below the one before, and nothing
else has changed. -/
structure PushedCells (x : Machine) (vs : List Cell) (y : Machine) : Prop where
  processor : y.processor = { x.processor with sp := y.processor.sp }
  memory : y.memory = { x.memory with cells := y.memory.cells }
  size : y.memory.cells.size = x.memory.cells.size
  sp : y.processor.sp.toInt = x.processor.sp.toInt - vs.length
  pushed : ∀ (i : Nat) v, vs[i]? = some v → ∀ a : Addr, a.toInt = x.processor.sp.toInt - 1 - i →
    y.memory.load a = .ok v
  others : ∀ a : Addr, a.toInt < y.processor.sp.toInt ∨ x.processor.sp.toInt ≤ a.toInt →
    y.memory.load a = x.memory.load a

/-- Nothing is pushed. -/
theorem PushedCells.nil (x : Machine) : x.PushedCells [] x where
  processor := rfl
  memory := rfl
  size := rfl
  sp := by simp
  pushed i v h := by simp at h
  others _ _ := rfl

/-- Some more cells are pushed. -/
theorem PushedCells.append {x y z : Machine} {vs ws : List Cell} (h₁ : x.PushedCells vs y)
    (h₂ : y.PushedCells ws z) : x.PushedCells (vs ++ ws) z where
  processor := by
    rw [h₂.processor, h₁.processor]
  memory := by
    rw [h₂.memory, h₁.memory]
  size := h₂.size.trans h₁.size
  sp := by
    have hsp₁ := h₁.sp
    have hsp₂ := h₂.sp
    rw [List.length_append]
    omega
  pushed i v hv a ha := by
    have hsp₁ := h₁.sp
    by_cases hi : i < vs.length
    · rw [List.getElem?_append_left hi] at hv
      rw [h₂.others a (.inr (by omega))]
      exact h₁.pushed i v hv a ha
    · rw [List.getElem?_append_right (by omega)] at hv
      exact h₂.pushed _ v hv a (by omega)
  others a ha := by
    have hsp₁ := h₁.sp
    have hsp₂ := h₂.sp
    rw [h₂.others a (by omega), h₁.others a (by omega)]

/-- What cells were pushed is a number of pushes. -/
theorem PushedCells.counted {x y : Machine} {vs : List Cell} (h : x.PushedCells vs y) :
    x.Pushed vs.length y where
  sp := h.sp
  steps := by rw [h.processor]
  spans := by rw [h.memory]
  limit := by rw [h.memory]
  size := h.size

/-- Upwards from the stack pointer stand the cells that were pushed, the last one first. -/
theorem PushedCells.above {x y : Machine} {vs : List Cell} (h : x.PushedCells vs y) {k : Nat}
    {v : Cell} (hv : vs.reverse[k]? = some v) {a : Addr}
    (ha : a.toInt = y.processor.sp.toInt + k) : y.memory.load a = .ok v := by
  have hsp := h.sp
  have hk : k < vs.length := by
    rw [← List.length_reverse]
    exact (List.getElem?_eq_some_iff.mp hv).1
  rw [List.getElem?_reverse hk] at hv
  exact h.pushed _ v hv a (by omega)

/-- One cell is pushed if there is room for it. -/
theorem push_cell {x : Machine} (hx : x.Stacked)
    (hroom : x.memory.limit.toInt < x.processor.sp.toInt) (v : Cell) :
    ∃ y, push v x = .ok () y ∧ x.PushedCells [v] y := by
  obtain ⟨processor, memory⟩ := x
  have hbelow : (processor.sp - 1).toInt = processor.sp.toInt - 1 := hx.toInt_below
  have hlimit : 0 < memory.limit.toInt := hx.limit
  have hhigh : processor.sp.toInt ≤ memory.cells.size := hx.high
  change memory.limit.toInt < processor.sp.toInt at hroom
  have hfits : ¬processor.sp - 1 < memory.limit := by
    rw [Int64.lt_iff_toInt_lt, hbelow]
    omega
  have hin : memory.inBounds (processor.sp - 1) := Memory.inBounds_iff.mpr (by omega)
  have hstore := Memory.store_of_bounds hin v
  refine ⟨⟨{ processor with sp := processor.sp - 1 }, { memory with
    cells := memory.cells.setIfInBounds (processor.sp - 1).toInt.toNat v }⟩, ?_, rfl, rfl,
    Array.size_setIfInBounds, hbelow, ?_, ?_⟩
  · unfold push
    simp only [if_neg hfits, hstore]
  · intro i u hu a ha
    have hi : i = 0 := by
      have hlength := (List.getElem?_eq_some_iff.mp hu).1
      rw [List.length_singleton] at hlength
      omega
    subst hi
    cases hu
    have haddr : a = processor.sp - 1 := by
      rw [← Int64.toInt_inj, hbelow]
      change a.toInt = processor.sp.toInt - 1 - 0 at ha
      omega
    rw [Memory.load_set hin, if_pos haddr]
  · intro a ha
    have haddr : a ≠ processor.sp - 1 := by
      rintro rfl
      change (processor.sp - 1).toInt < (processor.sp - 1).toInt ∨
        processor.sp.toInt ≤ (processor.sp - 1).toInt at ha
      omega
    rw [Memory.load_set hin, if_neg haddr]

/-- A cell is not pushed on a full stack. -/
theorem push_of_full {x : Machine} (hx : x.Stacked)
    (hfull : x.processor.sp.toInt ≤ x.memory.limit.toInt) (v : Cell) :
    push v x = .error .stackOverflow x := by
  have hbelow := hx.toInt_below
  have hless : x.processor.sp - 1 < x.memory.limit := by
    rw [Int64.lt_iff_toInt_lt, hbelow]
    omega
  unfold push
  simp only [if_pos hless]

/-- **Cells are pushed one below the other** if there is room for all of them. -/
theorem pushAll_cells (vs : List Cell) : ∀ {x : Machine}, x.Stacked →
    x.memory.limit.toInt + vs.length ≤ x.processor.sp.toInt →
    ∃ y, pushAll vs x = .ok () y ∧ x.PushedCells vs y := by
  induction vs with
  | nil =>
    intro x _ _
    exact ⟨x, rfl, .nil x⟩
  | cons v rest ih =>
    intro x hx hroom
    rw [List.length_cons] at hroom
    obtain ⟨x₁, hpush, hfirst⟩ := push_cell hx (by omega) v
    have hsp := hfirst.counted.sp
    have hx₁ : x₁.Stacked := hx.pushed hfirst.counted (by simp only [List.length_singleton]; omega)
    obtain ⟨y, hrest, hall⟩ := ih hx₁ (by
      rw [hfirst.counted.limit]
      simp only [List.length_singleton] at hsp
      omega)
    exact ⟨y, (bind_of_ok hpush).trans hrest, hfirst.append hall⟩

/-- The stack overflows if there is not room for all cells. -/
theorem pushAll_of_full (vs : List Cell) : ∀ {x : Machine}, x.Stacked →
    x.processor.sp.toInt < x.memory.limit.toInt + vs.length →
    ∃ x', pushAll vs x = .error .stackOverflow x' ∧ x'.processor.steps = x.processor.steps := by
  induction vs with
  | nil =>
    intro x hx hfull
    have hlow := hx.low
    rw [List.length_nil] at hfull
    omega
  | cons v rest ih =>
    intro x hx hfull
    rw [List.length_cons] at hfull
    by_cases hroom : x.memory.limit.toInt < x.processor.sp.toInt
    · obtain ⟨x₁, hpush, hfirst⟩ := push_cell hx hroom v
      have hpushed : x.Pushed 1 x₁ := hfirst.counted
      have hsp := hpushed.sp
      have hx₁ := hx.pushed hpushed (by omega)
      obtain ⟨x', hrest, hsteps⟩ := ih hx₁ (by rw [hpushed.limit]; omega)
      exact ⟨x', (bind_of_ok hpush).trans hrest, hsteps.trans hpushed.steps⟩
    · exact ⟨x, bind_of_error (push_of_full hx (by omega) v), rfl⟩

/-- One more cell is pushed after the others. -/
theorem pushAll_concat (vs : List Cell) (v : Cell) :
    pushAll (vs ++ [v]) = (do pushAll vs; push v) := by
  induction vs with
  | nil => simp [pushAll]
  | cons u rest ih =>
    show (do push u; pushAll (rest ++ [v])) = (do (do push u; pushAll rest); push v)
    rw [ih, bind_assoc]

/-! ### Popping -/

/-- Popping reads the cell at the stack pointer and moves the pointer up. -/
theorem pop_eq (x : Machine) {v : Cell} (hsp : x.processor.sp.toInt < x.memory.size)
    (hload : x.memory.load x.processor.sp = .ok v) :
    pop x = .ok v { x with processor := { x.processor with sp := x.processor.sp + 1 } } := by
  have hfull : ¬(x.memory.size : Int) ≤ x.processor.sp.toInt := Int.not_le.mpr hsp
  have hread : load x.processor.sp x = .ok v x := by
    unfold load
    rw [hload]
  unfold pop
  refine (bind_of_ok rfl).trans ?_
  rw [if_neg hfull]
  exact (bind_of_ok hread).trans rfl

/-- What was popped was the cell at the stack pointer. -/
theorem pop_ok {x y : Machine} {v : Cell} (h : pop x = .ok v y) :
    x.memory.load x.processor.sp = .ok v ∧
      y = { x with processor := { x.processor with sp := x.processor.sp + 1 } } := by
  unfold pop at h
  obtain ⟨m, x₁, hget, h⟩ := ok_of_bind h
  cases hget
  split at h
  · cases h
  · obtain ⟨u, x₂, hload, h⟩ := ok_of_bind h
    unfold load at hload
    split at hload
    · next hcell =>
      cases hload
      obtain ⟨⟨⟩, x₃, hmove, h⟩ := ok_of_bind h
      cases hmove
      cases h
      exact ⟨hcell, rfl⟩
    · cases hload

end Machine

end CellMachine
