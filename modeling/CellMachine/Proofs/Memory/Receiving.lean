import CellMachine.Proofs.Action
import CellMachine.Proofs.Memory.Names

/-!
# Images that are let in

Loading an image checks the image first, then copies its cells, defines its globals and registers
its routines. The module is about the first three of these steps.

* `Memory.Admits` — an image passes all that is checked before the memory changes.
* `Memory.receive` — the memory with the cells and the globals of an image.
* `Memory.loadImage_of_admits`, `Memory.loadImage_of_not_admits` — **an image that passes is
  received and its routines are registered; any other image is refused** and leaves the memory as it
  was.
-/

namespace CellMachine

open CellMachine.Action

/-- **No two globals of an image share a name**, if its layout passes. -/
theorem Image.globalNames_nodup [BaseOrder] {img : Image} (h : img.checkLayout = .ok ()) :
    (img.globals.map GlobalEntry.name).Nodup :=
  (nodup_of_globalFault? (globalFault?_of_checkLayout h)).1

namespace Memory

/-! ### Copied cells -/

/-- Copying changes nothing but the contents of cells. -/
theorem exists_copy (base : Addr) (cells : Array Cell) (m : Memory) :
    ∃ cells', (copy base cells).after m = { m with cells := cells' } ∧
      cells'.size = m.cells.size := by
  by_cases h : base < 0 ∨ m.size < base.toInt
  · refine ⟨m.cells, ?_, rfl⟩
    simp only [after, copy, if_pos h]
  · simp only [after, copy, if_neg h]
    refine ⟨_, rfl, ?_⟩
    have hbase : ¬(m.size : Int) < base.toInt := fun hlt => h (.inr hlt)
    simp only [Array.size_append, Array.size_extract, size] at hbase ⊢
    omega

/-- Filling a region preserves what copying preserves. -/
theorem preserves_fillStub {P : Memory → Prop} {base : Addr}
    (h : ∀ cells, Preserves P (copy base cells)) (capacity : Int64) :
    Preserves P (fillStub base capacity) :=
  .bind .get fun _ => .bind (h _) fun _ => .ite (.throw _) (.pure ())

/-- Filling a region changes nothing but the contents of cells. -/
theorem exists_fillStub (base : Addr) (capacity : Int64) (m : Memory) :
    ∃ cells', (fillStub base capacity).after m = { m with cells := cells' } ∧
      cells'.size = m.cells.size := by
  let P : Memory → Prop := fun m' => ∃ cells', m' = { m with cells := cells' } ∧
    cells'.size = m.cells.size
  have hcopy : ∀ cells, Preserves P (copy base cells) := by
    rintro cells m' ⟨cells', rfl, hsize⟩
    obtain ⟨cells'', hcopy, hsame⟩ := exists_copy base cells { m with cells := cells' }
    exact ⟨cells'', hcopy, hsame.trans hsize⟩
  exact preserves_fillStub hcopy capacity m ⟨m.cells, rfl, rfl⟩

/-- A region is filled if it begins inside the memory and there is room for it, or for the routine
if it is no larger than that. Otherwise the machine crashes. -/
theorem fillStub_cases (base : Addr) (capacity : Int64) (m : Memory) :
    (∃ m', fillStub base capacity m = .error .crash m') ∨
      (0 ≤ base.toInt ∧ base.toInt ≤ m.size ∧
        capacity.toInt ≤ max (m.size - base.toInt) stub.size ∧
        fillStub base capacity m =
          copy base (stubCells (min capacity.toInt (m.size - base.toInt))) m) := by
  have hget : (EStateM.get : Action Memory Memory) m = .ok m m := rfl
  unfold fillStub
  rw [bind_of_ok hget]
  by_cases hinside : base < 0 ∨ m.size < base.toInt
  · refine .inl ⟨m, bind_of_error ?_⟩
    unfold copy
    rw [if_pos hinside]
  · have hcopy : ∀ cells, ∃ m', copy base cells m = .ok () m' := by
      intro cells
      unfold copy
      rw [if_neg hinside]
      exact ⟨_, rfl⟩
    obtain ⟨m', hcopy⟩ := hcopy (stubCells (min capacity.toInt (m.size - base.toInt)))
    rw [bind_of_ok hcopy, hcopy]
    rw [not_or, toInt_neg_iff] at hinside
    by_cases hroom : max (m.size - base.toInt) stub.size < capacity.toInt
    · rw [if_pos hroom]
      exact .inl ⟨m', rfl⟩
    · rw [if_neg hroom]
      exact .inr ⟨by omega, by omega, by omega, rfl⟩

/-! ### The checks -/

/-- An image passes all that is checked before the memory changes. -/
structure Admits [BaseOrder] (m : Memory) (img : Image) : Prop where
  version : img.version = imageVersion
  layout : img.checkLayout = .ok ()
  free : m.next ≤ img.base ∧ img.limit ≤ m.limit
  globals : m.takenGlobal? img.globals = none
  regions : m.takenRegion? img.routines = none
  start : img.base.toInt ≤ m.size

/-- The memory with the cells and the globals of an image, before its routines are registered. -/
def receive (m : Memory) (img : Image) : Memory :=
  bindGlobals { (copy img.base img.cells).after m with next := img.limit } img.globals

/-- Receiving an image changes nothing but the contents of cells, what is handed out, and the
globals. -/
theorem exists_receive (m : Memory) (img : Image) :
    ∃ cells addresses, m.receive img = { m with
      cells
      next := img.limit
      addresses
      order := m.order ++ img.globals.map GlobalEntry.name } ∧ cells.size = m.cells.size := by
  obtain ⟨cells, hcopy, hsize⟩ := exists_copy img.base img.cells m
  unfold receive
  rw [hcopy, bindGlobals_eq]
  exact ⟨cells, _, rfl, hsize⟩

/-- The cells of an image are received by copying them. -/
theorem cells_receive (m : Memory) (img : Image) :
    (m.receive img).cells = ((copy img.base img.cells).after m).cells := by
  unfold receive
  rw [bindGlobals_eq]

/-- A global that is not one of the image keeps its address. -/
theorem globalAddr?_receive_of_not_mem {m : Memory} {img : Image} {name : String}
    (h : name ∉ img.globals.map GlobalEntry.name) :
    (m.receive img).globalAddr? name = m.globalAddr? name := by
  obtain ⟨cells, hcopy, -⟩ := exists_copy img.base img.cells m
  unfold receive
  rw [globalAddr?_bindGlobals_of_not_mem h, hcopy]
  rfl

/-- Cells that begin inside the memory are copied, and nothing but cells is changed. -/
theorem copy_of_inside {m : Memory} {base : Addr} (hbase : 0 ≤ base) (hstart : base.toInt ≤ m.size)
    (cells : Array Cell) :
    ∃ cells', copy base cells m = .ok () { m with cells := cells' } := by
  have hinside : ¬(base < 0 ∨ m.size < base.toInt) := by
    rintro (h | h)
    · exact Int64.not_lt.mpr hbase h
    · omega
  unfold copy
  rw [if_neg hinside]
  exact ⟨_, rfl⟩

/-- What an image brings along besides its routines changes no region. -/
theorem entries_receive (m : Memory) (img : Image) : (m.receive img).entries = m.entries := by
  obtain ⟨cells, addresses, hreceive, -⟩ := exists_receive m img
  rw [hreceive]
  rfl

/-- An image that is let in brings globals with new names along. -/
theorem Admits.fresh_globals [BaseOrder] {m : Memory} {img : Image} (h : m.Admits img) :
    ∀ g ∈ img.globals, m.globalAddr? g.name = none := by
  intro g hg
  have hfind : img.globals.find? (fun g => m.addresses.contains g.name) = none := by
    simpa [takenGlobal?] using h.globals
  have hnot := List.find?_eq_none.mp hfind g hg
  exact Option.not_isSome_iff_eq_none.mp hnot

/-- An image that is let in brings routines with new names along. -/
theorem Admits.fresh_routines [BaseOrder] {m : Memory} {img : Image} (h : m.Admits img) :
    ∀ r ∈ img.routines, m.Fresh r.name := by
  intro r hr
  have hfind : img.routines.find? (fun r => m.names.contains r.name) = none := by
    simpa [takenRegion?] using h.regions
  exact .of_not_contains (List.find?_eq_none.mp hfind r hr)

/-- The globals of a memory are listed when it has received an image that was let in. -/
theorem Admits.listed [BaseOrder] {m : Memory} {img : Image} (h : m.Admits img) (hm : m.Listed) :
    (m.receive img).Listed := by
  obtain ⟨cells, hcopy, -⟩ := exists_copy img.base img.cells m
  unfold receive
  rw [hcopy]
  exact Listed.bindGlobals (hm.of_globals rfl rfl) h.fresh_globals
    (Image.globalNames_nodup h.layout)

/-- An image that passes the checks is received, and then its routines are registered. -/
theorem loadImage_of_admits [BaseOrder] {m : Memory} {img : Image} (h : m.Admits img) :
    loadImage img m = registerRoutines img.routines (m.receive img) := by
  have hget : (EStateM.get : Action Memory Memory) m = .ok m m := rfl
  have hfree : ¬(img.base < m.next ∨ m.limit < img.limit) := by
    rintro (hlow | hhigh)
    · exact Int64.not_lt.mpr h.free.1 hlow
    · exact Int64.not_lt.mpr h.free.2 hhigh
  obtain ⟨cells, hcopy⟩ := copy_of_inside (Image.faults_of_checkLayout h.layout).1 h.start img.cells
  unfold receive loadImage
  rw [after_of_ok hcopy, if_neg (not_not_intro h.version), h.layout]
  dsimp only
  rw [bind_of_ok (ofExcept_ok () m), bind_of_ok hget, if_neg hfree]
  simp only [h.globals, h.regions]
  rw [bind_of_ok hcopy]
  rfl

/-- An image that does not pass the checks is refused, and the memory stays as it is. -/
theorem loadImage_of_not_admits [BaseOrder] {m : Memory} {img : Image} (h : ¬m.Admits img) :
    ∃ failure, loadImage img m = .error failure m := by
  have hget : (EStateM.get : Action Memory Memory) m = .ok m m := rfl
  unfold loadImage
  by_cases hversion : img.version ≠ imageVersion
  · rw [if_pos hversion]
    exact ⟨_, rfl⟩
  rw [if_neg hversion]
  cases hlayout : img.checkLayout with
  | error failure => exact ⟨failure, rfl⟩
  | ok _ =>
    dsimp only
    rw [bind_of_ok (ofExcept_ok () m), bind_of_ok hget]
    by_cases hfree : img.base < m.next ∨ m.limit < img.limit
    · rw [if_pos hfree]
      exact ⟨_, rfl⟩
    rw [if_neg hfree]
    cases hglobals : m.takenGlobal? img.globals with
    | some name => exact ⟨_, rfl⟩
    | none =>
      cases hregions : m.takenRegion? img.routines with
      | some name => exact ⟨_, rfl⟩
      | none =>
        -- nothing is left to fail but the copy, which begins behind the last cell
        have hlow : m.next ≤ img.base := Int64.not_lt.mp fun hlt => hfree (.inl hlt)
        have hhigh : img.limit ≤ m.limit := Int64.not_lt.mp fun hlt => hfree (.inr hlt)
        have hstart : ¬img.base.toInt ≤ m.size := by
          intro hstart
          exact h ⟨Decidable.not_not.mp hversion, hlayout, ⟨hlow, hhigh⟩, hglobals, hregions,
            hstart⟩
        have hcopy : copy img.base img.cells m = .error .crash m := by
          unfold copy
          rw [if_pos (.inr (by omega))]
        exact ⟨_, bind_of_error hcopy⟩

end Memory

end CellMachine
