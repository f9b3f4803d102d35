import CellMachine.Proofs.Memory.Outline
import CellMachine.Proofs.Wire.Lengths

/-!
# What can be done with an image

An image that is read from bytes, or that passes the check of its layout, is there to be used: the
cells of its routines are taken, and it is loaded into a memory. Whether this can go wrong depends
on two sums, the end of the image and the end of each routine. The check compares them after they
have wrapped around.

* `Image.Safe` — all parts of an image lie inside it, and nothing that is done with it crashes.
* `Image.loadImage_settles` — loading an image whose end does not wrap around never crashes.
* `Image.loadImage_crash` — loading one whose end wraps around can.
* `Image.safe_iff_of_accepted` — **an image is safe exactly if no end wraps around.**
-/

namespace CellMachine

open CellMachine.Action

namespace Memory

variable {m m' : Memory} {img : Image}

/-! ### Cells that are copied -/

/-- A memory has received the cells of an image: they are copied to free memory below the stack,
and all other cells are as they were. -/
structure Received (m : Memory) (img : Image) (m' : Memory) : Prop where
  low : m.next.toInt ≤ img.base.toInt
  high : img.base.toInt + img.cells.size ≤ m.limit.toInt
  cells : ∀ i : Nat, m'.cells[i]? =
    if img.base.toInt ≤ i ∧ i < img.base.toInt + img.cells.size then
      img.cells[i - img.base.toInt.toNat]?
    else m.cells[i]?

/-- Cells that fit are copied, and all other cells stay as they are. -/
theorem getElem?_copy {base : Addr} {cells : Array Cell} (hbase : 0 ≤ base.toInt)
    (hfits : base.toInt + cells.size ≤ m.cells.size) (i : Nat) :
    ((copy base cells).after m).cells[i]? =
      if base.toInt ≤ i ∧ i < base.toInt + cells.size then cells[i - base.toInt.toNat]?
      else m.cells[i]? := by
  obtain ⟨start, hstart⟩ := Int.eq_ofNat_of_zero_le hbase
  have hinside : ¬(base < 0 ∨ (m.size : Int) < base.toInt) := by
    rw [toInt_neg_iff]
    unfold size
    omega
  have hsize : cells.size ≤ m.cells.size - start := by omega
  simp only [after, copy, if_neg hinside]
  simp only [hstart, Int.toNat_natCast, size, Array.getElem?_append, Array.getElem?_extract,
    Array.size_append, Array.size_extract, Nat.min_eq_right hsize,
    Nat.min_eq_left (show start ≤ m.cells.size by omega), Nat.min_self, Nat.sub_zero, Nat.zero_add]
  -- before the copy, in it and after it
  by_cases hbefore : i < start
  · rw [if_pos (by omega), if_pos hbefore, if_pos hbefore, if_neg (by omega)]
  · by_cases hin : i < start + cells.size
    · rw [if_pos hin, if_neg hbefore, if_pos (by omega), if_pos (by omega)]
    · have hout : ¬((start : Int) ≤ i ∧ (i : Int) < start + cells.size) := by omega
      rw [if_neg hin, if_neg hout]
      by_cases hlast : i < m.cells.size
      · rw [if_pos (by omega), show start + cells.size + (i - (start + cells.size)) = i by omega]
      · rw [if_neg (by omega), Array.getElem?_eq_none (by omega)]

/-- Registering a region leaves all cells alone. -/
theorem register_cells (name : String) (base : Addr) (capacity : Int64) (m : Memory) :
    ((register name base capacity).after m).cells = m.cells := by
  rcases after_register name base capacity m with hsame | ⟨i, hnew⟩
  · rw [hsame]
  · rw [hnew]

/-- Registering routines leaves all cells alone. -/
theorem registerRoutines_cells (routines : List RoutineEntry) :
    Preserves (fun m' => m'.cells = m.cells) (registerRoutines routines) := by
  induction routines with
  | nil => exact .pure ()
  | cons r rest ih =>
    refine .bind (fun m' hm' => (register_cells _ _ _ m').trans hm') fun span =>
      .bind (.modify fun m' hm' => hm') fun _ => ih

/-! ### Loading -/

/-- A registration that fails is refused with a reason. -/
theorem register_error {name : String} {base : Addr} {capacity : Int64} {failure : Failure}
    (h : register name base capacity m = .error failure m') : failure.crashed = false := by
  unfold register at h
  split at h
  · cases h
    rfl
  · dsimp only at h
    split at h
    · cases h
      rfl
    · cases h

/-- A registration of routines that fails is refused with a reason. -/
theorem registerRoutines_error {routines : List RoutineEntry} {failure : Failure} :
    ∀ {m : Memory}, registerRoutines routines m = .error failure m' →
      failure.crashed = false := by
  induction routines with
  | nil =>
    intro m h
    cases h
  | cons r rest ih =>
    intro m h
    rcases error_of_bind h with hreg | ⟨span, m₁, hreg, h⟩
    · exact register_error hreg
    · rcases error_of_bind h with hmark | ⟨_, m₂, -, hrest⟩
      · cases hmark
      · exact ih hrest

/-- An image that is let in is received below the stack. -/
theorem Admits.received [BaseOrder] (h : m.Admits img) (hm : m.Reachable) (hend : ¬img.Overflows) :
    m.Received img (m.receive img) := by
  obtain ⟨hlow, hhigh⟩ := h.free
  rw [Int64.le_iff_toInt_le] at hlow hhigh
  have hbase := Image.base_nonneg h.layout
  rw [Image.toInt_limit hbase hend] at hhigh
  have hstack := hm.bounds.2.2.1
  refine ⟨hlow, hhigh, fun i => ?_⟩
  rw [cells_receive]
  exact getElem?_copy hbase (by omega) i

/-- When nothing but the place of an image is wrong, and that is behind the last cell, the copy
crashes. -/
theorem loadImage_of_behind [BaseOrder] (hversion : img.version = imageVersion)
    (hlayout : img.checkLayout = .ok ()) (hfree : m.next ≤ img.base ∧ img.limit ≤ m.limit)
    (hglobals : m.takenGlobal? img.globals = none) (hregions : m.takenRegion? img.routines = none)
    (hbehind : (m.size : Int) < img.base.toInt) : loadImage img m = .error .crash m := by
  have hget : (EStateM.get : Action Memory Memory) m = .ok m m := rfl
  have hplace : ¬(img.base < m.next ∨ m.limit < img.limit) := by
    rintro (hlow | hhigh)
    · exact Int64.not_lt.mpr hfree.1 hlow
    · exact Int64.not_lt.mpr hfree.2 hhigh
  have hcopy : copy img.base img.cells m = .error .crash m := by
    unfold copy
    rw [if_pos (.inr hbehind)]
  unfold loadImage
  rw [if_neg (not_not_intro hversion), hlayout]
  dsimp only
  rw [bind_of_ok (ofExcept_ok () m), bind_of_ok hget, if_neg hplace]
  simp only [hglobals, hregions]
  exact bind_of_error hcopy

/-- An image that would not begin behind the last cell is loaded or refused with a reason. -/
theorem loadImage_error [BaseOrder]
    (hplace : m.next ≤ img.base → img.limit ≤ m.limit → img.base.toInt ≤ m.size)
    (hlayout : img.checkLayout = .ok ()) {failure : Failure}
    (h : loadImage img m = .error failure m') : failure.crashed = false := by
  have hget : (EStateM.get : Action Memory Memory) m = .ok m m := rfl
  by_cases hadmits : m.Admits img
  · rw [loadImage_of_admits hadmits] at h
    exact registerRoutines_error h
  unfold loadImage at h
  by_cases hversion : img.version ≠ imageVersion
  · rw [if_pos hversion] at h
    cases h
    rfl
  rw [if_neg hversion, hlayout] at h
  replace h := (bind_of_ok (ofExcept_ok () m)).symm.trans h
  replace h := (bind_of_ok hget).symm.trans h
  by_cases hfree : img.base < m.next ∨ m.limit < img.limit
  · rw [if_pos hfree] at h
    cases h
    rfl
  rw [if_neg hfree] at h
  cases hglobals : m.takenGlobal? img.globals with
  | some name =>
    rw [hglobals] at h
    cases h
    rfl
  | none =>
    cases hregions : m.takenRegion? img.routines with
    | some name =>
      rw [hglobals, hregions] at h
      cases h
      rfl
    | none =>
      -- all checks are passed, so the image would have been let in
      have hlow : m.next ≤ img.base := Int64.not_lt.mp fun hlt => hfree (.inl hlt)
      have hhigh : img.limit ≤ m.limit := Int64.not_lt.mp fun hlt => hfree (.inr hlt)
      exact absurd ⟨Decidable.not_not.mp hversion, hlayout, ⟨hlow, hhigh⟩, hglobals, hregions,
        hplace hlow hhigh⟩ hadmits

end Memory

/-! ### Safe images -/

namespace Image

variable {img : Image}

/-- All parts of an image lie inside it as ranges of integers, the cells of its routines can be
taken, and loading it into any memory that can come about is refused with a reason or copies it to
free memory below the stack. -/
structure Safe [BaseOrder] (img : Image) : Prop where
  globals : ∀ g ∈ img.globals, img.base.toInt ≤ g.addr.toInt ∧
    g.addr.toInt < img.base.toInt + img.cells.size
  routines : ∀ r ∈ img.routines, img.Contains r
  taken : ∀ name, ∃ cells?, img.routineCells name = .ok cells?
  loaded : ∀ m : Memory, m.Reachable →
    (∃ failure m', Memory.loadImage img m = .error failure m' ∧ failure.crashed = false) ∨
      ∃ m', Memory.loadImage img m = .ok () m' ∧ m.Received img m'

/-- The cells of a routine are taken by its name if all routines lie inside the image. -/
theorem routineCells_ok [BaseOrder] (h : img.checkLayout = .ok ())
    (hsize : img.cells.size ≤ maxCells)
    (hinside : ∀ r ∈ img.routines, img.Contains r) (name : String) :
    ∃ cells?, img.routineCells name = .ok cells? := by
  unfold routineCells
  cases hfind : img.routine? name with
  | none => exact ⟨none, rfl⟩
  | some r =>
    have hr : r ∈ img.routines := List.mem_of_find?_eq_some hfind
    obtain ⟨cells, hcells⟩ := (entryCells_ok_iff h hsize hr).mpr (hinside r hr)
    exact ⟨some cells, congrArg (Except.map some) hcells⟩

/-- **Loading an image whose end does not wrap around never crashes.** -/
theorem loadImage_settles [BaseOrder] (h : img.checkLayout = .ok ()) (hend : ¬img.Overflows)
    {m : Memory} (hm : m.Reachable) :
    (∃ failure m', Memory.loadImage img m = .error failure m' ∧ failure.crashed = false) ∨
      ∃ m', Memory.loadImage img m = .ok () m' ∧ m.Received img m' := by
  cases hload : Memory.loadImage img m with
  | error failure m' =>
    refine .inl ⟨failure, m', rfl, Memory.loadImage_error ?_ h hload⟩
    intro _ hhigh
    rw [Int64.le_iff_toInt_le, toInt_limit (base_nonneg h) hend] at hhigh
    have hstack := hm.bounds.2.2.1
    unfold Memory.size
    omega
  | ok _ m' =>
    by_cases hadmits : m.Admits img
    · refine .inr ⟨m', rfl, ?_⟩
      obtain ⟨hlow, hhigh, hcells⟩ := hadmits.received hm hend
      rw [Memory.loadImage_of_admits hadmits] at hload
      have hkept : m'.cells = (m.receive img).cells :=
        (Memory.registerRoutines_cells img.routines).ok rfl hload
      exact ⟨hlow, hhigh, hkept ▸ hcells⟩
    · obtain ⟨failure, herror⟩ := Memory.loadImage_of_not_admits hadmits
      rw [herror] at hload
      cases hload

/-- A memory of two cells, one of which is the stack. -/
def narrowMemory : Memory := { cells := Array.replicate 2 0, limit := 1 }

/-- **Loading an image whose end wraps around can crash.** Its end is negative and seems to lie
below every stack, and it begins behind the last cell of every memory. -/
theorem loadImage_crash [BaseOrder] (hversion : img.version = imageVersion)
    (h : img.checkLayout = .ok ()) (hsize : img.cells.size ≤ maxCells) (hend : img.Overflows) :
    Memory.loadImage img narrowMemory = .error .crash narrowMemory := by
  have hmax : (maxCells : Int) = 35184372088832 := by decide
  have hneg := toInt_limit_neg hsize hend
  unfold Overflows at hend
  have hzero : (narrowMemory.next).toInt = 0 := by decide
  have hone : (narrowMemory.limit).toInt = 1 := by decide
  have hcells : narrowMemory.size = 2 := by decide
  apply Memory.loadImage_of_behind hversion h
  · rw [Int64.le_iff_toInt_le, Int64.le_iff_toInt_le]
    omega
  · simp [Memory.takenGlobal?, NameMap.contains, NameMap.lookup, narrowMemory]
  · simp [Memory.takenRegion?, NameMap.contains, NameMap.lookup, narrowMemory]
  · omega

/-- An image that passes the check is safe exactly if all its routines lie inside it and its end
does not wrap around; the latter does not matter if it is of another version and not loaded. -/
theorem safe_iff [BaseOrder] (h : img.checkLayout = .ok ()) (hsize : img.cells.size ≤ maxCells) :
    img.Safe ↔ (∀ r ∈ img.routines, r.Overflows → img.Overflows) ∧
      (img.version = imageVersion → ¬img.Overflows) := by
  constructor
  · intro hsafe
    constructor
    · intro r hr
      exact (contains_iff h hsize hr).mp (hsafe.routines r hr)
    · intro hversion hend
      have hcrash := loadImage_crash hversion h hsize hend
      have hnew : Memory.new 2 1 = .ok narrowMemory := rfl
      have hreach : narrowMemory.Reachable := .new hnew
      rcases hsafe.loaded narrowMemory hreach with ⟨failure, m', hload, hreported⟩ | ⟨m', hload, -⟩
      · rw [hcrash] at hload
        cases hload
        cases hreported
      · rw [hcrash] at hload
        cases hload
  · rintro ⟨hroutines, hend⟩
    have hinside : ∀ r ∈ img.routines, img.Contains r := fun r hr =>
      (contains_iff h hsize hr).mpr (hroutines r hr)
    refine ⟨fun g hg => inside_of_global h hsize hg, hinside, routineCells_ok h hsize hinside, ?_⟩
    intro m hm
    by_cases hversion : img.version = imageVersion
    · exact loadImage_settles h (hend hversion) hm
    · refine .inl ⟨.loadVersion img.version, m, ?_, rfl⟩
      unfold Memory.loadImage
      rw [if_pos hversion]
      rfl

/-- **When accepted images are safe.** An image that is read from bytes is safe exactly if neither
its own end nor the end of a routine wraps around. Any other image that passes the check is safe
under the condition of `safe_iff`. -/
theorem safe_iff_of_accepted [BaseOrder] (img : Image) :
    (∀ bytes, ofBytes bytes = .ok img →
      (img.Safe ↔ ¬img.Overflows ∧ ∀ r ∈ img.routines, ¬r.Overflows)) ∧
    (img.checkLayout = .ok () → img.cells.size ≤ maxCells →
      (img.Safe ↔ (∀ r ∈ img.routines, r.Overflows → img.Overflows) ∧
        (img.version = imageVersion → ¬img.Overflows))) := by
  refine ⟨fun bytes hread => ?_, fun h hsize => safe_iff h hsize⟩
  obtain ⟨hversion, h, hsize⟩ := ofBytes_ok hread
  rw [safe_iff h hsize]
  constructor
  · rintro ⟨hroutines, hend⟩
    exact ⟨hend hversion, fun r hr hwrap => hend hversion (hroutines r hr hwrap)⟩
  · rintro ⟨hend, hroutines⟩
    exact ⟨fun r hr hwrap => absurd hwrap (hroutines r hr), fun _ => hend⟩

/-- An image of three cells with a routine that begins inside it and does not end. -/
def endlessImage : Image where
  version := imageVersion
  base := 0
  cells? := some #[1, 2, 3]
  globals := []
  routines := [{ name := "r", base := 1, capacity := Int64.maxValue }]

/-- The image as bytes. -/
def endlessBytes : List UInt8 :=
  [0xa3, 0x01, 0x01, 0x03, 0x83, 0x01, 0x02, 0x03, 0x05, 0x81, 0xa3, 0x01, 0x61, 0x72, 0x02, 0x01,
    0x03, 0x1b, 0x7f, 0xff, 0xff, 0xff, 0xff, 0xff, 0xff, 0xff]

/-- The image is read from its bytes and passes the check of its layout, and it is not safe. -/
theorem safe_iff_of_accepted_sample :
    ofBytes endlessBytes = .ok endlessImage ∧ endlessImage.checkLayout = .ok () ∧
      ¬endlessImage.Safe := by
  have hread : ofBytes endlessBytes = .ok endlessImage := by
    have hsome : (ofBytes endlessBytes).toOption = some endlessImage := by decide +kernel
    cases hbytes : ofBytes endlessBytes with
    | error failure =>
      rw [hbytes] at hsome
      cases hsome
    | ok img =>
      rw [hbytes] at hsome
      exact congrArg Except.ok (Option.some.inj hsome)
  refine ⟨hread, (ofBytes_ok hread).2.1, fun hsafe => ?_⟩
  obtain ⟨-, hroutines⟩ := ((safe_iff_of_accepted endlessImage).1 endlessBytes hread).mp hsafe
  exact hroutines _ List.mem_cons_self (by decide)

end Image

end CellMachine
