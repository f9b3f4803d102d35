import Mathlib.Algebra.Group.Int.Defs
import CellMachine.Emission.Buffer
import CellMachine.Proofs.Program.Layout

/-!
# Where the parts of an image lie

The layout of an image is checked with sums of addresses, which wrap around. A sum that wraps is
negative, and a negative end passes for one that lies low enough. The statements here compare what
the check says with the exact integers.

* `Overflows` — the exact sum of an address and a size is no address.
* `Image.inside_of_global` — the globals of an image that passes lie inside it.
* `Image.contains_iff` — a routine of an image that passes lies inside it, except exactly if its end
  wraps around and the end of the image does not.
* `Image.entryCells_ok_iff` — the cells of a routine can be taken exactly if it lies inside.
-/

namespace CellMachine

/-! ### Sums of addresses and sizes -/

/-- The exact sum of an address and a size is greater than every address, so that it wraps
around. -/
def Overflows (a n : Int64) : Prop := 2 ^ 63 ≤ a.toInt + n.toInt

instance (a n : Int64) : Decidable (Overflows a n) := inferInstanceAs (Decidable (_ ≤ _))

/-- A sum that is no address wraps around once. -/
theorem toInt_add_of_overflows {a n : Int64} (h : Overflows a n) :
    (a + n).toInt = a.toInt + n.toInt - 2 ^ 64 := by
  unfold Overflows at h
  have ha := a.toInt_lt
  have hn := n.toInt_lt
  rw [Int64.toInt_add, Int.bmod_def]
  omega

/-- A sum that wraps around is negative. -/
theorem toInt_add_neg {a n : Int64} (h : Overflows a n) : (a + n).toInt < 0 := by
  have ha := a.toInt_lt
  have hn := n.toInt_lt
  rw [toInt_add_of_overflows h]
  omega

/-- A sum of an address and a size that is an address is exact. -/
theorem toInt_add_of_not_overflows {a n : Int64} (ha : 0 ≤ a.toInt) (hn : 0 ≤ n.toInt)
    (h : ¬Overflows a n) : (a + n).toInt = a.toInt + n.toInt := by
  unfold Overflows at h
  rw [Int64.toInt_add]
  apply Int.bmod_eq_of_le
  · omega
  · omega

/-- An address that is not negative. -/
theorem toInt_nonneg_iff {a : Int64} : 0 ≤ a ↔ 0 ≤ a.toInt := Int64.le_iff_toInt_le

/-- An address that is negative. -/
theorem toInt_neg_iff {a : Int64} : a < 0 ↔ a.toInt < 0 := Int64.lt_iff_toInt_lt

/-- The end of a routine wraps around. -/
def RoutineEntry.Overflows (r : RoutineEntry) : Prop := CellMachine.Overflows r.base r.capacity

instance (r : RoutineEntry) : Decidable r.Overflows :=
  inferInstanceAs (Decidable (CellMachine.Overflows _ _))

namespace Image

/-- The end of an image wraps around. -/
def Overflows (img : Image) : Prop := 2 ^ 63 ≤ img.base.toInt + img.cells.size

instance (img : Image) : Decidable img.Overflows := inferInstanceAs (Decidable (_ ≤ _))

variable {img : Image}

/-- The number of cells of an image is a size, since storage has room for no more. -/
theorem toInt_size (hsize : img.cells.size ≤ maxCells) :
    (Int64.ofNat img.cells.size).toInt = img.cells.size := by
  have hmax : maxCells = 35184372088832 := by decide
  apply Int64.toInt_ofNat_of_lt
  omega

/-- The end of an image wraps around if the sum of its base and the number of its cells does. -/
theorem overflows_iff (hsize : img.cells.size ≤ maxCells) :
    img.Overflows ↔ CellMachine.Overflows img.base (Int64.ofNat img.cells.size) := by
  unfold Overflows CellMachine.Overflows
  rw [toInt_size hsize]

/-- The end of an image that does not wrap around. -/
theorem toInt_limit (hbase : 0 ≤ img.base.toInt) (h : ¬img.Overflows) :
    img.limit.toInt = img.base.toInt + img.cells.size := by
  unfold Overflows at h
  have hsize : (Int64.ofNat img.cells.size).toInt = img.cells.size :=
    Int64.toInt_ofNat_of_lt (by omega)
  unfold limit
  rw [toInt_add_of_not_overflows hbase (by omega), hsize]
  unfold CellMachine.Overflows
  omega

/-- The end of an image that wraps around is negative. -/
theorem toInt_limit_neg (hsize : img.cells.size ≤ maxCells) (h : img.Overflows) :
    img.limit.toInt < 0 :=
  toInt_add_neg ((overflows_iff hsize).mp h)

/-! ### What the check says -/

/-- Globals that pass the check lie between the base and the end. -/
theorem between_of_globalFault? {globals : List GlobalEntry} :
    ∀ {seen : List String}, img.globalFault? seen globals = none →
      ∀ g ∈ globals, img.base ≤ g.addr ∧ g.addr < img.limit := by
  induction globals with
  | nil => simp
  | cons first rest ih =>
    intro seen h g hg
    unfold globalFault? at h
    split at h
    · cases h
    · split at h
      · cases h
      · next hplace =>
        rcases List.mem_cons.mp hg with rfl | hg
        · simpa using hplace
        · exact ih h g hg

/-- No two globals that pass the check of names and places share a name, and none has a name that
was seen before. -/
theorem nodup_of_globalFault? {globals : List GlobalEntry} :
    ∀ {seen : List String}, img.globalFault? seen globals = none →
      (globals.map GlobalEntry.name).Nodup ∧ ∀ g ∈ globals, g.name ∉ seen := by
  induction globals with
  | nil =>
    intro seen _
    exact ⟨List.nodup_nil, fun g hg => absurd hg List.not_mem_nil⟩
  | cons g rest ih =>
    intro seen h
    unfold globalFault? at h
    split at h
    · cases h
    · next hseen =>
      split at h
      · cases h
      · obtain ⟨hnodup, hfresh⟩ := ih h
        have hname : g.name ∉ rest.map GlobalEntry.name := by
          intro hmem
          obtain ⟨t, ht, hname⟩ := List.mem_map.mp hmem
          exact hfresh t ht (hname ▸ List.mem_cons_self)
        refine ⟨List.nodup_cons.mpr ⟨hname, hnodup⟩, ?_⟩
        intro t ht
        rcases List.mem_cons.mp ht with rfl | ht
        · exact hseen
        · exact fun hmem => hfresh t ht (List.mem_cons_of_mem _ hmem)

/-- Routines that pass the check lie between the base and the end, as far as their ends tell. -/
theorem between_of_routineFault? {routines : List RoutineEntry} :
    ∀ {seen : List String}, img.routineFault? seen routines = none →
      ∀ r ∈ routines, 0 ≤ r.capacity ∧ img.base ≤ r.base ∧ r.limit ≤ img.limit := by
  induction routines with
  | nil => simp
  | cons first rest ih =>
    intro seen h r hr
    unfold routineFault? at h
    split at h
    · cases h
    · split at h
      · cases h
      · next hplace =>
        rcases List.mem_cons.mp hr with rfl | hr
        · simpa using hplace
        · exact ih h r hr

/-- The globals of an image that passes the check of its layout have none of the faults. -/
theorem globalFault?_of_checkLayout [BaseOrder] (h : img.checkLayout = .ok ()) :
    img.globalFault? [] img.globals = none := by
  unfold checkLayout layoutFault? at h
  split at h
  · cases h
  · next hfault =>
    split at hfault
    · cases hfault
    · rw [Option.or_eq_none_iff] at hfault
      exact hfault.1

/-- The base of an image that passes the check is not negative. -/
theorem base_nonneg [BaseOrder] (h : img.checkLayout = .ok ()) : 0 ≤ img.base.toInt :=
  toInt_nonneg_iff.mp (faults_of_checkLayout h).1

/-- What the check says about a routine, in exact integers as far as it can be. -/
theorem place_of_checkLayout [BaseOrder] (h : img.checkLayout = .ok ()) {r : RoutineEntry}
    (hr : r ∈ img.routines) :
    0 ≤ r.capacity.toInt ∧ img.base.toInt ≤ r.base.toInt ∧ r.limit.toInt ≤ img.limit.toInt := by
  obtain ⟨hcapacity, hbase, hlimit⟩ :=
    between_of_routineFault? (faults_of_checkLayout h).2.1 r hr
  exact ⟨toInt_nonneg_iff.mp hcapacity, Int64.le_iff_toInt_le.mp hbase,
    Int64.le_iff_toInt_le.mp hlimit⟩

/-! ### Exact places -/

/-- A routine lies inside the image as a range of integers. -/
structure Contains (img : Image) (r : RoutineEntry) : Prop where
  base : img.base.toInt ≤ r.base.toInt
  capacity : 0 ≤ r.capacity.toInt
  limit : r.base.toInt + r.capacity.toInt ≤ img.base.toInt + img.cells.size

/-- **The globals of an image that passes the check lie inside it.** An image whose end wraps around
has none: no address is below its end. -/
theorem inside_of_global [BaseOrder] (h : img.checkLayout = .ok ())
    (hsize : img.cells.size ≤ maxCells) {g : GlobalEntry} (hg : g ∈ img.globals) :
    img.base.toInt ≤ g.addr.toInt ∧ g.addr.toInt < img.base.toInt + img.cells.size := by
  obtain ⟨hlow, hhigh⟩ := between_of_globalFault? (globalFault?_of_checkLayout h) g hg
  rw [Int64.le_iff_toInt_le] at hlow
  rw [Int64.lt_iff_toInt_lt] at hhigh
  have hbase := base_nonneg h
  have hexact : ¬img.Overflows := by
    intro hwrap
    have hneg := toInt_limit_neg hsize hwrap
    omega
  rw [toInt_limit hbase hexact] at hhigh
  exact ⟨hlow, hhigh⟩

/-- **When a routine lies inside its image.** It does, unless its own end wraps around and the end
of the image does not. -/
theorem contains_iff [BaseOrder] (h : img.checkLayout = .ok ()) (hsize : img.cells.size ≤ maxCells)
    {r : RoutineEntry} (hr : r ∈ img.routines) :
    img.Contains r ↔ (r.Overflows → img.Overflows) := by
  obtain ⟨hcapacity, hbase, hlimit⟩ := place_of_checkLayout h hr
  have himg := base_nonneg h
  have hmax : (maxCells : Int) = 35184372088832 := by decide
  constructor
  · rintro ⟨-, -, hinside⟩ hwrap
    unfold RoutineEntry.Overflows CellMachine.Overflows at hwrap
    unfold Overflows
    omega
  · intro hwraps
    refine ⟨hbase, hcapacity, ?_⟩
    by_cases hwrap : r.Overflows
    · -- both ends wrap around once, so that they compare as the exact sums do
      have hends := hwraps hwrap
      have hrange := (overflows_iff hsize).mp hends
      have hr := toInt_add_of_overflows hwrap
      have hi := toInt_add_of_overflows hrange
      rw [toInt_size hsize] at hi
      unfold RoutineEntry.limit limit at hlimit
      omega
    · have hr : r.limit.toInt = r.base.toInt + r.capacity.toInt :=
        toInt_add_of_not_overflows (by omega) hcapacity hwrap
      by_cases hends : img.Overflows
      · have hneg := toInt_limit_neg hsize hends
        omega
      · rw [toInt_limit himg hends] at hlimit
        omega

/-- **When the cells of a routine can be taken.** A routine of an image that passes the check gives
its cells exactly if it lies inside the image; else there is a crash. -/
theorem entryCells_ok_iff [BaseOrder] (h : img.checkLayout = .ok ())
    (hsize : img.cells.size ≤ maxCells) {r : RoutineEntry} (hr : r ∈ img.routines) :
    (∃ cells, img.entryCells r = .ok cells) ↔ img.Contains r := by
  obtain ⟨hcapacity, hbase, -⟩ := place_of_checkLayout h hr
  have himg := base_nonneg h
  have hmax : (maxCells : Int) = 35184372088832 := by decide
  have hrange := r.base.toInt_lt
  have hstart : (r.base - img.base).toInt = r.base.toInt - img.base.toInt := by
    rw [Int64.toInt_sub]
    apply Int.bmod_eq_of_le
    · omega
    · omega
  have htaken : (∃ cells, img.entryCells r = .ok cells) ↔
      0 ≤ r.base - img.base ∧ r.base - img.base ≤ r.base - img.base + r.capacity ∧
        (r.base - img.base + r.capacity).toInt ≤ img.cells.size := by
    unfold entryCells
    dsimp only
    split
    · next hfits => exact ⟨fun _ => hfits, fun _ => ⟨_, rfl⟩⟩
    · next hfits =>
      constructor
      · rintro ⟨cells, hcells⟩
        cases hcells
      · intro hholds
        exact absurd hholds hfits
  rw [htaken, toInt_nonneg_iff, Int64.le_iff_toInt_le]
  by_cases hwrap : CellMachine.Overflows (r.base - img.base) r.capacity
  · -- the end of the slice is negative, and the routine longer than the image
    have hneg := toInt_add_neg hwrap
    unfold CellMachine.Overflows at hwrap
    constructor
    · rintro ⟨hlow, hhigh, -⟩
      omega
    · rintro ⟨-, -, hinside⟩
      omega
  · have hstop := toInt_add_of_not_overflows (by omega) hcapacity hwrap
    constructor
    · rintro ⟨-, -, hfits⟩
      exact ⟨hbase, hcapacity, by omega⟩
    · rintro ⟨-, -, hinside⟩
      refine ⟨by omega, by omega, by omega⟩

end Image

end CellMachine
