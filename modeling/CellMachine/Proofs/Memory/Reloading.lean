import CellMachine.Command.Image
import CellMachine.Proofs.Memory.Safety
import CellMachine.Proofs.Memory.Within

/-!
# Loading an image with other cells

A memory that is set up from a manifest holds an image and, behind it, the regions of the manifest.
The cells of the image have no part in where anything goes: an image with other cells, as many as
before, is loaded into the same memory, except that the place of the image holds the other cells.

* `Memory.overlaid` — cells with some of them replaced.
* `Memory.registerRoutines_commutes` — registering routines does not look at cells.
* `Memory.reserve_of_ok` — what reserving a region does, whichever cells there are.
* `Manifest.loadMemory_ok_iff` — the two parts of setting a memory up.
* `Manifest.loadMemory_withCells` — **an image with other cells is loaded in the same way.**
-/

namespace CellMachine

open CellMachine.Action

namespace Memory

/-! ### Overlaid cells -/

/-- Cells with new ones in the place of those from an address on. -/
def overlaid (cells : Array Cell) (base : Addr) (new : Array Cell) : Array Cell :=
  ((copy base new).after { cells, limit := 0 }).cells

/-- Cells are copied into a memory if they begin inside it. -/
theorem copy_eq {m : Memory} {base : Addr} {new : Array Cell} (hbase : 0 ≤ base.toInt)
    (hfits : base.toInt + new.size ≤ m.cells.size) :
    copy base new m = .ok () { m with cells := overlaid m.cells base new } := by
  have hinside (m' : Memory) (hm' : m'.cells.size = m.cells.size) :
      ¬(base < 0 ∨ (m'.size : Int) < base.toInt) := by
    rw [toInt_neg_iff]
    unfold size
    omega
  unfold overlaid after
  simp only [copy, if_neg (hinside m rfl)]
  rw [if_neg (hinside { cells := m.cells, limit := 0 } rfl)]
  rfl

/-- The cells after others were laid over them. -/
theorem getElem?_overlaid {cells new : Array Cell} {base : Addr} (hbase : 0 ≤ base.toInt)
    (hfits : base.toInt + new.size ≤ cells.size) (i : Nat) :
    (overlaid cells base new)[i]? =
      if base.toInt ≤ i ∧ i < base.toInt + new.size then new[i - base.toInt.toNat]?
      else cells[i]? :=
  getElem?_copy (m := { cells, limit := 0 }) hbase hfits i

/-- There are as many cells as before. -/
theorem size_overlaid {cells new : Array Cell} {base : Addr} :
    (overlaid cells base new).size = cells.size :=
  (copy_sameOutline base new { cells, limit := 0 }).size

/-- Of two layers in one place the upper one counts. -/
theorem overlaid_overlaid {cells new new' : Array Cell} {base : Addr} (hbase : 0 ≤ base.toInt)
    (hfits : base.toInt + new.size ≤ cells.size) (hsize : new'.size = new.size) :
    overlaid (overlaid cells base new) base new' = overlaid cells base new' := by
  have hfits' : base.toInt + new'.size ≤ cells.size := by omega
  refine Array.ext_getElem? fun i => ?_
  rw [getElem?_overlaid hbase (by rw [size_overlaid]; exact hfits'), getElem?_overlaid hbase hfits',
    getElem?_overlaid hbase hfits, hsize]
  by_cases hin : base.toInt ≤ i ∧ (i : Int) < base.toInt + new.size
  · rw [if_pos hin, if_pos hin]
  · rw [if_neg hin, if_neg hin, if_neg hin]

/-- Two layers in separate places can be laid in any order. -/
theorem overlaid_comm {cells new new' : Array Cell} {base base' : Addr} (hbase : 0 ≤ base.toInt)
    (hbehind : base.toInt + new.size ≤ base'.toInt)
    (hfits : base'.toInt + new'.size ≤ cells.size) :
    overlaid (overlaid cells base new) base' new' =
      overlaid (overlaid cells base' new') base new := by
  have hbase' : 0 ≤ base'.toInt := by omega
  have hfirst : base.toInt + new.size ≤ cells.size := by omega
  refine Array.ext_getElem? fun i => ?_
  rw [getElem?_overlaid hbase' (by rw [size_overlaid]; exact hfits), getElem?_overlaid hbase hfirst,
    getElem?_overlaid hbase (by rw [size_overlaid]; exact hfirst), getElem?_overlaid hbase' hfits]
  by_cases hin : base.toInt ≤ i ∧ (i : Int) < base.toInt + new.size
  · rw [if_pos hin, if_pos hin, if_neg (by omega)]
  · rw [if_neg hin, if_neg hin]

/-! ### Regions and other cells -/

/-- A memory with other cells. -/
def withCells (cells : Array Cell) (m : Memory) : Memory := { m with cells }

/-- Registering a region does not look at cells. -/
theorem register_commutes (cells : Array Cell) (name : String) (base : Addr) (capacity : Int64) :
    Commutes (withCells cells) (register name base capacity) := by
  intro m
  have hplace : (withCells cells m).overlapped?
      ((withCells cells m).searchSpans fun b => base ≤ b) base capacity =
      m.overlapped? (m.searchSpans fun b => base ≤ b) base capacity := rfl
  have hnames : (withCells cells m).names = m.names := rfl
  unfold register
  rw [hnames]
  by_cases htaken : name ≠ "" ∧ m.names.contains name
  · rw [if_pos htaken, if_pos htaken]
    rfl
  · rw [if_neg htaken, if_neg htaken]
    dsimp only
    rw [hplace]
    cases m.overlapped? (m.searchSpans fun b => base ≤ b) base capacity with
    | some s => rfl
    | none => rfl

/-- Binding globals does not look at cells. -/
theorem bindGlobals_withCells (cells : Array Cell) (m : Memory) (globals : List GlobalEntry) :
    (withCells cells m).bindGlobals globals = withCells cells (m.bindGlobals globals) := by
  induction globals generalizing m with
  | nil => rfl
  | cons g rest ih => exact ih (m.bindGlobal g.name g.addr)

/-- **Registering routines does not look at cells.** -/
theorem registerRoutines_commutes (cells : Array Cell) (routines : List RoutineEntry) :
    Commutes (withCells cells) (registerRoutines routines) := by
  induction routines with
  | nil => exact .pure ()
  | cons r rest ih =>
    exact .bind (register_commutes cells r.name r.base r.capacity) fun _ =>
      .bind (.modify fun _ => rfl) fun _ => ih

/-- A region that has room for the routine that returns zero is filled with cells. -/
theorem size_stubCells {capacity : Int64} (h : ¬capacity.toInt < minRegionCells) :
    ((stubCells capacity.toInt).size : Int) = capacity.toInt := by
  have hstub : stub.size = 3 := rfl
  have hmin : (minRegionCells : Int) = 3 := rfl
  unfold stubCells
  rw [Array.size_append, Array.size_replicate]
  omega

/-- What reserving a region does: the next cells are handed out and filled. -/
structure Reserves (name : String) (n : Int64) (s : Span) (m m' : Memory) : Prop where
  low : 0 ≤ m.next.toInt
  large : ¬n.toInt < minRegionCells
  high : m.next.toInt + n.toInt ≤ m.cells.size
  next : m'.next = m.next + n
  limit : m'.limit = m.limit
  cells : m'.cells = overlaid m.cells m.next (stubCells n.toInt)
  /-- It does not depend on what the cells hold. -/
  others : ∀ cells : Array Cell, cells.size = m.cells.size →
    reserve name n (withCells cells m) =
      .ok s (withCells (overlaid cells m.next (stubCells n.toInt)) m')

/-- A new region that lies inside the memory is filled. -/
theorem fillStub_eq {m : Memory} {base : Addr} {n : Int64} (hlow : 0 ≤ base.toInt)
    (hlarge : ¬n.toInt < minRegionCells) (hhigh : base.toInt + n.toInt ≤ m.cells.size) :
    fillStub base n m = .ok () (withCells (overlaid m.cells base (stubCells n.toInt)) m) := by
  have hget : (EStateM.get : Action Memory Memory) m = .ok m m := rfl
  have hfits : base.toInt + ((stubCells n.toInt).size : Int) ≤ m.cells.size := by
    rw [size_stubCells hlarge]
    exact hhigh
  have hroom : min n.toInt (m.size - base.toInt) = n.toInt := by
    unfold size
    omega
  have henough : ¬max (m.size - base.toInt) (stub.size : Int) < n.toInt := by
    unfold size
    omega
  unfold fillStub
  rw [bind_of_ok hget, hroom, bind_of_ok (copy_eq hlow hfits), if_neg henough]
  rfl

/-- **Reserving a region hands the next cells out and fills them**, whichever cells there are. -/
theorem reserve_of_ok {m m' : Memory} (hstack : m.limit.toInt ≤ m.cells.size)
    (hstorage : m.cells.size ≤ maxCells) {name : String} {n : Int64} {s : Span}
    (h : reserve name n m = .ok s m') : Reserves name n s m m' := by
  have hget (m : Memory) : (EStateM.get : Action Memory Memory) m = .ok m m := rfl
  have hspanned := (reserve_ok hstorage h).2.high
  unfold reserve at h
  by_cases hsmall : n.toInt < minRegionCells
  · rw [if_pos hsmall] at h
    cases h
  rw [if_neg hsmall] at h
  replace h := (bind_of_ok (hget m)).symm.trans h
  by_cases htaken : m.names.contains name
  · rw [if_pos htaken] at h
    cases h
  rw [if_neg htaken] at h
  obtain ⟨base, m₁, halloc, h⟩ := ok_of_bind h
  obtain ⟨rfl, -, -, rfl⟩ := alloc_ok halloc
  obtain ⟨⟨⟩, m₂, hfill, h⟩ := ok_of_bind h
  have hlow := (fillStub_ok hfill).1
  obtain ⟨span, m₃, hregister, h⟩ := ok_of_bind h
  cases h
  have hhigh : m.next.toInt + n.toInt ≤ m.cells.size := by
    change span.base.toInt + n.toInt ≤ m.limit.toInt at hspanned
    rw [(register_ok hregister).1] at hspanned
    omega
  have hfilled := fillStub_eq (m := { m with next := m.next + n }) hlow hsmall hhigh
  rw [hfilled] at hfill
  cases hfill
  have hsame := register_sameHoldings name m.next n
    (withCells (overlaid m.cells m.next (stubCells n.toInt)) { m with next := m.next + n })
  have hcells := register_cells name m.next n
    (withCells (overlaid m.cells m.next (stubCells n.toInt)) { m with next := m.next + n })
  rw [after_of_ok hregister] at hsame hcells
  refine ⟨hlow, hsmall, hhigh, hsame.next, hsame.limit, hcells, fun cells hsize => ?_⟩
  -- the same steps on other cells
  have halloc' : alloc n (withCells cells m) =
      .ok m.next (withCells cells { m with next := m.next + n }) := by
    unfold alloc at halloc ⊢
    split at halloc
    · cases halloc
    · next hroom => exact if_neg hroom
  have hfill' := fillStub_eq (m := withCells cells { m with next := m.next + n }) hlow hsmall (by
    show m.next.toInt + n.toInt ≤ cells.size
    rw [hsize]
    exact hhigh)
  have hregister' : register name m.next n (withCells (overlaid cells m.next (stubCells n.toInt))
      { m with next := m.next + n }) =
        .ok span (withCells (overlaid cells m.next (stubCells n.toInt)) m₃) :=
    (register_commutes (overlaid cells m.next (stubCells n.toInt)) name m.next n
      (withCells (overlaid m.cells m.next (stubCells n.toInt))
        { m with next := m.next + n })).trans
      (congrArg (carry (withCells _)) hregister)
  have htaken' : ¬(withCells cells m).names.contains name := htaken
  unfold reserve
  rw [if_neg hsmall]
  refine (bind_of_ok (hget _)).trans ?_
  rw [if_neg htaken']
  exact (bind_of_ok halloc').trans ((bind_of_ok hfill').trans (bind_of_ok hregister'))

/-! ### Images with other cells -/

/-- An image with other cells, as many as before, has the same layout. -/
theorem checkLayout_withCells [BaseOrder] {img : Image} {cells? : Option (Array Cell)}
    (hsize : (cells?.getD #[]).size = img.cells.size) :
    Image.checkLayout { img with cells? } = img.checkLayout := by
  have hlimit : Image.limit { img with cells? } = img.limit := by
    unfold Image.limit Image.cells
    rw [hsize]
    rfl
  have hglobals : ∀ (entries : List GlobalEntry) (seen : List String),
      Image.globalFault? { img with cells? } seen entries = img.globalFault? seen entries := by
    intro entries
    induction entries with
    | nil => exact fun _ => rfl
    | cons g rest ih =>
      intro seen
      unfold Image.globalFault?
      rw [hlimit, ih]
  have hroutines : ∀ (entries : List RoutineEntry) (seen : List String),
      Image.routineFault? { img with cells? } seen entries = img.routineFault? seen entries := by
    intro entries
    induction entries with
    | nil => exact fun _ => rfl
    | cons r rest ih =>
      intro seen
      unfold Image.routineFault?
      rw [hlimit, ih]
  unfold Image.checkLayout Image.layoutFault?
  rw [hglobals, hroutines]
  rfl

/-- An image that is loaded was let in. -/
theorem admits_of_loadImage [BaseOrder] {m m' : Memory} {img : Image}
    (h : loadImage img m = .ok () m') : m.Admits img := by
  by_contra hno
  obtain ⟨failure, herror⟩ := loadImage_of_not_admits hno
  rw [herror] at h
  cases h

/-- An image that is let in does not end behind the last address. -/
theorem Admits.not_overflows [BaseOrder] {m : Memory} {img : Image} (h : m.Admits img)
    (hstorage : m.cells.size ≤ maxCells) (hcells : img.cells.size ≤ maxCells) :
    ¬img.Overflows := by
  have hmax : (maxCells : Int) = 35184372088832 := by decide
  have hstart : img.base.toInt ≤ m.cells.size := h.start
  unfold Image.Overflows
  omega

/-- **An image with other cells is loaded in the same way.** -/
theorem loadImage_withCells [BaseOrder] {m m' : Memory} (hm : m.Reachable) {img : Image}
    (hcells : img.cells.size ≤ maxCells) (hload : loadImage img m = .ok () m')
    {cells? : Option (Array Cell)} (hsize : (cells?.getD #[]).size = img.cells.size) :
    loadImage { img with cells? } m =
      .ok () (withCells (overlaid m'.cells img.base (cells?.getD #[])) m') := by
  have hadmits := admits_of_loadImage hload
  have hlimit : Image.limit { img with cells? } = img.limit := by
    unfold Image.limit Image.cells
    rw [hsize]
    rfl
  have hadmits' : m.Admits { img with cells? } :=
    ⟨hadmits.version, (checkLayout_withCells hsize).trans hadmits.layout,
      ⟨hadmits.free.1, hlimit ▸ hadmits.free.2⟩, hadmits.globals, hadmits.regions, hadmits.start⟩
  have hbase := Image.base_nonneg hadmits.layout
  have hreceived := hadmits.received hm (hadmits.not_overflows hm.bounds.2.2.2 hcells)
  have hhigh := hreceived.high
  have hstack := hm.bounds.2.2.1
  have hfits : img.base.toInt + img.cells.size ≤ m.cells.size := by omega
  have hfits' : img.base.toInt + (cells?.getD #[]).size ≤ m.cells.size := by rw [hsize]; exact hfits
  have hreceive : (m.receive img).cells = overlaid m.cells img.base img.cells := by
    rw [cells_receive, after_of_ok (copy_eq hbase hfits)]
  have hreceive' : m.receive { img with cells? } =
      withCells (overlaid m.cells img.base (cells?.getD #[])) (m.receive img) := by
    have hcopy : copy img.base (Image.cells { img with cells? }) m = _ := copy_eq hbase hfits'
    unfold receive
    rw [after_of_ok (copy_eq hbase hfits), hlimit, after_of_ok hcopy, ← bindGlobals_withCells]
    rfl
  rw [loadImage_of_admits hadmits] at hload
  have hkept : m'.cells = (m.receive img).cells :=
    (registerRoutines_cells img.routines).ok rfl hload
  rw [loadImage_of_admits hadmits', hreceive', hkept, hreceive, overlaid_overlaid hbase hfits hsize]
  exact (registerRoutines_commutes _ img.routines _).trans (congrArg (carry (withCells _)) hload)

end Memory

/-! ### Setting a memory up -/

namespace Manifest

open CellMachine.Memory

/-- Regions are reserved one after the other. -/
theorem reserveRegions_cons_iff {r : RegionRequest} {rest : List RegionRequest} {m m' : Memory} :
    reserveRegions (r :: rest) m = .ok () m' ↔ ∃ s m₁,
      reserve r.name r.capacity m = .ok s m₁ ∧ reserveRegions rest m₁ = .ok () m' := by
  constructor
  · intro h
    obtain ⟨s, m₁, hfirst, hrest⟩ := ok_of_bind h
    split at hfirst
    · next hreserve =>
      cases hfirst
      exact ⟨s, m₁, hreserve, hrest⟩
    · cases hfirst
  · rintro ⟨s, m₁, hreserve, hrest⟩
    refine (bind_of_ok (?_ : _ = EStateM.Result.ok s m₁)).trans hrest
    simp only [hreserve]

/-- A memory is set up with an image first, and then with regions. -/
theorem loadMemory_ok_iff [BaseOrder] {manifest : Manifest} {img : Image} {m : Memory} :
    manifest.loadMemory img = .ok m ↔ ∃ m₀ m₁, Memory.new manifest.memory manifest.stack = .ok m₀ ∧
      Memory.loadImage img m₀ = .ok () m₁ ∧ reserveRegions manifest.regions m₁ = .ok () m := by
  unfold loadMemory newMemory
  cases hnew : Memory.new manifest.memory manifest.stack with
  | error failure => exact ⟨nofun, fun ⟨m₀, _, h, _⟩ => nomatch h⟩
  | ok m₀ =>
    constructor
    · intro h
      dsimp only [bind, Except.bind] at h
      split at h
      · next hset =>
        cases h
        obtain ⟨⟨⟩, m₁, hload, hreserve⟩ := ok_of_bind hset
        exact ⟨m₀, m₁, rfl, hload, hreserve⟩
      · cases h
    · rintro ⟨_, m₁, hm₀, hload, hreserve⟩
      cases hm₀
      have hset : EStateM.bind (Memory.loadImage img)
          (fun _ => reserveRegions manifest.regions) m₀ = .ok () m :=
        (bind_of_ok hload).trans hreserve
      dsimp only [bind, Except.bind]
      rw [hset]

/-- Regions are reserved in the same way behind other cells. -/
theorem reserveRegions_withCells {base : Addr} {new : Array Cell} (hbase : 0 ≤ base.toInt)
    (regions : List RegionRequest) : ∀ {m m' : Memory}, m.limit.toInt ≤ m.cells.size →
      m.cells.size ≤ maxCells → base.toInt + new.size ≤ m.next.toInt →
      reserveRegions regions m = .ok () m' →
      reserveRegions regions (withCells (overlaid m.cells base new) m) =
        .ok () (withCells (overlaid m'.cells base new) m') := by
  induction regions with
  | nil =>
    intro m m' _ _ _ h
    cases h
    rfl
  | cons r rest ih =>
    intro m m' hstack hsize hbehind h
    obtain ⟨s, m₁, hreserve, hrest⟩ := reserveRegions_cons_iff.mp h
    have hreserves := reserve_of_ok hstack hsize hreserve
    have hhigh := hreserves.high
    have hfresh := size_stubCells hreserves.large
    have hlarge := hreserves.large
    have hnext : m₁.next.toInt = m.next.toInt + r.capacity.toInt := by
      rw [hreserves.next]
      have hmin : (minRegionCells : Int) = 3 := rfl
      exact toInt_add_of_le hreserves.low (by omega) (by omega)
    have hcells : overlaid (overlaid m.cells base new) m.next (stubCells r.capacity.toInt) =
        overlaid m₁.cells base new := by
      rw [hreserves.cells]
      exact overlaid_comm hbase hbehind (by omega)
    have hfirst := hreserves.others (overlaid m.cells base new) size_overlaid
    rw [hcells] at hfirst
    have hsize₁ : m₁.cells.size = m.cells.size := by rw [hreserves.cells, size_overlaid]
    have hstack₁ : m₁.limit.toInt ≤ m₁.cells.size := by
      rw [hreserves.limit, hsize₁]
      exact hstack
    refine reserveRegions_cons_iff.mpr ⟨s, _, hfirst, ih hstack₁ (hsize₁ ▸ hsize) ?_ hrest⟩
    have hmin : (minRegionCells : Int) = 3 := rfl
    omega

/-- **An image with other cells is set up in the same way**: the memory differs in the place of the
image only. -/
theorem loadMemory_withCells [BaseOrder] {manifest : Manifest} {img : Image} {m : Memory}
    (hcells : img.cells.size ≤ maxCells) (hload : manifest.loadMemory img = .ok m)
    {cells? : Option (Array Cell)} (hsize : (cells?.getD #[]).size = img.cells.size) :
    manifest.loadMemory { img with cells? } =
      .ok (withCells (overlaid m.cells img.base (cells?.getD #[])) m) := by
  obtain ⟨m₀, m₁, hnew, himage, hregions⟩ := loadMemory_ok_iff.mp hload
  have hreach : m₀.Reachable := .new hnew
  refine loadMemory_ok_iff.mpr ⟨m₀, _, hnew, loadImage_withCells hreach hcells himage hsize, ?_⟩
  have hadmits := admits_of_loadImage himage
  have hbase := Image.base_nonneg hadmits.layout
  have hbounds := hreach.bounds
  have hend := hadmits.not_overflows hbounds.2.2.2 hcells
  rw [loadImage_of_admits hadmits] at himage
  have hsame := (registerRoutines_sameHoldings img.routines).ok (.refl (m₀.receive img)) himage
  obtain ⟨cells, addresses, hreceive, hkept⟩ := exists_receive m₀ img
  rw [hreceive] at hsame
  have hnext : m₁.next.toInt = img.base.toInt + img.cells.size := by
    rw [hsame.next]
    exact Image.toInt_limit hbase hend
  have hcells₁ : m₁.cells.size = m₀.cells.size := hsame.size.trans hkept
  have hlimit₁ : m₁.limit = m₀.limit := hsame.limit
  have hstack : m₁.limit.toInt ≤ m₁.cells.size := by
    rw [hlimit₁, hcells₁]
    exact Int.le_of_lt hbounds.2.2.1
  exact reserveRegions_withCells hbase manifest.regions hstack (hcells₁ ▸ hbounds.2.2.2) (by omega)
    hregions

end Manifest

end CellMachine
