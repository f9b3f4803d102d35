import CellMachine.Proofs.Patch.Registry
import CellMachine.Proofs.Wire.RoundTrip

/-!
# Patched images

Routines of an image are overwritten in two ways. Either a memory is set up with the image, patched
and used; or it is patched and what it holds in the place of the image is written as an image, from
which a memory is set up later. The second memory knows nothing of leases, and its regions have the
lengths of routines that were just loaded. For a machine the two memories are the same.

* `Manifest.Loaded` — what is known of a memory that was set up with an image.
* `Image.SameBut` — an image differs from another one in cells of patched routines at most.
* `Manifest.exists_patched_image` — **a memory that was patched is as good as the image of it.**
-/

namespace CellMachine

open CellMachine.Action CellMachine.Memory

/-! ### Memories that were set up -/

namespace Manifest

variable {manifest : Manifest} {img : Image} {m : Memory}

/-- What is known of a memory that was set up with an image, and with regions behind it. -/
structure Loaded (img : Image) (m : Memory) : Prop where
  reachable : ∃ w : Estate, w.Reachable ∧ w.memory = m
  tidy : m.Tidy
  idle : m.Idle
  /-- The routines of the image are regions. -/
  routines : ∀ r ∈ img.routines, r ∈ m.entries
  low : 0 ≤ img.base.toInt
  high : img.base.toInt + img.cells.size ≤ m.next.toInt

/-- A memory into which an image was loaded. -/
theorem loaded_of_loadImage [order : BaseOrder] {size stack : Int} {m₀ : Memory}
    (hnew : Memory.new size stack = .ok m₀) (hcells : img.cells.size ≤ maxCells)
    (hinside : ∀ r ∈ img.routines, img.Contains r) (hload : Memory.loadImage img m₀ = .ok () m) :
    Loaded img m := by
  have hreach : m₀.Reachable := .new hnew
  have hadmits := admits_of_loadImage hload
  have hend := hadmits.not_overflows hreach.bounds.2.2.2 hcells
  have hwraps : ∀ r ∈ img.routines, ¬r.Overflows := fun r hr hwrap =>
    hend ((Image.contains_iff hadmits.layout hcells hr).mp (hinside r hr) hwrap)
  have htidy := (Tidy.of_new hnew).loadImage (fun _ => hend) (by
    rintro ⟨-, before, r, after, hsplit, -, hwrap⟩
    exact hwraps r (by rw [hsplit]; simp) hwrap)
  rw [after_of_ok hload] at htidy
  have hempty : m₀.Idle := by
    intro s hs
    rw [(new_ok hnew).1] at hs
    exact absurd hs (Array.not_mem_empty s)
  have hw : (Estate.after { memory := m₀ } (.memory (.loadImage order img))).Reachable :=
    (Estate.Reachable.new hnew).move _
  have hmemory : (Estate.after { memory := m₀ } (.memory (.loadImage order img))).memory = m :=
    after_of_ok hload
  have hidle := loadImage_idle hempty hload
  rw [loadImage_of_admits hadmits] at hload
  have hready := hadmits.ready hreach.ordered
  have hclear : ¬(m₀.receive img).Clashing img.routines := by
    intro hclash
    obtain ⟨failure, m', herror, -⟩ := exists_error_of_clashing hready hclash
    rw [herror] at hload
    cases hload
  have hnext : m.next = img.limit := by
    obtain ⟨cells, addresses, hreceive, -⟩ := exists_receive m₀ img
    rw [((registerRoutines_sameHoldings img.routines).ok (.refl (m₀.receive img)) hload).next,
      hreceive]
  have hbase := Image.base_nonneg hadmits.layout
  refine ⟨⟨_, hw, hmemory⟩, htidy, hidle, ?_, hbase, ?_⟩
  · intro r hr
    obtain ⟨before, after, hsplit⟩ := List.append_of_mem hr
    have hentry := mem_entries_of_not_clashing (hsplit ▸ hready) fun hclash => hclear (by
      obtain ⟨first, t, last, heq, hclash⟩ := hclash
      refine ⟨first, t, last ++ after, ?_, hclash⟩
      rw [hsplit, ← List.singleton_append, ← List.append_assoc, heq]
      simp)
    rw [← hsplit, after_of_ok hload] at hentry
    exact hentry
  · rw [hnext]
    exact Int.le_of_eq (Image.toInt_limit hbase hend).symm

/-- One more region is reserved behind the image. -/
theorem Loaded.reserve (h : Loaded img m) {name : String} {n : Int64} {s : Span} {m' : Memory}
    (hreserve : Memory.reserve name n m = .ok s m') : Loaded img m' := by
  obtain ⟨w, hw, hm⟩ := h.reachable
  have hstorage := h.tidy.storage
  have hreserves := reserve_of_ok (Int.le_of_lt h.tidy.stack) hstorage hreserve
  have hhigh := hreserves.high
  have hlarge := hreserves.large
  have hmin : (minRegionCells : Int) = 3 := rfl
  have hmax : (maxCells : Int) = 35184372088832 := by decide
  have hfits : ¬Overflows m.next n := by
    unfold Overflows
    omega
  have htidy : ((Memory.reserve name n).after m).Tidy :=
    h.tidy.reserve name fun hover => hfits hover.2
  rw [after_of_ok hreserve] at htidy
  have hmemory : (w.after (.memory (.reserve name n))).memory = m' := by
    show (Memory.reserve name n).after w.memory = m'
    rw [hm]
    exact after_of_ok hreserve
  have hlater := (reserve_preserves name n).ok (.start h.tidy.ordered) hreserve |>.later
  have hnext : m'.next.toInt = m.next.toInt + n.toInt := by
    rw [hreserves.next]
    exact toInt_add_of_le hreserves.low (by omega) (by omega)
  refine ⟨⟨_, hw.move _, hmemory⟩, htidy, (reserve_idle name n).ok h.idle hreserve, ?_, h.low, ?_⟩
  · intro r hr
    obtain ⟨s, hs, hentry⟩ := List.mem_map.mp (h.routines r hr)
    obtain ⟨t, ht, -, hsame⟩ := hlater.spans s (Array.mem_toList_iff.mp hs)
    rw [← hentry, ← hsame]
    exact mem_entries_of_mem ht
  · have hhigh := h.high
    omega

/-- All regions are reserved behind the image. -/
theorem Loaded.reserveRegions (regions : List RegionRequest) : ∀ {m m' : Memory}, Loaded img m →
    Manifest.reserveRegions regions m = .ok () m' → Loaded img m' := by
  induction regions with
  | nil =>
    intro m m' hloaded h
    cases h
    exact hloaded
  | cons r rest ih =>
    intro m m' hloaded h
    obtain ⟨s, m₁, hreserve, hrest⟩ := reserveRegions_cons_iff.mp h
    exact ih (hloaded.reserve hreserve) hrest

/-- **A memory that was set up with an image** has its routines as regions, and none of them is
leased or poisoned. -/
theorem loaded_of_loadMemory [BaseOrder] (hcells : img.cells.size ≤ maxCells)
    (hinside : ∀ r ∈ img.routines, img.Contains r) (hload : manifest.loadMemory img = .ok m) :
    Loaded img m := by
  obtain ⟨m₀, m₁, hnew, himage, hregions⟩ := loadMemory_ok_iff.mp hload
  exact (loaded_of_loadImage hnew hcells hinside himage).reserveRegions manifest.regions hregions

/-- The image is found again in the memory. -/
theorem cells_of_loadMemory [BaseOrder] (hcells : img.cells.size ≤ maxCells)
    (hloaded : Loaded img m)
    (hload : manifest.loadMemory img = .ok m) {i : Nat} (hi : i < img.cells.size) :
    m.cells[img.base.toInt.toNat + i]? = img.cells[i]? := by
  have hsame : manifest.loadMemory img =
      .ok (withCells (overlaid m.cells img.base img.cells) m) :=
    loadMemory_withCells hcells hload (show (img.cells?.getD #[]).size = img.cells.size from rfl)
  rw [hload] at hsame
  have hm : m.cells = overlaid m.cells img.base img.cells := by
    change m.cells = (withCells (overlaid m.cells img.base img.cells) m).cells
    rw [← Except.ok.inj hsame]
  have hlow := hloaded.low
  have hhigh := hloaded.high
  have hnext := hloaded.tidy.high
  have hstack := hloaded.tidy.stack
  rw [hm, getElem?_overlaid hlow (by omega), if_pos (by omega)]
  congr 1
  omega

/-! ### Memories that were patched -/

/-- A call does not look at leases and lengths. -/
theorem call_plain (manifest : Manifest) (m : Memory) (name : String) (args : List Cell) :
    manifest.call m.plain name args = manifest.call m name args := by
  have hcall := Machine.callNamed_commutes name args ⟨manifest.newProcessor, m⟩
  change Machine.callNamed name args ⟨manifest.newProcessor, m.plain⟩ = _ at hcall
  unfold call
  rw [hcall]
  cases Machine.callNamed name args ⟨manifest.newProcessor, m⟩ with
  | ok v x => rfl
  | error failure x => rfl

/-- Cells inside the memory are taken. -/
theorem slice_of_inside {m : Memory} {base : Addr} {n : Nat} (hstorage : m.cells.size ≤ maxCells)
    (hlow : 0 ≤ base.toInt) (hstart : base.toInt < m.cells.size)
    (hhigh : base.toInt + n ≤ m.cells.size) :
    m.slice base (Int64.ofNat n) =
      .ok (m.cells.extract base.toInt.toNat (base.toInt.toNat + n)) := by
  have hmax : (maxCells : Int) = 35184372088832 := by decide
  have hcount : (Int64.ofNat n).toInt = n := Int64.toInt_ofNat_of_lt (by omega)
  have hbase : m.inBounds base := inBounds_iff.mpr ⟨hlow, hstart⟩
  have hlast (hpos : 0 < n) : m.inBounds (base + (Int64.ofNat n - 1)) := by
    have hone : (Int64.ofNat n - 1).toInt = n - 1 := by
      have hless : (1 : Int64).toInt = 1 := rfl
      rw [Int64.toInt_sub, hcount, hless]
      exact Int.bmod_eq_of_le (by omega) (by omega)
    rw [inBounds_iff, toInt_add_of_le hlow (by omega) (by omega), hone]
    omega
  have hend : (base + Int64.ofNat n).toInt.toNat = base.toInt.toNat + n := by
    rw [toInt_add_of_le hlow (by omega) (by omega), hcount]
    omega
  unfold slice
  rw [if_neg, hend]
  rintro (hneg | hout | ⟨hpos, hout⟩)
  · rw [Int64.lt_iff_toInt_lt, hcount] at hneg
    exact absurd hneg (Int.not_lt.mpr (Int.natCast_nonneg n))
  · simp [hbase] at hout
  · rw [Int64.lt_iff_toInt_lt, hcount] at hpos
    simp [hlast (Int.natCast_pos.mp hpos)] at hout

/-- The cells of an image are taken from a memory with the regions of the one that was set up. -/
theorem withCellsOf_eq (hloaded : Loaded img m) {m' : Memory} (hsame : m.SameRegistry m') :
    ∃ cells, cells.size = img.cells.size ∧
      (∀ i < img.cells.size, cells[i]? = m'.cells[img.base.toInt.toNat + i]?) ∧
      img.withCellsOf m' =
        .ok { img with cells? := if cells.isEmpty then none else some cells } := by
  have hlow := hloaded.low
  have hhigh := hloaded.high
  have hnext := hloaded.tidy.high
  have hstack := hloaded.tidy.stack
  have hsize := hsame.size
  have hslice := slice_of_inside (m := m') (by rw [hsize]; exact hloaded.tidy.storage) hlow
    (by omega) (show img.base.toInt + img.cells.size ≤ m'.cells.size by omega)
  refine ⟨_, ?_, ?_, congrArg (Except.map _) hslice⟩
  · rw [Array.size_extract]
    omega
  · intro i hi
    rw [Array.getElem?_extract, if_pos (by omega)]

/-- In a memory that was set up, a region with the name of a routine of the image is the routine. -/
theorem Loaded.eq_of_name (h : Loaded img m) {r e : RoutineEntry} (hr : r ∈ img.routines)
    (he : e ∈ m.entries) (hname : e.name = r.name) (hne : e.name ≠ "") : e = r := by
  obtain ⟨w, hw, rfl⟩ := h.reachable
  obtain ⟨s, hs, rfl⟩ := List.mem_map.mp he
  obtain ⟨t, ht, rfl⟩ := List.mem_map.mp (h.routines r hr)
  rw [Array.mem_toList_iff] at hs ht
  have hiff {u : Span} : w.memory.spanNamed? s.name = some u ↔
      s.name ≠ "" ∧ u ∈ w.memory.spans ∧ u.name = s.name :=
    hw.tables.1.spanNamed?_eq_some_iff hw.sound.tables
  have hfirst := hiff.mpr ⟨hne, hs, rfl⟩
  have hsecond := hiff.mpr ⟨hne, ht, hname.symm⟩
  rw [Option.some.inj (hfirst.symm.trans hsecond)]

end Manifest

/-! ### Patched images -/

/-- A cell of an image lies in a routine that is patched. -/
def Image.PatchedAt (img : Image) (patches : List Patch) (i : Nat) : Prop :=
  ∃ r ∈ img.routines, (∃ p ∈ patches, p.target = .region r.name) ∧
    r.base.toInt ≤ img.base.toInt + i ∧ img.base.toInt + i < r.base.toInt + r.capacity.toInt

/-- An image differs from another one in cells of patched routines at most. -/
structure Image.SameBut (img : Image) (patches : List Patch) (img' : Image) : Prop where
  version : img'.version = img.version
  base : img'.base = img.base
  globals : img'.globals = img.globals
  routines : img'.routines = img.routines
  size : img'.cells.size = img.cells.size
  cells : ∀ i : Nat, ¬img.PatchedAt patches i → img'.cells[i]? = img.cells[i]?

/-- Such an image can be sent if the other one can. -/
theorem Image.SameBut.portable [BaseOrder] {img img' : Image} {patches : List Patch}
    (h : img.SameBut patches img') (hportable : img.Portable) : img'.Portable := by
  have heq : img' = { img with cells? := img'.cells? } := by
    obtain ⟨version, base, cells?, globals, routines⟩ := img'
    obtain ⟨rfl, rfl, rfl, rfl, -, -⟩ := h
    rfl
  have hlayout : img'.checkLayout = img.checkLayout := by
    rw [heq]
    exact checkLayout_withCells h.size
  exact ⟨h.version.trans hportable.version, hlayout.trans hportable.layout,
    h.size ▸ hportable.cells, h.globals ▸ hportable.globals, h.routines ▸ hportable.routines⟩

/-- Such an image has the names of the other one. -/
theorem Image.SameBut.namesWithin {img img' : Image} {patches : List Patch}
    (h : img.SameBut patches img') {most : Nat} (hnames : img.NamesWithin most) :
    img'.NamesWithin most :=
  ⟨h.globals ▸ hnames.globals, h.routines ▸ hnames.routines⟩

namespace Manifest

variable {manifest : Manifest} {img : Image} {m : Memory} {patches : List Patch}

/-- What patches of routines leave of the cells around the image, and in it. -/
theorem Loaded.cells_of_leaves (h : Loaded img m) (hinside : ∀ r ∈ img.routines, img.Contains r)
    (hpatches : ∀ p ∈ patches, ∃ r ∈ img.routines, p.target = .region r.name) {m' : Memory}
    (hleaves : Patch.Leaves m (fun name => ∃ p ∈ patches, p.target = .region name) m') (a : Nat)
    (ha : ∀ i : Nat, img.base.toInt + i = a → i < img.cells.size → ¬img.PatchedAt patches i) :
    m'.cells[a]? = m.cells[a]? := by
  refine hleaves.cells a ?_
  rintro e he hne ⟨p, hp, htarget⟩ hin
  obtain ⟨r, hr, hregion⟩ := hpatches p hp
  have hname : e.name = r.name := PatchTarget.region.inj (htarget.symm.trans hregion)
  obtain rfl := h.eq_of_name hr he hname hne
  obtain ⟨hbase, hcapacity, hlimit⟩ := hinside e hr
  have hlow := h.low
  refine ha (a - img.base.toInt.toNat) (by omega) (by omega) ⟨e, hr, ⟨p, hp, htarget⟩, ?_⟩
  omega

/-- A memory that was patched holds an image from which it is set up again, for all that a machine
can tell. -/
theorem reload_of_leaves [BaseOrder] (hcells : img.cells.size ≤ maxCells) (hloaded : Loaded img m)
    (hinside : ∀ r ∈ img.routines, img.Contains r) (hload : manifest.loadMemory img = .ok m)
    (hpatches : ∀ p ∈ patches, ∃ r ∈ img.routines, p.target = .region r.name) {m' : Memory}
    (hleaves : Patch.Leaves m (fun name => ∃ p ∈ patches, p.target = .region name) m') :
    ∃ img', img.withCellsOf m' = .ok img' ∧ img.SameBut patches img' ∧
      ∃ m'', manifest.loadMemory img' = .ok m'' ∧ m''.plain = m'.plain := by
  obtain ⟨cells, hsize, hcell, hwith⟩ := withCellsOf_eq hloaded hleaves.registry
  have hlow := hloaded.low
  have hhigh := hloaded.high
  have hnext := hloaded.tidy.high
  have hstack := hloaded.tidy.stack
  -- a list without cells is left absent, which makes no difference to the cells
  have hgetD : (if cells.isEmpty then none else some cells).getD #[] = cells := by
    by_cases hempty : cells.isEmpty
    · rw [if_pos hempty, Array.isEmpty_iff.mp hempty]
      rfl
    · rw [if_neg hempty]
      rfl
  have hreload := loadMemory_withCells hcells hload (by rw [hgetD]; exact hsize)
  rw [hgetD] at hreload
  refine ⟨_, hwith, ⟨rfl, rfl, rfl, rfl, ?_, ?_⟩, _, hreload, ?_⟩
  · unfold Image.cells
    rw [hgetD]
    exact hsize
  · intro i hi
    show (Option.getD _ #[])[i]? = _
    rw [hgetD]
    by_cases hin : i < img.cells.size
    · rw [hcell i hin, ← cells_of_loadMemory hcells hloaded hload hin]
      refine hloaded.cells_of_leaves hinside hpatches hleaves _ fun j hj _ => ?_
      obtain rfl : j = i := by omega
      exact hi
    · rw [Array.getElem?_eq_none (by omega), Array.getElem?_eq_none (by omega)]
  · have hover : overlaid m.cells img.base cells = m'.cells := by
      refine Array.ext_getElem? fun a => ?_
      rw [getElem?_overlaid hlow (by omega), hsize]
      by_cases hin : img.base.toInt ≤ a ∧ (a : Int) < img.base.toInt + img.cells.size
      · rw [if_pos hin, hcell _ (by omega)]
        congr 1
        omega
      · rw [if_neg hin]
        refine (hloaded.cells_of_leaves hinside hpatches hleaves a fun i hi hlt => ?_).symm
        omega
    have hidle : (withCells m'.cells m).Idle := hloaded.idle
    have hregistry : (withCells m'.cells m).SameRegistry m' :=
      ⟨⟨rfl, hleaves.registry.limit, hleaves.registry.next, hleaves.registry.addresses,
        hleaves.registry.order⟩, hleaves.registry.spans, hleaves.registry.names⟩
    rw [hover]
    exact (plain_of_idle hregistry hidle hleaves.idle rfl).symm

/-- **A memory that was patched is as good as the image of it.** The image can be written, read and
set up again; it differs from the first one in cells of patched routines only, and every call of a
region gives the same result or the same failure as in the memory that was patched. -/
theorem exists_patched_image [BaseOrder] {bytes : List UInt8} (hbytes : bytes.length < UInt64.size)
    (hread : Image.ofBytes bytes = .ok img) (hinside : ∀ r ∈ img.routines, img.Contains r)
    (hload : manifest.loadMemory img = .ok m)
    (hpatches : ∀ p ∈ patches, ∃ r ∈ img.routines, p.target = .region r.name) {s : Patched}
    (happly : Patched.applyAll patches { memory := m } = .ok () s) :
    ∃ img', img.withCellsOf s.memory = .ok img' ∧ img.SameBut patches img' ∧
      Image.ofBytes img'.toBytes = .ok img' ∧
      ∃ m', manifest.loadMemory img' = .ok m' ∧
        ∀ name args, manifest.call m' name args = manifest.call s.memory name args := by
  have hcells := (Image.ofBytes_ok hread).2.2
  have hloaded := loaded_of_loadMemory hcells hinside hload
  have hleaves := Patched.leaves_of_applyAll patches hloaded.reachable hloaded.tidy hloaded.idle
    (fun p hp => (hpatches p hp).imp' RoutineEntry.name fun _ hr => hr.2) happly
  obtain ⟨img', hwith, hsame, m', hreload, hplain⟩ :=
    reload_of_leaves hcells hloaded hinside hload hpatches hleaves
  refine ⟨img', hwith, hsame, ?_, m', hreload, fun name args => ?_⟩
  · exact Image.ofBytes_toBytes (hsame.portable (Image.portable_of_ofBytes hread)) hbytes
      (hsame.namesWithin (Image.names_of_ofBytes hread))
  · rw [← call_plain, hplain, call_plain]

end Manifest

end CellMachine
