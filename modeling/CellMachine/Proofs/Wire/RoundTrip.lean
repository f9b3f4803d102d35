import CellMachine.Proofs.Cbor.Written
import CellMachine.Proofs.Wire.Texts
import CellMachine.Wire.Digest

/-!
# Images that are written and read again

An image is written as a record of records. What is written is read back as one item, in which every
field has its place; so reading undoes writing for every image that a reader accepts at all.

* `Image.item` — the item that an image is written as.
* `Image.item?_toBytes` — the bytes of an image consist of this item, if its lists are short.
* `Image.ofItem?_item` — the item describes the image, whatever its version and layout.
* `Image.ofBytes_toBytes_iff` — **an image is read back exactly if it is portable**; so an image
  that was read can be written and read again, and keeps its digest.
-/

namespace CellMachine

namespace Image

open CellMachine.Cbor

/-- An image that can be sent: it has the version of this library and a sound layout, and none of
its lists is too long to be read. -/
structure Portable [BaseOrder] (img : Image) : Prop where
  version : img.version = imageVersion
  layout : img.checkLayout = .ok ()
  cells : img.cells.size ≤ maxEntries
  globals : img.globals.length ≤ maxEntries
  routines : img.routines.length ≤ maxEntries

/-! ### The item of an image -/

/-- The item of a global. -/
def globalItem (g : GlobalEntry) : Cbor.Item :=
  .ofFields [(1, .ofText g.name), (2, .ofInt g.addr.toInt)]

/-- The item of a routine. -/
def routineItem (r : RoutineEntry) : Cbor.Item :=
  .ofFields [(1, .ofText r.name), (2, .ofInt r.base.toInt), (3, .ofInt r.capacity.toInt)]

/-- The item of the cells; nothing stands for cells that are absent. -/
def cellsItem : Option (Array Cell) → Cbor.Item
  | none => .simple 22
  | some cells => .list (cells.toList.map fun v => .ofInt v.toInt)

/-- The field of a list, which is left out when the list is empty. -/
def itemField (name : Nat) (items : List Cbor.Item) : List (Nat × Cbor.Item) :=
  if items.isEmpty then [] else [(name, .list items)]

/-- The fields that an image always has. -/
def headFields (img : Image) : List (Nat × Cbor.Item) :=
  [(1, .ofInt img.version.toNat), (2, .ofInt img.base.toInt), (3, cellsItem img.cells?)]

/-- The fields of an image. -/
def itemFields (img : Image) : List (Nat × Cbor.Item) :=
  img.headFields ++ itemField 4 (img.globals.map globalItem) ++
    itemField 5 (img.routines.map routineItem)

/-- The item that an image is written as. -/
def item (img : Image) : Cbor.Item := .ofFields img.itemFields

/-! ### What is written is the item -/

/-- A word is read back, at whatever level it stands. -/
theorem word_yields (levels : Nat) (v : Int64) :
    Reader.Yields (Reader.item levels) (integer v.toInt) (.ofInt v.toInt) := by
  have h64 : UInt64.size = 18446744073709551616 := rfl
  have hlow := Int64.le_toInt v
  have hhigh := Int64.toInt_lt v
  cases levels with
  | zero => exact Reader.integer_yields none (by omega) (by omega)
  | succ levels => exact Reader.integer_yields _ (by omega) (by omega)

/-- The version of an image is read back. -/
theorem version_yields (img : Image) :
    Reader.Yields (Reader.item 31) (integer img.version.toNat) (.ofInt img.version.toNat) := by
  have hsize : img.version.toNat < 65536 := img.version.toNat_lt
  have h64 : UInt64.size = 18446744073709551616 := rfl
  exact Reader.integer_yields _ (by omega) (by omega)

/-- A global is read back. -/
theorem global_yields (levels : Nat) {g : GlobalEntry} (hg : g.name.utf8ByteSize < UInt64.size) :
    Reader.Yields (Reader.item (levels + 2)) (globalBytes g) (globalItem g) := by
  refine Reader.record_yields (by simp [maxEntries]) (.cons ?_ (.cons ?_ .nil))
  · exact ⟨by decide, Reader.text_yields _ hg⟩
  · exact ⟨by decide, word_yields _ g.addr⟩

/-- A routine is read back. -/
theorem routine_yields (levels : Nat) {r : RoutineEntry}
    (hr : r.name.utf8ByteSize < UInt64.size) :
    Reader.Yields (Reader.item (levels + 2)) (routineBytes r) (routineItem r) := by
  refine Reader.record_yields (by simp [maxEntries]) (.cons ?_ (.cons ?_ (.cons ?_ .nil)))
  · exact ⟨by decide, Reader.text_yields _ hr⟩
  · exact ⟨by decide, word_yields _ r.base⟩
  · exact ⟨by decide, word_yields _ r.capacity⟩

/-- Lists of things that are read back stand member by member beside their items. -/
theorem forall₂_yields {α : Type} {x : Cbor.Reader Cbor.Item} {write : α → List UInt8}
    {toItem : α → Cbor.Item} {as : List α} (h : ∀ a ∈ as, Reader.Yields x (write a) (toItem a)) :
    List.Forall₂ (Reader.Yields x) (as.map write) (as.map toItem) := by
  rw [List.forall₂_map_left_iff, List.forall₂_map_right_iff, List.forall₂_same]
  exact h

/-- The cells are read back if they are not too many. -/
theorem cells_yields (levels : Nat) {cells? : Option (Array Cell)}
    (h : (cells?.getD #[]).size ≤ maxEntries) :
    Reader.Yields (Reader.item (levels + 1)) (cellBytes cells?) (cellsItem cells?) := by
  cases cells? with
  | none => exact Reader.null_yields _
  | some cells =>
    refine Reader.list_yields ?_ (forall₂_yields fun v _ => word_yields levels v)
    simpa using h

/-- The field of a list is read back if the list is not too long and its members are. -/
theorem listField_yields {α : Type} {levels name : Nat} {write : α → List UInt8}
    {toItem : α → Cbor.Item} {as : List α} (hname : name < UInt64.size)
    (hfew : as.length ≤ maxEntries)
    (h : ∀ a ∈ as, Reader.Yields (Reader.item levels) (write a) (toItem a)) :
    List.Forall₂ (Reader.FieldYields (levels + 1)) (listField name (as.map write))
      (itemField name (as.map toItem)) := by
  unfold listField itemField
  cases as with
  | nil => exact .nil
  | cons a as =>
    refine .cons ⟨hname, Reader.list_yields ?_ (forall₂_yields h)⟩ .nil
    rwa [List.length_map]

/-- A list takes at most one field. -/
theorem length_listField_le (name : Nat) (items : List (List UInt8)) :
    (listField name items).length ≤ 1 := by
  unfold listField
  split
  · exact Nat.zero_le 1
  · exact Nat.le_refl 1

/-- **The bytes of an image consist of its item**, if its lists and names are not too long. -/
theorem item?_toBytes {img : Image} (hcells : img.cells.size ≤ maxEntries)
    (hglobals : img.globals.length ≤ maxEntries) (hroutines : img.routines.length ≤ maxEntries)
    {most : Nat} (hmost : most < UInt64.size) (hnames : img.NamesWithin most) :
    item? img.toBytes = some img.item := by
  have hfields : List.Forall₂ (Reader.FieldYields 31)
      ([(1, integer img.version.toNat), (2, integer img.base.toInt), (3, cellBytes img.cells?)] ++
        listField 4 (img.globals.map globalBytes) ++ listField 5 (img.routines.map routineBytes))
      img.itemFields := by
    refine List.rel_append (List.rel_append ?_ ?_) ?_
    · exact .cons ⟨by decide, version_yields img⟩ (.cons ⟨by decide, word_yields 31 img.base⟩
        (.cons ⟨by decide, cells_yields 30 hcells⟩ .nil))
    · exact listField_yields (by decide) hglobals fun g hg =>
        global_yields 28 (Nat.lt_of_le_of_lt (hnames.globals g hg) hmost)
    · exact listField_yields (by decide) hroutines fun r hr =>
        routine_yields 28 (Nat.lt_of_le_of_lt (hnames.routines r hr) hmost)
  refine item?_of_yields (Reader.record_yields ?_ hfields)
  have hfour := length_listField_le 4 (img.globals.map globalBytes)
  have hfive := length_listField_le 5 (img.routines.map routineBytes)
  rw [List.length_append, List.length_append]
  simp only [maxEntries, List.length_cons, List.length_nil]
  omega

/-! ### The item describes the image -/

/-- A word is what its number means. -/
theorem word?_toInt (v : Int64) : word? (.integer v.toInt) = some v := by
  have hlow : Int64.minValue.toInt ≤ v.toInt := Int64.minValue_le_toInt v
  have hhigh : v.toInt ≤ Int64.maxValue.toInt := Int64.toInt_le v
  unfold word? integer?
  simp only [if_pos (And.intro hlow hhigh), Option.map_some, Int64.ofInt_toInt]

/-- A field that is there is read from its item. -/
theorem field?_of_lookup {α : Type} {fields : List (Nat × Cbor.Item)} {name : Nat} {i : Cbor.Item}
    {v : Value} (h : fields.lookup name = some i) (hv : i.value? = some v) (hnull : v ≠ .null)
    (default : α) (read? : Value → Option α) : field? fields name default read? = read? v := by
  unfold field?
  cases v with
  | null => exact absurd rfl hnull
  | integer | text | list | map => simp only [h, hv]

/-- A number in a record. -/
theorem field?_ofInt {α : Type} {fields : List (Nat × Cbor.Item)} {name : Nat} {n : Int}
    (h : fields.lookup name = some (.ofInt n)) (default : α) (read? : Value → Option α) :
    field? fields name default read? = read? (.integer n) :=
  field?_of_lookup h (Cbor.Item.value?_ofInt n) (by simp) default read?

/-- A text in a record. -/
theorem field?_ofText {α : Type} {fields : List (Nat × Cbor.Item)} {name : Nat} {s : String}
    (h : fields.lookup name = some (.ofText s)) (default : α) (read? : Value → Option α) :
    field? fields name default read? = read? (.text s) :=
  field?_of_lookup h (Cbor.Item.value?_ofText s) (by simp) default read?

/-- The item of a global describes it. -/
theorem globalOf?_globalItem (g : GlobalEntry) : globalOf? (globalItem g) = some g := by
  unfold globalOf? globalItem
  rw [record?_ofFields]
  simp only [Option.bind_eq_bind, Option.bind_some]
  rw [field?_ofText rfl, field?_ofInt rfl, word?_toInt]
  rfl

/-- The item of a routine describes it. -/
theorem routineOf?_routineItem (r : RoutineEntry) : routineOf? (routineItem r) = some r := by
  unfold routineOf? routineItem
  rw [record?_ofFields]
  simp only [Option.bind_eq_bind, Option.bind_some]
  rw [field?_ofText rfl, field?_ofInt rfl, word?_toInt, field?_ofInt rfl, word?_toInt]
  rfl

/-- What describes things one by one describes the list of them. -/
theorem mapM_map_of_describes {α : Type} {toItem : α → Cbor.Item} {read? : Cbor.Item → Option α}
    {as : List α} (h : ∀ a ∈ as, read? (toItem a) = some a) :
    (as.map toItem).mapM read? = some as := by
  induction as with
  | nil => rfl
  | cons a as ih =>
    rw [List.map_cons, List.mapM_cons, h a List.mem_cons_self,
      ih fun b hb => h b (List.mem_cons_of_mem a hb)]
    rfl

/-- The item of the cells describes them. -/
theorem field?_cellsItem {fields : List (Nat × Cbor.Item)} {cells? : Option (Array Cell)}
    (h : fields.lookup 3 = some (cellsItem cells?)) :
    field? fields 3 none (fun v => (list? cell? v).map fun cells => some cells.toArray) =
      some cells? := by
  have hcell : ∀ v : Cell, cell? (.ofInt v.toInt) = some v := by
    intro v
    unfold cell?
    rw [Cbor.Item.value?_ofInt]
    exact word?_toInt v
  cases cells? with
  | none =>
    unfold field?
    rw [h]
    rfl
  | some cells =>
    rw [field?_of_lookup h rfl (by simp)]
    show ((cells.toList.map fun v => Cbor.Item.ofInt v.toInt).mapM cell?).map _ = _
    rw [mapM_map_of_describes fun v _ => hcell v]
    rfl

/-- A field of another name is not the field of a list. -/
theorem lookup_itemField_of_ne {name other : Nat} (h : name ≠ other) (items : List Cbor.Item) :
    (itemField other items).lookup name = none := by
  unfold itemField
  split
  · rfl
  · rw [List.lookup_cons, beq_false_of_ne h]
    rfl

/-- The field of a list describes the list, also where it is left out. -/
theorem field?_itemField {α : Type} {toItem : α → Cbor.Item} {read? : Cbor.Item → Option α}
    {name : Nat} (h : ∀ a, read? (toItem a) = some a) (as : List α)
    {before after : List (Nat × Cbor.Item)}
    (hbefore : before.lookup name = none) (hafter : after.lookup name = none) :
    field? (before ++ itemField name (as.map toItem) ++ after) name [] (list? read?) = some as := by
  cases as with
  | nil =>
    unfold field?
    simp [itemField, List.lookup_append, hbefore, hafter]
  | cons a as =>
    have hlookup : (before ++ itemField name ((a :: as).map toItem) ++ after).lookup name =
        some (.list ((a :: as).map toItem)) := by
      simp [itemField, List.lookup_append, hbefore]
    rw [field?_of_lookup hlookup rfl (by simp)]
    exact mapM_map_of_describes fun b _ => h b

/-- **The item of an image describes it**, whatever its version and layout. -/
theorem ofItem?_item (img : Image) : ofItem? img.item = some img := by
  have hversion : field? img.itemFields 1 0 (integer? 0 65535) =
      some (img.version.toNat : Int) := by
    have hsize : img.version.toNat < 65536 := img.version.toNat_lt
    rw [field?_ofInt rfl]
    exact if_pos (by omega)
  have hbase : field? img.itemFields 2 0 word? = some img.base := by
    rw [field?_ofInt rfl, word?_toInt]
  have hglobals : field? img.itemFields 4 [] (list? globalOf?) = some img.globals :=
    field?_itemField globalOf?_globalItem img.globals rfl
      (lookup_itemField_of_ne (by decide) (img.routines.map routineItem))
  have hroutines : field? img.itemFields 5 [] (list? routineOf?) = some img.routines := by
    have hbefore : (img.headFields ++ itemField 4 (img.globals.map globalItem)).lookup 5 = none :=
      lookup_itemField_of_ne (by decide) (img.globals.map globalItem)
    have h := field?_itemField routineOf?_routineItem img.routines hbefore List.lookup_nil
    rwa [List.append_nil] at h
  have hcells : field? img.itemFields 3 none
      (fun v => (list? cell? v).map fun cells => some cells.toArray) = some img.cells? :=
    field?_cellsItem rfl
  unfold ofItem? item
  rw [record?_ofFields]
  simp only [Option.bind_eq_bind, Option.bind_some, hversion, hbase, hcells, hglobals, hroutines]
  simp

/-! ### Round trips -/

/-- An image that is read is portable. -/
theorem portable_of_ofBytes [BaseOrder] {bytes : List UInt8} {img : Image}
    (h : ofBytes bytes = .ok img) : img.Portable := by
  obtain ⟨⟨i, hitem, himg⟩, hversion, hlayout⟩ := item_of_ofBytes h
  obtain ⟨hcells, hglobals, hroutines⟩ := lengths_of_ofItem? (shallow_of_item? hitem) himg
  exact ⟨hversion, hlayout, hcells, hglobals, hroutines⟩

/-- A portable image is read back if the lengths of its names can be written. -/
theorem ofBytes_toBytes [BaseOrder] {img : Image} (h : img.Portable) {most : Nat}
    (hmost : most < UInt64.size) (hnames : img.NamesWithin most) :
    ofBytes img.toBytes = .ok img := by
  have hitem := item?_toBytes h.cells h.globals h.routines hmost hnames
  have hversion : ¬img.version ≠ imageVersion := not_not_intro h.version
  unfold ofBytes
  simp only [hitem, Option.bind_some, ofItem?_item, if_neg hversion, h.layout]

/-- An image that is read can be written and read again. -/
theorem ofBytes_toBytes_of_ofBytes [BaseOrder] {bytes : List UInt8}
    (hbytes : bytes.length < UInt64.size) {img : Image} (h : ofBytes bytes = .ok img) :
    ofBytes img.toBytes = .ok img :=
  ofBytes_toBytes (portable_of_ofBytes h) hbytes (names_of_ofBytes h)

/-- **An image is read back exactly if it is portable**, as long as its names have lengths of 64
bits. So an image that was read, in whatever form it came, can be written and read again: it is the
same image and has the same digest. -/
theorem ofBytes_toBytes_iff [BaseOrder] :
    (∀ img : Image, img.NamesWithin (UInt64.size - 1) →
      (ofBytes img.toBytes = .ok img ↔ img.Portable)) ∧
    ∀ (bytes : List UInt8) (img : Image), bytes.length < UInt64.size → ofBytes bytes = .ok img →
      (ofBytes img.toBytes).map (fun again => (again, again.digest)) = .ok (img, img.digest) := by
  constructor
  · intro img hnames
    exact ⟨portable_of_ofBytes, fun h => ofBytes_toBytes h (by decide) hnames⟩
  · intro bytes img hbytes h
    rw [ofBytes_toBytes_of_ofBytes hbytes h]
    rfl

/-- An image with cells at the borders of the widths. -/
def widthsImage : Image where
  version := imageVersion
  base := 32
  cells? := some #[23, 24, 255, 256, 65535, 65536, 4294967295, 4294967296, Int64.maxValue, -1, -24,
    -25, -256, -257, Int64.minValue]
  globals := [{ name := "λ", addr := 32 }]
  routines := [{ name := "get", base := 33, capacity := 14 }]

/-- An image in a longer form: a map and a list without lengths, and a cell in three bytes. -/
def looseBytes : List UInt8 := [0xbf, 0x01, 0x01, 0x03, 0x9f, 0x19, 0x00, 0x05, 0xff, 0xff]

/-- The image in its longer form. -/
def looseImage : Image where
  version := imageVersion
  base := 0
  cells? := some #[5]
  globals := []
  routines := []

/-- The first image is read back, and the second one after it was read. -/
theorem ofBytes_toBytes_iff_sample :
    widthsImage.NamesWithin (UInt64.size - 1) ∧ ofBytes widthsImage.toBytes = .ok widthsImage ∧
      ofBytes looseBytes = .ok looseImage ∧
      (ofBytes looseImage.toBytes).map (fun again => (again, again.digest)) =
        .ok (looseImage, looseImage.digest) := by
  have hnames : widthsImage.NamesWithin (UInt64.size - 1) := by
    refine ⟨?_, ?_⟩ <;> decide +kernel
  have hlayout : widthsImage.checkLayout = .ok () := by
    unfold checkLayout
    have hfault : widthsImage.layoutFault? = none := by decide +kernel
    rw [hfault]
  have hportable : widthsImage.Portable :=
    ⟨rfl, hlayout, by decide +kernel, by decide +kernel, by decide +kernel⟩
  have hread : ofBytes looseBytes = .ok looseImage := by
    have hsome : (ofBytes looseBytes).toOption = some looseImage := by decide +kernel
    cases hbytes : ofBytes looseBytes with
    | error failure =>
      rw [hbytes] at hsome
      cases hsome
    | ok img =>
      rw [hbytes] at hsome
      exact congrArg Except.ok (Option.some.inj hsome)
  exact ⟨hnames, (ofBytes_toBytes_iff.1 widthsImage hnames).mpr hportable, hread,
    ofBytes_toBytes_iff.2 looseBytes looseImage (by decide) hread⟩

end Image

end CellMachine
