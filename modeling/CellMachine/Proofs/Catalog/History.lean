import CellMachine.Catalog.Basic
import CellMachine.Proofs.Action
import CellMachine.Proofs.Catalog.ByteOrder
import CellMachine.Proofs.Wire.Canonical
import Mathlib.Data.List.Induction
import Mathlib.Data.List.Nodup

/-!
# A catalog is the map of what was saved

A catalog is a table of rows, in which an image stands as bytes. Seen from outside it is a map from
names to images, and calls make it what their history says: under each name the image that was last
saved there, unless the name was deleted since. This is so for every table of rows by name.

* `CatalogCall.held` — the image that calls leave under a name, read off the last one that concerns
  the name.
* `Catalog.rows_ordered`, `Catalog.rows_without` — what is listed of a table.
* `Catalog.Holds` — the rows of a catalog are those of a given map.
* `CatalogCall.holds_after` — one call keeps this, with the map that it leaves.
* `CatalogCall.holds_afterAll` — so it holds after any calls on a new catalog.
* `Catalog.Faithful` — what is seen of a map through the calls on a catalog.
* `CatalogCall.faithful_afterAll` — **a catalog is faithful to what was saved in it.**
-/

namespace CellMachine

open CellMachine.Action

/-- A call on a catalog. -/
inductive CatalogCall
  | save (name : String) (img : Image) (now : Int)
  | load (name : String)
  | list
  | delete (name : String)
  /-- The catalog is closed and opened again. -/
  | reopen

namespace CatalogCall

/-- The catalog after a call, whether it succeeds or fails. -/
def after [ImageTable] [BaseOrder] : CatalogCall → Catalog → Catalog
  | .save name img now, c => (Catalog.save name img now).after c
  | .load name, c => (Catalog.load name).after c
  | .list, c => Catalog.list.after c
  | .delete name, c => (Catalog.delete name).after c
  | .reopen, c => c.close.reopen

/-- The catalog after calls, one after the other. -/
def afterAll [ImageTable] [BaseOrder] (calls : List CatalogCall) (c : Catalog) : Catalog :=
  calls.foldl (fun c call => call.after c) c

/-- What a call leaves under a name, if it concerns the name. -/
def leaves? (name : String) : CatalogCall → Option (Option Image)
  | .save other img _ => if other = name then some (some img) else none
  | .delete other => if other = name then some none else none
  | .load _ | .list | .reopen => none

/-- The image under a name after calls on a new catalog: the one that was last saved there, if the
name was not deleted since. -/
def held (calls : List CatalogCall) (name : String) : Option Image :=
  (calls.reverse.findSome? (leaves? name)).join

/-- A call that saves no image but one whose lengths are numbers of 64 bits. -/
def Measured : CatalogCall → Prop
  | .save _ img _ => img.Measured
  | .load _ | .list | .delete _ | .reopen => True

/-- Saving leaves the image under its name. -/
theorem leaves?_save (saved name : String) (img : Image) (now : Int) (before : Option Image) :
    ((save saved img now).leaves? name).getD before =
      if saved = name then some img else before := by
  simp only [leaves?]
  split <;> rfl

/-- Deleting leaves nothing under the name. -/
theorem leaves?_delete (deleted name : String) (before : Option Image) :
    ((delete deleted).leaves? name).getD before = if deleted = name then none else before := by
  simp only [leaves?]
  split <;> rfl

/-- The last call decides about the names that it concerns. -/
theorem held_concat (calls : List CatalogCall) (call : CatalogCall) (name : String) :
    held (calls ++ [call]) name = (call.leaves? name).getD (held calls name) := by
  unfold held
  rw [List.reverse_append, List.reverse_singleton, List.singleton_append, List.findSome?_cons]
  cases call.leaves? name with
  | none => rfl
  | some left => rfl

/-- What was measured when it was saved is measured. -/
theorem measured_of_held {calls : List CatalogCall} (h : ∀ call ∈ calls, call.Measured)
    {name : String} {img : Image} (hheld : held calls name = some img) : img.Measured := by
  unfold held at hheld
  have hsome : calls.reverse.findSome? (leaves? name) = some (some img) :=
    Option.join_eq_some_iff.mp hheld
  obtain ⟨call, hmem, hleaves⟩ := List.exists_of_findSome?_eq_some hsome
  have hcall := h call (List.mem_reverse.mp hmem)
  cases call with
  | save other saved now =>
    obtain ⟨-, hsame⟩ : other = name ∧ saved = img := by simpa [leaves?] using hleaves
    exact hsame ▸ hcall
  | load | list | delete | reopen => simp [leaves?] at hleaves

end CatalogCall

namespace Catalog

variable [ImageTable]

/-! ### What is listed of a table -/

/-- The rows that are listed are those of the table. -/
theorem mem_rows {c : Catalog} {r : CatalogRow} : r ∈ c.rows ↔ r ∈ ImageTable.rows c.table :=
  List.mem_mergeSort

/-- A new catalog has no rows. -/
theorem rows_new : ({} : Catalog).rows = [] :=
  List.eq_nil_iff_forall_not_mem.mpr fun r hr => by
    have hempty : r ∈ ([] : List CatalogRow) := ImageTable.rows_empty ▸ mem_rows.mp hr
    cases hempty

/-- **Rows are listed in the order of their names**, each name once. -/
theorem rows_ordered (c : Catalog) : c.rows.Pairwise fun r s => r.name < s.name := by
  have hsorted : c.rows.Pairwise fun r s => r.name ≤ s.name := by
    refine (List.pairwise_mergeSort ?_ ?_ _).imp of_decide_eq_true
    · intro r s t hrs hst
      exact decide_eq_true ((of_decide_eq_true hrs).trans (of_decide_eq_true hst))
    · intro r s
      simpa using le_total r.name s.name
  have hdistinct : c.rows.Pairwise fun r s => r.name ≠ s.name :=
    (List.mergeSort_perm _ _).symm.pairwise (ImageTable.distinct c.table) fun h => Ne.symm h
  exact (hsorted.and hdistinct).imp fun h => lt_of_le_of_ne h.1 h.2

/-- Rows in the order of their names are those of a catalog if they are the same rows. -/
theorem eq_rows {c : Catalog} {rows : List CatalogRow}
    (hordered : rows.Pairwise fun r s => r.name < s.name) (hmem : ∀ r, r ∈ rows ↔ r ∈ c.rows) :
    rows = c.rows := by
  have hnodup : ∀ {rows : List CatalogRow}, rows.Pairwise (fun r s => r.name < s.name) →
      rows.Nodup := fun h => h.imp fun hlt heq => absurd (congrArg CatalogRow.name heq) hlt.ne
  refine List.Perm.eq_of_pairwise (fun r s _ _ hrs hsr => absurd hrs hsr.asymm) hordered
    c.rows_ordered ?_
  exact (List.perm_ext_iff_of_nodup (hnodup hordered) (hnodup c.rows_ordered)).mpr hmem

/-- The row of a name is the one that is listed. -/
theorem row?_eq_some {c : Catalog} {name : String} {row : CatalogRow} :
    c.row? name = some row ↔ row ∈ c.rows ∧ row.name = name := by
  rw [mem_rows]
  exact ImageTable.row?_eq_some name c.table row

/-- A name has no row if none is listed. -/
theorem row?_eq_none {c : Catalog} {name : String} :
    c.row? name = none ↔ ∀ r ∈ c.rows, r.name ≠ name := by
  rw [Option.eq_none_iff_forall_ne_some]
  constructor
  · exact fun h r hr hname => h r (row?_eq_some.mpr ⟨hr, hname⟩)
  · exact fun h r hrow => h r (row?_eq_some.mp hrow).1 (row?_eq_some.mp hrow).2

/-- The rows of a catalog into which one was put. -/
theorem mem_rows_put {c : Catalog} {row r : CatalogRow} :
    r ∈ (c.put row).rows ↔ r = row ∨ r ∈ c.rows ∧ r.name ≠ row.name := by
  rw [mem_rows, mem_rows]
  exact ImageTable.mem_put row c.table r

/-- **The row that is put in is found under its name**, and every other row under its own. -/
theorem row?_put (c : Catalog) (row : CatalogRow) (name : String) :
    (c.put row).row? name = if row.name = name then some row else c.row? name := by
  by_cases hname : row.name = name
  · rw [if_pos hname]
    exact row?_eq_some.mpr ⟨mem_rows_put.mpr (.inl rfl), hname⟩
  · rw [if_neg hname]
    ext r
    simp only [row?_eq_some, mem_rows_put]
    constructor
    · rintro ⟨rfl | ⟨hr, -⟩, hrname⟩
      · exact absurd hrname hname
      · exact ⟨hr, hrname⟩
    · rintro ⟨hr, rfl⟩
      exact ⟨.inr ⟨hr, Ne.symm hname⟩, rfl⟩

/-- A catalog in which a name was deleted. -/
def without (c : Catalog) (name : String) : Catalog :=
  { c with table := (ImageTable.remove name c.table).1 }

/-- **Deleting a name leaves all other rows as they are listed.** -/
theorem rows_without (c : Catalog) (name : String) :
    (c.without name).rows = c.rows.filter fun r => r.name != name := by
  refine (eq_rows (c.rows_ordered.filter _) fun r => ?_).symm
  rw [mem_rows, List.mem_filter, mem_rows, bne_iff_ne]
  exact (ImageTable.mem_remove name c.table r).symm

/-- A name that was deleted is not found, and every other name is found as before. -/
theorem row?_without (c : Catalog) (deleted name : String) :
    (c.without deleted).row? name = if deleted = name then none else c.row? name := by
  by_cases hname : deleted = name
  · subst hname
    rw [if_pos rfl, row?_eq_none]
    intro r hr
    rw [rows_without, List.mem_filter, bne_iff_ne] at hr
    exact hr.2
  · rw [if_neg hname]
    ext r
    rw [row?_eq_some, row?_eq_some, rows_without, List.mem_filter, bne_iff_ne]
    constructor
    · exact fun h => ⟨h.1.1, h.2⟩
    · rintro ⟨hr, rfl⟩
      exact ⟨⟨hr, Ne.symm hname⟩, rfl⟩

/-- Rows are taken out of the table exactly if the name has one. -/
theorem removed_eq_zero {c : Catalog} {name : String} :
    (ImageTable.remove name c.table).2 = 0 ↔ c.row? name = none := by
  rw [ImageTable.removed_eq_zero, row?_eq_none]
  simp only [mem_rows]

/-- A name without a row is not deleted. -/
theorem without_of_none {c : Catalog} {name : String} (h : c.row? name = none) :
    c.without name = c :=
  congrArg (fun table => { c with table })
    (ImageTable.remove_nothing name c.table (removed_eq_zero.mpr h))

/-! ### The map that a catalog is -/

/-- What a catalog keeps of an image: its digest, the number of its cells and its bytes. -/
def kept (img : Image) : String × Int × List UInt8 := (img.digest, img.cells.size, img.toBytes)

/-- A catalog holds a map: it is open, and under each name there is what is kept of the image that
the map has there. -/
structure Holds (c : Catalog) (m : String → Option Image) : Prop where
  isOpen : c.isOpen = true
  found : ∀ name, (c.row? name).map (fun r => (r.digest, r.count, r.bytes)) = (m name).map kept

namespace Holds

variable {c : Catalog} {m : String → Option Image}

/-- A name is absent from the rows if it is absent from the map. -/
theorem row?_none (h : c.Holds m) {name : String} (hnone : m name = none) :
    c.row? name = none := by
  have hfound := h.found name
  rwa [hnone, Option.map_none, Option.map_eq_none_iff] at hfound

/-- A name that is in the map has a row, which keeps its image. -/
theorem row?_some (h : c.Holds m) {name : String} {img : Image} (hsome : m name = some img) :
    ∃ row, c.row? name = some row ∧ row.digest = img.digest ∧ row.count = img.cells.size ∧
      row.bytes = img.toBytes := by
  have hfound := h.found name
  rw [hsome, Option.map_some, Option.map_eq_some_iff] at hfound
  obtain ⟨row, hrow, hkept⟩ := hfound
  simp only [kept, Prod.mk.injEq] at hkept
  exact ⟨row, hrow, hkept⟩

/-- A catalog that holds a map is open for everything. -/
theorem needOpen_eq (h : c.Holds m) (activity : String) : needOpen activity c = .ok () c := by
  unfold Catalog.needOpen
  rw [if_pos h.isOpen]

/-- A call that looks at the catalog finds it open. -/
theorem look {α : Type} (h : c.Holds m) (activity : String) (f : Catalog → Action Catalog α) :
    (Catalog.needOpen activity >>= fun _ => get >>= f) c = f c c := by
  rw [bind_of_ok (h.needOpen_eq activity)]
  rfl

/-- With a row that is put in, a catalog holds the map with the image of the row. -/
theorem put (h : c.Holds m) {row : CatalogRow} {img : Image}
    (hkept : (row.digest, row.count, row.bytes) = kept img) :
    (c.put row).Holds fun name => if row.name = name then some img else m name := by
  refine ⟨h.isOpen, ?_⟩
  intro name
  rw [row?_put]
  by_cases hsaved : row.name = name
  · rw [if_pos hsaved, if_pos hsaved]
    exact congrArg some hkept
  · rw [if_neg hsaved, if_neg hsaved]
    exact h.found name

/-- Without a name, a catalog holds the map without the name. -/
theorem without (h : c.Holds m) (deleted : String) :
    (c.without deleted).Holds fun name => if deleted = name then none else m name := by
  refine ⟨h.isOpen, ?_⟩
  intro name
  rw [row?_without]
  by_cases hdeleted : deleted = name
  · rw [if_pos hdeleted, if_pos hdeleted]
    rfl
  · rw [if_neg hdeleted, if_neg hdeleted]
    exact h.found name

/-- A name that is absent stays absent. -/
theorem absent (h : c.Holds m) {deleted : String} (hnone : m deleted = none) :
    c.Holds fun name => if deleted = name then none else m name := by
  refine ⟨h.isOpen, ?_⟩
  intro name
  by_cases hdeleted : deleted = name
  · rw [if_pos hdeleted, h.row?_none (hdeleted ▸ hnone)]
    rfl
  · rw [if_neg hdeleted]
    exact h.found name

/-- What is saved is put into its row. -/
theorem save_eq (h : c.Holds m) (name : String) (img : Image) (now : Int) :
    ∃ row : CatalogRow, row.name = name ∧ (row.digest, row.count, row.bytes) = kept img ∧
      save name img now c = .ok row (c.put row) := by
  refine ⟨⟨name, img.digest, img.cells.size, img.toBytes, now⟩, rfl, rfl, ?_⟩
  unfold Catalog.save
  rw [bind_of_ok (h.needOpen_eq _)]
  rfl

/-- Loading looks at the row of the name and leaves the catalog as it is. -/
theorem load_eq [BaseOrder] (h : c.Holds m) (name : String) :
    load name c =
      match c.row? name with
      | none => .error (.imageNotFound name) c
      | some row => Action.ofExcept (checkRow row) c := by
  unfold Catalog.load
  rw [h.look]
  cases c.row? name with
  | none => rfl
  | some row => rfl

/-- A name that is absent from the map is not found. -/
theorem load_absent [BaseOrder] (h : c.Holds m) {name : String} (hnone : m name = none) :
    Catalog.load name c = .error (.imageNotFound name) c := by
  rw [h.load_eq, h.row?_none hnone]

/-- The image of a row is the one that the row keeps, if its bytes are accepted. -/
theorem load_present [BaseOrder] (h : c.Holds m) {name : String} {img : Image}
    (hsome : m name = some img) (himg : img.Measured) :
    load name c =
      match Image.ofBytes img.toBytes with
      | .ok _ => .ok img c
      | .error cause => .error (.inImage name cause) c := by
  obtain ⟨row, hrow, hdigest, -, hbytes⟩ := h.row?_some hsome
  obtain ⟨-, hname⟩ := row?_eq_some.mp hrow
  rw [h.load_eq, hrow]
  simp only [checkRow, hbytes, hname, hdigest]
  cases hread : Image.ofBytes img.toBytes with
  | error cause => rfl
  | ok again =>
    simp only [Image.eq_of_ofBytes_toBytes himg hread, if_true]
    rfl

/-- The rows are listed as they are. -/
theorem list_eq (h : c.Holds m) : list c = .ok c.rows c := by
  unfold Catalog.list
  rw [bind_of_ok (h.needOpen_eq _)]
  rfl

/-- Deleting takes the row out, and says so if there was none. -/
theorem delete_eq (h : c.Holds m) (name : String) :
    delete name c =
      if (c.row? name).isNone then .error (.imageNotFound name) c else .ok () (c.without name) := by
  unfold Catalog.delete
  rw [h.look]
  show (if (ImageTable.remove name c.table).2 = 0 then throw (.imageNotFound name)
    else pure () : Action Catalog Unit) (c.without name) = _
  by_cases hnone : c.row? name = none
  · rw [if_pos (removed_eq_zero.mpr hnone), if_pos (by simp [hnone]), without_of_none hnone]
    rfl
  · rw [if_neg (mt removed_eq_zero.mp hnone), if_neg (by simpa using hnone)]
    rfl

/-- A name that is absent from the map cannot be deleted. -/
theorem delete_absent (h : c.Holds m) {name : String} (hnone : m name = none) :
    delete name c = .error (.imageNotFound name) c := by
  rw [h.delete_eq, h.row?_none hnone]
  rfl

/-- A name that is in the map is deleted. -/
theorem delete_present (h : c.Holds m) {name : String} {img : Image} (hsome : m name = some img) :
    delete name c = .ok () (c.without name) := by
  obtain ⟨row, hrow, -⟩ := h.row?_some hsome
  rw [h.delete_eq, hrow]
  rfl

end Holds

end Catalog

namespace CatalogCall

open Catalog

/-- **One call keeps a catalog to the map that it leaves.** -/
theorem holds_after [ImageTable] [BaseOrder] {c : Catalog} {m : String → Option Image}
    (h : c.Holds m) (call : CatalogCall) :
    (call.after c).Holds fun name => (call.leaves? name).getD (m name) := by
  cases call with
  | save saved img now =>
    obtain ⟨row, rfl, hkept, hsave⟩ := h.save_eq saved img now
    have hafter : (CatalogCall.save row.name img now).after c = c.put row := after_of_ok hsave
    rw [hafter]
    simp only [leaves?_save]
    exact h.put hkept
  | load name =>
    have hafter : (CatalogCall.load name).after c = c := by
      show (Catalog.load name).after c = c
      unfold Action.after
      rw [h.load_eq]
      cases c.row? name with
      | none => rfl
      | some row =>
        simp only []
        cases checkRow row <;> rfl
    rw [hafter]
    exact h
  | list =>
    have hafter : CatalogCall.list.after c = c := after_of_ok h.list_eq
    rw [hafter]
    exact h
  | delete deleted =>
    simp only [leaves?_delete]
    -- a name that is absent is refused, and absent it stays
    cases hheld : m deleted with
    | none =>
      have hafter : (CatalogCall.delete deleted).after c = c :=
        after_of_error (h.delete_absent hheld)
      rw [hafter]
      exact h.absent hheld
    | some img =>
      have hafter : (CatalogCall.delete deleted).after c = c.without deleted :=
        after_of_ok (h.delete_present hheld)
      rw [hafter]
      exact h.without deleted
  | reopen => exact ⟨rfl, h.found⟩

/-- So calls on a new catalog keep it to what they say. -/
theorem holds_afterAll [ImageTable] [BaseOrder] (calls : List CatalogCall) :
    (afterAll calls {}).Holds (held calls) := by
  induction calls using List.reverseRecOn with
  | nil =>
    refine ⟨rfl, fun name => ?_⟩
    have hnone : (afterAll [] {}).row? name = none := by
      refine row?_eq_none.mpr fun r hr => ?_
      have hnew : r ∈ ({} : Catalog).rows := hr
      rw [rows_new] at hnew
      cases hnew
    rw [hnone]
    rfl
  | append_singleton calls call ih =>
    have hstep := holds_after ih call
    have hmap : (fun name => (call.leaves? name).getD (held calls name)) =
        held (calls ++ [call]) := funext fun name => (held_concat calls call name).symm
    unfold afterAll
    rw [List.foldl_append]
    exact hmap ▸ hstep

end CatalogCall

/-! ### What is seen of the map -/

namespace Catalog

/-- A failure to read an image does not say that there is none. -/
theorem notFound_not_mem_kinds [BaseOrder] {bytes : List UInt8} {cause : Failure}
    (h : Image.ofBytes bytes = .error cause) : FailureKind.imageNotFound ∉ cause.kinds := by
  unfold Image.ofBytes at h
  split at h
  · cases h
    exact List.not_mem_nil
  · split at h
    · cases h
      show FailureKind.imageNotFound ∉ [.wireVersion]
      decide
    · unfold Image.checkLayout at h
      split at h
      · next hlayout =>
        split at hlayout
        · cases hlayout
          cases h
          show FailureKind.imageNotFound ∉ [.wireMalformed, .layout]
          decide
        · cases hlayout
      · cases h

variable [ImageTable]

/-- What is seen of a map of images through the calls on a catalog. -/
structure Faithful [BaseOrder] (c : Catalog) (m : String → Option Image) : Prop where
  /-- Every image can be saved under every name. -/
  saves : ∀ name img now, ∃ row, save name img now c = .ok row (c.put row) ∧
    row.name = name ∧ row.digest = img.digest ∧ row.count = img.cells.size
  /-- A name that is absent is not found; under any other name is the image that the map has there,
  and it is loaded if its bytes are accepted. -/
  loads : ∀ name, load name c =
    match m name with
    | none => .error (.imageNotFound name) c
    | some img =>
      match Image.ofBytes img.toBytes with
      | .ok _ => .ok img c
      | .error cause => .error (.inImage name cause) c
  /-- A failure to load says that there is no image exactly if the name is absent. -/
  notFound : ∀ name failure c', load name c = .error failure c' →
    (.imageNotFound ∈ failure.kinds ↔ m name = none)
  /-- A name that is absent is not found; any other name is deleted, and no row but its own. -/
  deletes : ∀ name, if (m name).isNone then delete name c = .error (.imageNotFound name) c
    else ∃ c', delete name c = .ok () c' ∧ c'.isOpen = c.isOpen ∧
      c'.rows = c.rows.filter fun r => r.name != name
  /-- Listing gives the rows. -/
  lists : list c = .ok c.rows c
  /-- The rows are those of the names in the map, with the digests and the numbers of cells of their
  images. -/
  listed : ∀ name digest count,
    (∃ r ∈ c.rows, r.name = name ∧ r.digest = digest ∧ r.count = count) ↔
      ∃ img, m name = some img ∧ digest = img.digest ∧ count = img.cells.size
  /-- No name has two rows. -/
  once : (c.rows.map CatalogRow.name).Nodup
  /-- The rows are in the order of the bytes of their names. -/
  ordered : (c.rows.map fun r => r.name.toUTF8.toList).Pairwise (· < ·)

namespace Holds

variable {c : Catalog} {m : String → Option Image}

/-- The rows are those of the names in the map. -/
theorem listed (h : c.Holds m) (name digest : String) (count : Int) :
    (∃ r ∈ c.rows, r.name = name ∧ r.digest = digest ∧ r.count = count) ↔
      ∃ img, m name = some img ∧ digest = img.digest ∧ count = img.cells.size := by
  constructor
  · rintro ⟨r, hr, rfl, rfl, rfl⟩
    have hfound := h.found r.name
    rw [row?_eq_some.mpr ⟨hr, rfl⟩, Option.map_some] at hfound
    obtain ⟨img, himg, hkept⟩ := Option.map_eq_some_iff.mp hfound.symm
    simp only [kept, Prod.mk.injEq] at hkept
    exact ⟨img, himg, hkept.1.symm, hkept.2.1.symm⟩
  · rintro ⟨img, himg, rfl, rfl⟩
    obtain ⟨row, hrow, hdigest, hcount, -⟩ := h.row?_some himg
    obtain ⟨hmem, hname⟩ := row?_eq_some.mp hrow
    exact ⟨row, hmem, hname, hdigest, hcount⟩

/-- **A catalog that holds a map is faithful to it.** -/
theorem faithful [BaseOrder] (h : c.Holds m) (hm : ∀ name img, m name = some img → img.Measured) :
    c.Faithful m where
  saves name img now := by
    obtain ⟨row, hname, hkept, hsave⟩ := h.save_eq name img now
    simp only [kept, Prod.mk.injEq] at hkept
    exact ⟨row, hsave, hname, hkept.1, hkept.2.1⟩
  loads name := by
    cases hname : m name with
    | none => exact h.load_absent hname
    | some img => exact h.load_present hname (hm name img hname)
  notFound name failure c' hload := by
    cases hname : m name with
    | none =>
      rw [h.load_absent hname] at hload
      cases hload
      exact iff_of_true (List.mem_singleton_self _) rfl
    | some img =>
      rw [h.load_present hname (hm name img hname)] at hload
      cases hread : Image.ofBytes img.toBytes with
      | ok again =>
        rw [hread] at hload
        cases hload
      | error cause =>
        rw [hread] at hload
        cases hload
        have hcause : FailureKind.imageNotFound ∉ cause.kinds := notFound_not_mem_kinds hread
        exact iff_of_false hcause (Option.some_ne_none img)
  deletes name := by
    cases hname : m name with
    | none => exact h.delete_absent hname
    | some img => exact ⟨c.without name, h.delete_present hname, rfl, c.rows_without name⟩
  lists := h.list_eq
  listed := h.listed
  once := List.pairwise_map.mpr (c.rows_ordered.imp ne_of_lt)
  ordered := List.pairwise_map.mpr (c.rows_ordered.imp Text.bytes_lt_of_lt)

end Holds

end Catalog

namespace CatalogCall

/-- **A catalog is faithful to what was saved in it**: after any calls on a new catalog, what is
seen of it is the map from each name to the image that was last saved under it, if the name was not
deleted since. -/
theorem faithful_afterAll [ImageTable] [BaseOrder] (calls : List CatalogCall)
    (h : ∀ call ∈ calls, call.Measured) : (afterAll calls {}).Faithful (held calls) :=
  (holds_afterAll calls).faithful fun _ _ => measured_of_held h

/-- An image that is replaced, one that is deleted, and one that a reader refuses. -/
def sampleCalls : List CatalogCall :=
  [.save "b" Image.looseImage 1, .save "a" Image.looseImage 2, .load "a",
   .save "b" { Image.looseImage with cells? := none } 3, .reopen, .delete "a", .list,
   .save "c" { Image.looseImage with version := 7 } 4]

/-- The catalog is faithful after these calls. -/
theorem faithful_afterAll_sample :
    (∀ call ∈ sampleCalls, call.Measured) ∧
      (afterAll sampleCalls {}).Faithful (held sampleCalls) ∧
      held sampleCalls "a" = none ∧
      held sampleCalls "b" = some { Image.looseImage with cells? := none } := by
  have hsmall : ∀ img : Image, img.cells.size ≤ 1 → img.globals = [] → img.routines = [] →
      img.Measured := by
    intro img hcells hglobals hroutines
    have h64 : 1 < UInt64.size := by decide
    refine ⟨by omega, ?_, ?_, ?_, ?_⟩
    · simp [hglobals, UInt64.size]
    · simp [hroutines, UInt64.size]
    · simp [hglobals]
    · simp [hroutines]
  have hmeasured : ∀ call ∈ sampleCalls, call.Measured := by
    simp only [sampleCalls, List.forall_mem_cons, Measured, true_and]
    refine ⟨?_, ?_, ?_, ?_, List.forall_mem_nil _⟩
    all_goals exact hsmall _ (by decide) rfl rfl
  exact ⟨hmeasured, faithful_afterAll sampleCalls hmeasured, by decide +kernel, by decide +kernel⟩

end CatalogCall

end CellMachine
