/-!
# Tables of images

A table keeps rows that are told apart by their names. Only its rows are known of it, and what is
done to them; how it keeps them, and in which order, is its own affair. So the table is a parameter
(`ImageTable`).
-/

namespace CellMachine

/-- An image in a table. -/
structure CatalogRow where
  name : String
  digest : String
  /-- The number of cells. -/
  count : Int
  /-- The image as bytes. -/
  bytes : List UInt8
  /-- When the image was saved, in seconds since the start of 1970. -/
  savedAt : Int
  deriving DecidableEq, Repr

/-- A table of rows whose key is their name. -/
class ImageTable where
  /-- What the table holds. -/
  Contents : Type
  empty : Contents
  /-- All rows, in some order. -/
  rows : Contents → List CatalogRow
  /-- The row of a name. -/
  row? : String → Contents → Option CatalogRow
  /-- Puts a row in. It replaces the row of its name. -/
  put : CatalogRow → Contents → Contents
  /-- Takes out the row of a name, and counts the rows that were taken out. -/
  remove : String → Contents → Contents × Nat
  distinct : ∀ t, (rows t).Pairwise fun r s => r.name ≠ s.name
  rows_empty : rows empty = []
  row?_eq_some : ∀ name t row, row? name t = some row ↔ row ∈ rows t ∧ row.name = name
  mem_put : ∀ row t r, r ∈ rows (put row t) ↔ r = row ∨ r ∈ rows t ∧ r.name ≠ row.name
  mem_remove : ∀ name t r, r ∈ rows (remove name t).1 ↔ r ∈ rows t ∧ r.name ≠ name
  removed_eq_zero : ∀ name t, (remove name t).2 = 0 ↔ ∀ r ∈ rows t, r.name ≠ name
  remove_nothing : ∀ name t, (remove name t).2 = 0 → (remove name t).1 = t

/-- Rows that are told apart by their names. -/
abbrev KeyedRows := { rows : List CatalogRow // rows.Pairwise fun r s => r.name ≠ s.name }

namespace KeyedRows

/-- The row of a name. -/
def row? (name : String) (t : KeyedRows) : Option CatalogRow :=
  t.1.find? fun r => r.name == name

/-- All rows but that of a name. -/
def without (name : String) (t : KeyedRows) : KeyedRows :=
  ⟨t.1.filter fun r => r.name != name, t.2.filter _⟩

theorem mem_without (name : String) (t : KeyedRows) (r : CatalogRow) :
    r ∈ (t.without name).1 ↔ r ∈ t.1 ∧ r.name ≠ name := by
  simp [without]

/-- Puts a row in front of the others. -/
def put (row : CatalogRow) (t : KeyedRows) : KeyedRows :=
  ⟨row :: (t.without row.name).1, List.pairwise_cons.mpr
    ⟨fun r hr => Ne.symm ((mem_without row.name t r).mp hr).2, (t.without row.name).2⟩⟩

/-- The row that is found is the only one of its name. -/
theorem row?_eq_some (name : String) (t : KeyedRows) (row : CatalogRow) :
    t.row? name = some row ↔ row ∈ t.1 ∧ row.name = name := by
  obtain ⟨rows, hrows⟩ := t
  unfold row?
  constructor
  · intro h
    exact ⟨List.mem_of_find?_eq_some h, by simpa using List.find?_some h⟩
  · rintro ⟨hmem, rfl⟩
    induction rows with
    | nil => cases hmem
    | cons first rest ih =>
      obtain ⟨hfirst, hrest⟩ := List.pairwise_cons.mp hrows
      rcases List.mem_cons.mp hmem with rfl | hmem
      · exact List.find?_cons_of_pos (by simp)
      · rw [List.find?_cons_of_neg (by simpa using hfirst row hmem)]
        exact ih hrest hmem

end KeyedRows

/-- The table that is a list of its rows. -/
instance (priority := low) ImageTable.listed : ImageTable where
  Contents := KeyedRows
  empty := ⟨[], .nil⟩
  rows := Subtype.val
  row? := KeyedRows.row?
  put := KeyedRows.put
  remove name t := (t.without name, t.1.countP fun r => r.name == name)
  distinct := Subtype.property
  rows_empty := rfl
  row?_eq_some := KeyedRows.row?_eq_some
  mem_put row t r := by
    show r ∈ row :: (t.without row.name).1 ↔ _
    rw [List.mem_cons, KeyedRows.mem_without]
  mem_remove := KeyedRows.mem_without
  removed_eq_zero name t := by
    rw [List.countP_eq_zero]
    simp
  remove_nothing name t h := by
    rw [List.countP_eq_zero] at h
    exact Subtype.ext (List.filter_eq_self.mpr fun r hr => by simpa using h r hr)

end CellMachine
