import CellMachine.Proofs.Catalog.History

/-!
# A catalog is read back from its file

A catalog that is closed and opened again holds what it held. What it is opened from are bytes: the
rows, written one after the other, from which a new table is filled. The table need not keep its
rows as the old one did, but it has the same ones.

* `CatalogRow.Measured` — a row whose lengths and numbers have 64 bits.
* `Catalog.rowOf?_rowItem`, `Catalog.item?_rows` — such rows are read back from their bytes.
* `Catalog.rows_ofRows` — rows that are put into a new catalog are listed again.
* `Catalog.exists_reread` — **the file of a catalog gives what opening it again gives.**
* `CatalogCall.faithful_reread` — so a catalog that is read from its file is faithful to what was
  saved in it before.
-/

namespace CellMachine

/-- A row whose lengths and numbers have 64 bits, as they have in every file. -/
structure CatalogRow.Measured (r : CatalogRow) : Prop where
  name : r.name.utf8ByteSize < UInt64.size
  digest : r.digest.utf8ByteSize < UInt64.size
  bytes : r.bytes.length < UInt64.size
  count : (Int64.ofInt r.count).toInt = r.count
  savedAt : (Int64.ofInt r.savedAt).toInt = r.savedAt

namespace Catalog

open CellMachine.Cbor

/-! ### Rows as items -/

/-- The item that a row is written as. -/
def rowItem (r : CatalogRow) : Cbor.Item :=
  .ofFields [(1, .ofText r.name), (2, .ofText r.digest), (3, .ofInt r.count), (4, .bytes [r.bytes]),
    (5, .ofInt r.savedAt)]

/-- A row is read back. -/
theorem row_yields (levels : Nat) {r : CatalogRow} (h : r.Measured) :
    Reader.Yields (Reader.item (levels + 2)) (rowBytes r) (rowItem r) := by
  refine Reader.record_yields (by simp [maxEntries])
    (.cons ?_ (.cons ?_ (.cons ?_ (.cons ?_ (.cons ?_ .nil)))))
  · exact ⟨by decide, Reader.text_yields _ h.name⟩
  · exact ⟨by decide, Reader.text_yields _ h.digest⟩
  · exact ⟨by decide, h.count ▸ Image.word_yields _ (Int64.ofInt r.count)⟩
  · exact ⟨by decide, Reader.bytes_yields _ h.bytes⟩
  · exact ⟨by decide, h.savedAt ▸ Image.word_yields _ (Int64.ofInt r.savedAt)⟩

/-- The item of a row describes it. -/
theorem rowOf?_rowItem {r : CatalogRow} (h : r.Measured) : rowOf? (rowItem r) = some r := by
  have hcount : Image.word? (.integer r.count) = some (Int64.ofInt r.count) := by
    rw [← h.count, Image.word?_toInt, h.count]
  have hsavedAt : Image.word? (.integer r.savedAt) = some (Int64.ofInt r.savedAt) := by
    rw [← h.savedAt, Image.word?_toInt, h.savedAt]
  have hbytes : bytesField? [(1, .ofText r.name), (2, .ofText r.digest), (3, .ofInt r.count),
      (4, .bytes [r.bytes]), (5, .ofInt r.savedAt)] 4 = some r.bytes :=
    congrArg some (List.append_nil r.bytes)
  unfold rowOf? rowItem
  rw [record?_ofFields]
  simp only [Option.bind_eq_bind, Option.bind_some]
  rw [Image.field?_ofText rfl, Image.field?_ofText rfl, Image.field?_ofInt rfl, hcount,
    Image.field?_ofInt rfl, hsavedAt, hbytes]
  simp only [text?, Option.map_some, Option.bind_some, h.count, h.savedAt]
  rfl

/-- The bytes of rows consist of their items. -/
theorem item?_rows {rows : List CatalogRow} (hfew : rows.length ≤ maxEntries)
    (h : ∀ r ∈ rows, r.Measured) :
    item? (Cbor.list (rows.map rowBytes)) = some (.list (rows.map rowItem)) := by
  refine item?_of_yields (Reader.list_yields ?_ (Image.forall₂_yields fun r hr => ?_))
  · rwa [List.length_map]
  · exact row_yields 29 (h r hr)

variable [ImageTable]

/-! ### Rows in a new catalog -/

/-- Rows of different names that are put in are all there, beside those that were there before. -/
theorem mem_rows_foldl_put {rows : List CatalogRow}
    (hdistinct : rows.Pairwise fun r s => r.name < s.name) {c : Catalog}
    (hnew : ∀ r ∈ rows, ∀ s ∈ c.rows, s.name ≠ r.name) {r : CatalogRow} :
    r ∈ (rows.foldl put c).rows ↔ r ∈ rows ∨ r ∈ c.rows := by
  induction rows generalizing c with
  | nil => simp
  | cons first rest ih =>
    obtain ⟨hfirst, hrest⟩ := List.pairwise_cons.mp hdistinct
    have hnewRest : ∀ r ∈ rest, ∀ s ∈ (c.put first).rows, s.name ≠ r.name := by
      intro r hr s hs
      rcases mem_rows_put.mp hs with rfl | ⟨hs, -⟩
      · exact (hfirst r hr).ne
      · exact hnew r (List.mem_cons_of_mem _ hr) s hs
    have hkept : ∀ s ∈ c.rows, s.name ≠ first.name := hnew first List.mem_cons_self
    rw [List.foldl_cons, ih hrest hnewRest, mem_rows_put, List.mem_cons]
    constructor
    · rintro (hr | rfl | ⟨hr, -⟩)
      · exact .inl (.inr hr)
      · exact .inl (.inl rfl)
      · exact .inr hr
    · rintro ((rfl | hr) | hr)
      · exact .inr (.inl rfl)
      · exact .inl hr
      · exact .inr (.inr ⟨hr, hkept r hr⟩)

/-- **Rows that are put into a new catalog are listed again**, if they were in their order. -/
theorem rows_ofRows {rows : List CatalogRow}
    (h : rows.Pairwise fun r s => r.name < s.name) : (ofRows rows).rows = rows := by
  refine (eq_rows h fun r => ?_).symm
  unfold ofRows
  rw [mem_rows_foldl_put h (by simp [rows_new]), rows_new]
  simp

/-- A catalog into which rows are put stays open. -/
theorem isOpen_foldl_put (rows : List CatalogRow) (c : Catalog) :
    (rows.foldl put c).isOpen = c.isOpen := by
  induction rows generalizing c with
  | nil => rfl
  | cons first rest ih => exact ih (c.put first)

/-! ### Files -/

/-- The file of a catalog is read as its rows. -/
theorem ofBytes?_toBytes {c : Catalog} (hfew : c.rows.length ≤ maxEntries)
    (h : ∀ r ∈ c.rows, r.Measured) : ofBytes? c.toBytes = some (ofRows c.rows) := by
  have hheader : ∀ body : List UInt8, ¬(header ++ body).length ≤ 1 := by
    intro body
    simp only [header, List.length_append, List.length_cons]
    omega
  unfold ofBytes? toBytes
  rw [if_neg (hheader _), List.take_left, if_pos (beq_self_eq_true header), List.drop_left,
    item?_rows hfew h]
  simp only [Image.mapM_map_of_describes fun r hr => rowOf?_rowItem (h r hr), Option.map_some]

/-- **The file of a catalog gives what opening it again gives**: a catalog that is open and has the
same rows. -/
theorem exists_reread {c : Catalog} (hfew : c.rows.length ≤ maxEntries)
    (h : ∀ r ∈ c.rows, r.Measured) :
    ∃ c', ofBytes? c.close.toBytes = some c' ∧ c'.isOpen = c.close.reopen.isOpen ∧
      c'.rows = c.close.reopen.rows ∧ ∀ name, c'.row? name = c.close.reopen.row? name := by
  have hrows : (ofRows c.rows).rows = c.rows := rows_ofRows c.rows_ordered
  refine ⟨ofRows c.rows, ofBytes?_toBytes hfew h, isOpen_foldl_put c.rows {}, hrows, ?_⟩
  intro name
  ext row
  rw [row?_eq_some, row?_eq_some, hrows]
  rfl

end Catalog

namespace CatalogCall

/-- **A catalog that is read from its file is faithful to what was saved in it**, as it is without
the detour. -/
theorem faithful_reread [ImageTable] [BaseOrder] (calls : List CatalogCall)
    (h : ∀ call ∈ calls, call.Measured) (hfew : (afterAll calls {}).rows.length ≤ Cbor.maxEntries)
    (hrows : ∀ r ∈ (afterAll calls {}).rows, r.Measured) :
    ∃ c, Catalog.ofBytes? (afterAll calls {}).close.toBytes = some c ∧ c.Faithful (held calls) := by
  obtain ⟨c, hread, hopen, -, hfound⟩ := Catalog.exists_reread hfew hrows
  have hholds := holds_afterAll calls
  refine ⟨c, hread, Catalog.Holds.faithful ⟨hopen, fun name => ?_⟩ fun _ _ => measured_of_held h⟩
  rw [hfound]
  exact hholds.found name

end CatalogCall

end CellMachine
