import CellMachine.Catalog.Table
import CellMachine.Wire.Digest

/-!
# Image catalogs

A catalog keeps images under names, each in its written form together with its digest. An image that
is loaded must be sound and must have the digest that was recorded. A closed catalog does nothing
until it is opened again; what it holds stays. How the rows are kept is left to a table of rows by
name (`ImageTable`). They are listed in the order of their names.
-/

namespace CellMachine

/-- Images by name. -/
structure Catalog [ImageTable] where
  table : ImageTable.Contents := ImageTable.empty
  isOpen : Bool := true

namespace Catalog

variable [ImageTable]

/-- The rows in the order of their names. -/
def rows (c : Catalog) : List CatalogRow :=
  (ImageTable.rows c.table).mergeSort fun r s => r.name ≤ s.name

/-- The row of a name. -/
def row? (c : Catalog) (name : String) : Option CatalogRow := ImageTable.row? name c.table

/-- Fails if the catalog is closed. -/
def needOpen (activity : String) : Action Catalog Unit := fun c =>
  if c.isOpen then .ok () c else .error (.catalogClosed activity) c

/-- Puts a row into the catalog as it stands. -/
def put (c : Catalog) (row : CatalogRow) : Catalog :=
  { c with table := ImageTable.put row c.table }

/-- A new catalog into which rows were put. -/
def ofRows (rows : List CatalogRow) : Catalog := rows.foldl put {}

/-- Saves an image under a name. -/
def save (name : String) (img : Image) (now : Int) : Action Catalog CatalogRow := do
  needOpen s!"saving image {name}"
  let row : CatalogRow :=
    { name, digest := img.digest, count := img.cells.size, bytes := img.toBytes, savedAt := now }
  modify fun c => c.put row
  return row

/-- The image of a row, if it is sound and has the digest recorded. -/
def checkRow [BaseOrder] (row : CatalogRow) : Except Failure Image :=
  match Image.ofBytes row.bytes with
  | .error cause => .error (.inImage row.name cause)
  | .ok img =>
    if img.digest = row.digest then .ok img
    else .error (.inImage row.name (.wrongDigest img.digest row.digest))

/-- Loads the image of a name. -/
def load [BaseOrder] (name : String) : Action Catalog Image := do
  needOpen s!"querying image {name}"
  let c ← get
  match c.row? name with
  | none => throw (.imageNotFound name)
  | some row => Action.ofExcept (checkRow row)

/-- Lists the rows in the order of their names. -/
def list : Action Catalog (List CatalogRow) := do
  needOpen "listing images"
  return (← get).rows

/-- Removes the image of a name. -/
def delete (name : String) : Action Catalog Unit := do
  needOpen s!"deleting image {name}"
  let c ← get
  let (table, removed) := ImageTable.remove name c.table
  set { c with table }
  if removed = 0 then throw (.imageNotFound name)

/-- Closes the catalog. -/
def close (c : Catalog) : Catalog := { c with isOpen := false }

/-- Opens the catalog again. -/
def reopen (c : Catalog) : Catalog := { c with isOpen := true }

/-! ### Catalogs as bytes -/

/-- A row as bytes. -/
def rowBytes (r : CatalogRow) : List UInt8 :=
  Cbor.record
    [(1, Cbor.text r.name), (2, Cbor.text r.digest), (3, Cbor.integer r.count),
     (4, Cbor.bytes r.bytes), (5, Cbor.integer r.savedAt)]

/-- The bytes that the file of a catalog starts with: the name of the format, then the size of its
pages, its version and its shares of a page. -/
def header : List UInt8 :=
  Text.toUtf8 "SQLite format 3" ++ [0, 16, 0, 1, 1, 0, 64, 32, 32]

/-- The catalog as bytes. -/
def toBytes (c : Catalog) : List UInt8 := header ++ Cbor.list (c.rows.map rowBytes)

/-- The string of bytes in a field. -/
def bytesField? (fields : List (Nat × Cbor.Item)) (name : Nat) : Option (List UInt8) :=
  match fields.lookup name with
  | some (.bytes pieces) => some pieces.flatten
  | _ => none

/-- The row that an item describes. -/
def rowOf? (i : Cbor.Item) : Option CatalogRow := do
  let fields ← Cbor.record? i
  let name ← Cbor.field? fields 1 "" Cbor.text?
  let digest ← Cbor.field? fields 2 "" Cbor.text?
  let count ← (Cbor.field? fields 3 0 Image.word?).map Int64.toInt
  let bytes ← bytesField? fields 4
  let savedAt ← (Cbor.field? fields 5 0 Image.word?).map Int64.toInt
  return { name, digest, count, bytes, savedAt }

/-- The catalog that bytes describe. A file of at most one byte counts as an empty catalog. -/
def ofBytes? (bytes : List UInt8) : Option Catalog :=
  if bytes.length ≤ 1 then some {}
  else if bytes.take header.length == header then
    match Cbor.item? (bytes.drop header.length) with
    | some (.list items) => (items.mapM rowOf?).map ofRows
    | _ => none
  else none

end Catalog

end CellMachine
