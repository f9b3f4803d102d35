import CellMachine.Cbor.Value
import CellMachine.Program.Image

/-!
# Images as bytes

An image is written as a record: its version is field 1, its base 2, its cells 3, its globals 4 and
its routines 5; the last two are left out when there are none. Equal images give equal bytes. An
image that is read must have the version of this library and a sound layout.
-/

namespace CellMachine

namespace Image

/-- The written form of a global. -/
def globalBytes (g : GlobalEntry) : List UInt8 :=
  Cbor.record [(1, Cbor.text g.name), (2, Cbor.integer g.addr.toInt)]

/-- The written form of a routine. -/
def routineBytes (r : RoutineEntry) : List UInt8 :=
  Cbor.record
    [(1, Cbor.text r.name), (2, Cbor.integer r.base.toInt), (3, Cbor.integer r.capacity.toInt)]

/-- The written form of the cells. -/
def cellBytes : Option (Array Cell) → List UInt8
  | none => Cbor.null
  | some cells => Cbor.list (cells.toList.map fun v => Cbor.integer v.toInt)

/-- A field for a list, which is left out when the list is empty. -/
def listField (name : Nat) (items : List (List UInt8)) : List (Nat × List UInt8) :=
  if items.isEmpty then [] else [(name, Cbor.list items)]

/-- The image as bytes. -/
def toBytes (img : Image) : List UInt8 :=
  Cbor.record <|
    [(1, Cbor.integer img.version.toNat), (2, Cbor.integer img.base.toInt),
     (3, cellBytes img.cells?)] ++
    listField 4 (img.globals.map globalBytes) ++
    listField 5 (img.routines.map routineBytes)

/-- A cell, an address or a size. -/
def word? (v : Cbor.Value) : Option Int64 :=
  (Cbor.integer? Int64.minValue.toInt Int64.maxValue.toInt v).map Int64.ofInt

/-- A cell in a list of cells. -/
def cell? (i : Cbor.Item) : Option Cell :=
  match i.value? with
  | none => none
  | some .null => some 0
  | some v => word? v

/-- The global that an item describes. -/
def globalOf? (i : Cbor.Item) : Option GlobalEntry := do
  let fields ← Cbor.record? i
  let name ← Cbor.field? fields 1 "" Cbor.text?
  let addr ← Cbor.field? fields 2 0 word?
  return { name, addr }

/-- The routine that an item describes. -/
def routineOf? (i : Cbor.Item) : Option RoutineEntry := do
  let fields ← Cbor.record? i
  let name ← Cbor.field? fields 1 "" Cbor.text?
  let base ← Cbor.field? fields 2 0 word?
  let capacity ← Cbor.field? fields 3 0 word?
  return { name, base, capacity }

/-- The image that an item describes, whatever its version and layout. -/
def ofItem? (i : Cbor.Item) : Option Image := do
  let fields ← Cbor.record? i
  let version ← Cbor.field? fields 1 0 (Cbor.integer? 0 65535)
  let base ← Cbor.field? fields 2 0 word?
  let cells? ← Cbor.field? fields 3 none fun v =>
    (Cbor.list? cell? v).map fun cells => some cells.toArray
  let globals ← Cbor.field? fields 4 [] (Cbor.list? globalOf?)
  let routines ← Cbor.field? fields 5 [] (Cbor.list? routineOf?)
  return { version := UInt16.ofNat version.toNat, base, cells?, globals, routines }

/-- The image that bytes describe. -/
def ofBytes [BaseOrder] (bytes : List UInt8) : Except Failure Image :=
  match (Cbor.item? bytes).bind ofItem? with
  | none => .error .undecodable
  | some img =>
    if img.version ≠ imageVersion then .error (.wireVersion img.version)
    else match img.checkLayout with
      | .error cause => .error (.wireMalformed cause)
      | .ok () => .ok img

end Image

end CellMachine
