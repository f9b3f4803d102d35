/-!
# Data items

The Concise Binary Object Representation: a data item is a number, a string of bytes or of text, a
list, a map, a tagged item or a simple value. An item begins with a head, which holds its major type
in three bits and an argument in the rest.

Items are written in the canonical form: every head is the shortest one, and lengths stand before
contents. A string that was read in pieces keeps its pieces.
-/

namespace CellMachine.Cbor

/-- A data item. -/
inductive Item
  /-- The number `n`. -/
  | unsigned (n : Nat)
  /-- The number `-1 - n`. -/
  | negative (n : Nat)
  /-- A string of bytes, in pieces. -/
  | bytes (pieces : List (List UInt8))
  /-- A text in UTF-8, in pieces. -/
  | text (pieces : List (List UInt8))
  | list (items : List Item)
  | map (entries : List (Item × Item))
  | tag (number : Nat) (content : Item)
  /-- A simple value; `false`, `true`, null and undefined are 20 to 23. -/
  | simple (code : Nat)
  /-- A floating-point number, whose value plays no part here. -/
  | float
  deriving Repr, Inhabited

/-- The greatest nesting of lists and maps. -/
def maxLevels : Nat := 32

/-- The greatest number of entries of a list or map. -/
def maxEntries : Nat := 131072

/-- The last `width` bytes of a number, most significant first. -/
def bigEndian : (width n : Nat) → List UInt8
  | 0, _ => []
  | width + 1, n => bigEndian width (n / 256) ++ [UInt8.ofNat n]

/-- The number that bytes stand for, most significant first. -/
def ofBigEndian (bytes : List UInt8) : Nat :=
  bytes.foldl (fun n b => 256 * n + b.toNat) 0

/-- The head of a major type with an argument below `2 ^ 64`. -/
def head (major argument : Nat) : List UInt8 :=
  let first (low : Nat) := UInt8.ofNat (32 * major + low)
  if argument < 24 then [first argument]
  else if argument < UInt8.size then first 24 :: bigEndian 1 argument
  else if argument < UInt16.size then first 25 :: bigEndian 2 argument
  else if argument < UInt32.size then first 26 :: bigEndian 4 argument
  else first 27 :: bigEndian 8 argument

/-! ### Written items -/

/-- A whole number. -/
def integer (n : Int) : List UInt8 :=
  if n < 0 then head 1 (-1 - n).toNat else head 0 n.toNat

/-- A text. -/
def text (s : String) : List UInt8 :=
  head 3 s.utf8ByteSize ++ s.toUTF8.toList

/-- A string of bytes. -/
def bytes (content : List UInt8) : List UInt8 := head 2 content.length ++ content

/-- A list of items that are written already. -/
def list (items : List (List UInt8)) : List UInt8 :=
  head 4 items.length ++ items.flatten

/-- A map from small numbers to items that are written already. -/
def record (fields : List (Nat × List UInt8)) : List UInt8 :=
  head 5 fields.length ++ fields.flatMap fun f => head 0 f.1 ++ f.2

/-- The simple value that stands for nothing. -/
def null : List UInt8 := head 7 22

end CellMachine.Cbor
