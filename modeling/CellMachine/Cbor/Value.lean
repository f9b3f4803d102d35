import CellMachine.Cbor.Read

/-!
# What items mean

The meaning of an item to a reader of records. Tags 2 and 3 make a number of a string of bytes; the
tags 0 to 3 must hold what they are for, and all other tags are of no account. A simple value that
is no truth value and not null counts as a number.
-/

namespace CellMachine.Cbor

/-- What an item means. -/
inductive Value
  | null
  | integer (n : Int)
  | text (s : String)
  | list (items : List Item)
  | map (entries : List (Item × Item))
  deriving Repr, Inhabited

namespace Item

/-- The text of pieces that are each valid by themselves. -/
def textOf? (pieces : List (List UInt8)) : Option String :=
  (pieces.mapM fun piece => String.fromUTF8? ⟨piece.toArray⟩).map String.join

/-- What a tag makes of the string of bytes that it must hold. -/
def bigNumber? (sign : Nat → Int) : Item → Option Value
  | .bytes pieces => some (.integer (sign (ofBigEndian pieces.flatten)))
  | _ => none

/-- Whether an item may stand under a tag for a text. -/
def isText : Item → Bool
  | .text _ => true
  | _ => false

/-- Whether an item may stand under a tag for a moment in time. -/
def isNumber : Item → Bool
  | .unsigned _ | .negative _ | .float => true
  | _ => false

/-- What an item means, if it is anything that a record can hold. -/
def value? : Item → Option Value
  | .unsigned n => some (.integer n)
  | .negative n => some (.integer (-1 - n))
  | .bytes _ => none
  | .text pieces => (textOf? pieces).map .text
  | .list items => some (.list items)
  | .map entries => some (.map entries)
  | .tag 0 content => if content.isText then content.value? else none
  | .tag 1 content => if content.isNumber then content.value? else none
  | .tag 2 content => content.bigNumber? fun n => n
  | .tag 3 content => content.bigNumber? fun n => -1 - n
  | .tag _ content => content.value?
  | .simple code =>
    if code = 20 ∨ code = 21 then none
    else if code = 22 ∨ code = 23 then some .null
    else some (.integer code)
  | .float => none

end Item

/-! ### Fields of records -/

/-- The number that names a field, as a number or in decimal digits. A key that is another number or
text names no field; any other key is refused. -/
def fieldName? : Item → Option (Option Nat)
  | .unsigned n => some (some n)
  | .negative n => if n < UInt64.size / 2 then some none else none
  | .text pieces =>
    (Item.textOf? pieces).map fun s => (List.range 10).find? fun n => toString n == s
  | _ => none

/-- The entries of a map by the numbers of their fields. -/
def fields? (entries : List (Item × Item)) : Option (List (Nat × Item)) :=
  (entries.mapM fun e => (fieldName? e.1).map fun name? => name?.map fun name => (name, e.2)).map
    fun fields => fields.filterMap id

/-- The fields of a record. Nothing is a record without fields. -/
def record? (i : Item) : Option (List (Nat × Item)) :=
  match i.value? with
  | some (.map entries) => fields? entries
  | some .null => some []
  | _ => none

/-- The first entry of a field, read by `read?`; a field that is missing or holds nothing has its
default. -/
def field? {α : Type} (fields : List (Nat × Item)) (name : Nat) (default : α)
    (read? : Value → Option α) : Option α :=
  match fields.lookup name with
  | none => some default
  | some i =>
    match i.value? with
    | none => none
    | some .null => some default
    | some v => read? v

/-- A number in a range. -/
def integer? (least most : Int) : Value → Option Int
  | .integer n => if least ≤ n ∧ n ≤ most then some n else none
  | _ => none

/-- A text. -/
def text? : Value → Option String
  | .text s => some s
  | _ => none

/-- A list with a reading of its members. -/
def list? {α : Type} (read? : Item → Option α) : Value → Option (List α)
  | .list items => items.mapM read?
  | _ => none

end CellMachine.Cbor
