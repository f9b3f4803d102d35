import CellMachine.Failure
import CellMachine.Text.Raw

/-!
# Addresses of catalogs

The address of a catalog is the path of its file. Options may follow after a question mark: pairs of
a name and a value between `&`, in which `+` stands for a blank and `%` with two hexadecimal digits
for a byte. Two options have to be known if they are stated; the others are not looked at.
-/

namespace CellMachine

/-- The path of a catalog's file and the options that are stated with it. -/
structure CatalogAddress where
  path : String
  options : List (RawText × RawText)
  deriving DecidableEq, Repr

namespace CatalogAddress

/-- The value of a hexadecimal digit. -/
def hexByte? (b : UInt8) : Option UInt8 :=
  (Text.hexValue? (Char.ofNat b.toNat)).map UInt8.ofNat

/-- The bytes that a text with escapes stands for. A faulty escape is reported with the two bytes
after its sign. -/
def unescape : List UInt8 → Except AddressFault (List UInt8)
  | [] => .ok []
  | b :: rest =>
    if b = 37 then
      match rest with
      | high :: low :: after =>
        match hexByte? high, hexByte? low with
        | some h, some l => (unescape after).map ((16 * h + l) :: ·)
        | _, _ => .error (.escape (.ofBytes [b, high, low]))
      | _ => .error (.escape (.ofBytes (b :: rest)))
    else (unescape rest).map ((if b = 43 then 32 else b) :: ·)

/-- The text that a text with escapes stands for. -/
def unescapedText (cs : List Char) : Except AddressFault RawText :=
  (unescape (Text.toUtf8 (String.ofList cs))).map RawText.ofBytes

/-- The option of a text between two `&`. -/
def option (text : String) : Except AddressFault (RawText × RawText) := do
  let name := text.toList.takeWhile (· != '=')
  return (← unescapedText name, ← unescapedText (text.toList.drop (name.length + 1)))

/-- The options of the text after a question mark. -/
def optionsOf (text : String) : Except AddressFault (List (RawText × RawText)) :=
  let pieces := (text.splitOn "&").filter (· != "")
  if pieces.any fun piece => ';' ∈ piece.toList then .error .semicolon else pieces.mapM option

/-- The address that a text states. The path ends before the character U+0000. -/
def ofText (text : String) : Except AddressFault CatalogAddress := do
  let path := text.toList.takeWhile (· != '?')
  let options ← optionsOf (String.ofList (text.toList.drop (path.length + 1)))
  return { path := String.ofList (path.takeWhile (· != '\x00')), options }

/-- The value of an option, if it is stated and not empty. The first statement counts. -/
def value? (a : CatalogAddress) (name : String) : Option RawText :=
  match a.options.lookup (RawText.ofString name) with
  | some [] => none
  | value? => value?

/-- Fails if a stated option has none of the values that there are. A format for times is the last
option that is looked at. -/
def checkOptions (a : CatalogAddress) : Except AddressFault Unit :=
  match a.value? "_time_format", a.value? "_txlock" with
  | some format, _ =>
    if format.read ∈ ["sqlite", "datetime"] then .ok ()
    else .error (.option "_time_format" format)
  | none, some lock =>
    if lock.read.toLower ∈ ["deferred", "immediate", "exclusive"] then .ok ()
    else .error (.option "_txlock" lock)
  | none, none => .ok ()

end CatalogAddress

end CellMachine
