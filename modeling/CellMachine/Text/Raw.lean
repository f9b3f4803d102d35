import CellMachine.Text.Quoted
import CellMachine.Text.Utf8

/-!
# Raw texts

The text of a file may hold bytes that are part of no character. Such a stray byte is read as the
replacement character, so it never counts as a letter, a digit or a sign; but it is kept, and
quoted text shows it by its code. A text without stray bytes is read as it stands (`read_ofString`)
and quoted as it stands (`quoted_ofString`).
-/

namespace CellMachine

/-- One piece of a raw text: a character, or a byte that is part of none. -/
inductive Glyph
  | char (c : Char)
  | stray (byte : UInt8)
  deriving DecidableEq, Repr

namespace Glyph

/-- The character that a piece is read as. -/
def read : Glyph → Char
  | .char c => c
  | .stray _ => '\uFFFD'

/-- One piece as it stands in a quoted text. -/
def quoted : Glyph → String
  | .char c => Text.quotedChar c
  | .stray byte => "\\x" ++ Text.padLeft '0' 2 (Text.hexLower byte.toNat)

end Glyph

/-- A text in which bytes may stand that are part of no character. -/
abbrev RawText := List Glyph

namespace RawText

/-- A text without stray bytes. -/
def ofString (s : String) : RawText := s.toList.map .char

instance : Coe String RawText := ⟨ofString⟩

/-- The text as it is read. -/
def read (t : RawText) : String := String.ofList (t.map Glyph.read)

/-- The text between double quotes, on one line and free of unprintable characters. -/
def quoted (t : RawText) : String := "\"" ++ String.join (t.map Glyph.quoted) ++ "\""

/-- The pieces of bytes; at most `count` are taken. -/
def piecesOf : (count : Nat) → List UInt8 → RawText
  | 0, _ => []
  | _, [] => []
  | count + 1, b :: rest =>
    match Text.firstChar? (b :: rest) with
    | some (c, n) => .char c :: piecesOf count (rest.drop (n - 1))
    | none => .stray b :: piecesOf count rest

/-- The text of bytes. -/
def ofBytes (bytes : List UInt8) : RawText :=
  match Text.ofUtf8? bytes with
  | some s => ofString s
  | none => piecesOf bytes.length bytes

@[simp]
theorem read_ofString (s : String) : (ofString s).read = s := by
  simp [ofString, read, Function.comp_def, Glyph.read]

@[simp]
theorem quoted_ofString (s : String) : (ofString s).quoted = Text.quoted s := by
  simp [ofString, quoted, Text.quoted, Function.comp_def, Glyph.quoted]

end RawText

end CellMachine
