/-!
# Texts as bytes

Files hold bytes, and the bytes of a text are its characters in UTF-8.
-/

namespace CellMachine.Text

/-- The text that bytes encode, if they encode one. -/
def ofUtf8? (bytes : List UInt8) : Option String := String.fromUTF8? ⟨bytes.toArray⟩

/-- The bytes of a text. -/
def toUtf8 (s : String) : List UInt8 := s.toUTF8.toList

/-- The first character of bytes and the number of its bytes, of which there are at most four. -/
def firstChar? (bytes : List UInt8) : Option (Char × Nat) :=
  [1, 2, 3, 4].findSome? fun n =>
    match (ofUtf8? (bytes.take n)).map String.toList with
    | some [c] => some (c, n)
    | _ => none

end CellMachine.Text
