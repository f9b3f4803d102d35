import CellMachine.Text.Digits
import CellMachine.Text.Printable

/-!
# Quoted text

Messages show names and source text between double quotes. A quote and a backslash are written
after a backslash, the seven common control characters by their letters, other characters that are
not printable by their code: two digits below 128, then four, then eight.
-/

namespace CellMachine.Text

/-- The letter that stands for a control character after a backslash. -/
def controlLetter? (c : Char) : Option Char :=
  match c.toNat with
  | 7 => some 'a'
  | 8 => some 'b'
  | 9 => some 't'
  | 10 => some 'n'
  | 11 => some 'v'
  | 12 => some 'f'
  | 13 => some 'r'
  | _ => none

/-- One character as it stands in a quoted text. -/
def quotedChar (c : Char) : String :=
  if c = '"' ∨ c = '\\' then String.ofList ['\\', c]
  else if isPrintable c then String.ofList [c]
  else match controlLetter? c with
    | some l => String.ofList ['\\', l]
    | none =>
      if c.toNat < 32 ∨ c.toNat = 127 then "\\x" ++ padLeft '0' 2 (hexLower c.toNat)
      else if c.toNat < 65536 then "\\u" ++ padLeft '0' 4 (hexLower c.toNat)
      else "\\U" ++ padLeft '0' 8 (hexLower c.toNat)

/-- The text between double quotes, on one line and free of unprintable characters. -/
def quoted (s : String) : String :=
  "\"" ++ String.join (s.toList.map quotedChar) ++ "\""

end CellMachine.Text
