import CellMachine.Text.DecimalDigit
import CellMachine.Text.Letter

/-!
# Names

A name starts with a letter, `_`, `$` or `.` and goes on with these and with decimal digits, of
any script. Mnemonics are ASCII names that a source may write in either case.
-/

namespace CellMachine.Text

/-- Whether a name may start with the character. -/
def startsName (c : Char) : Bool :=
  c == '_' || c == '$' || c == '.' || isLetter c

/-- Whether a name may go on with the character. -/
def continuesName (c : Char) : Bool :=
  startsName c || isDecimalDigit c

/-- Whether the characters form a name. -/
def isNameChars : List Char → Bool
  | [] => false
  | c :: rest => startsName c && rest.all continuesName

/-- Whether the text is a name, fit for a symbol, a label or a region. -/
def isName (s : String) : Bool :=
  isNameChars s.toList

/-- The capital of a character, as far as it is an ASCII letter: the small letters, the long s and
the dotless i have one. Every other character stands for itself. -/
def capital (c : Char) : Char :=
  if c = 'ſ' then 'S'
  else if c = 'ı' then 'I'
  else c.toUpper

/-- The text in capitals, for comparison with names that are ASCII capitals. -/
def capitals (s : String) : String :=
  String.ofList (s.toList.map capital)

end CellMachine.Text
