import CellMachine.Failure
import CellMachine.Text.Blank
import CellMachine.Text.CharLiteral
import CellMachine.Text.Name

/-!
# Reading operands

The first character of an operand decides how it is read: `:` starts a label, `&` a location, a
quote a character, a digit (perhaps after a sign) an integer, and everything else is the name of a
variable whose contents are meant. Blanks around the text are ignored.
-/

namespace CellMachine

/-- Whether an integer starts here: a digit, perhaps after one sign. -/
def startsInteger : List Char → Bool
  | c :: d :: _ => c.isDigit || ((c == '-' || c == '+') && d.isDigit)
  | [c] => c.isDigit
  | [] => false

/-- The cell of an integer literal: an optional sign and an unsigned literal. Values from `2 ^ 63`
up to `2 ^ 64 - 1` wrap around, and a negative literal goes down to `-2 ^ 63`. -/
def parseCell (text : String) : Except Failure Cell :=
  let (negative, body) := match text.toList with
    | '-' :: rest => (true, rest)
    | '+' :: rest => (false, rest)
    | cs => (false, cs)
  match Text.readNumeral body with
  | .error fault => .error (.operandText (.integer text (String.ofList body) fault))
  | .ok n =>
    if negative then
      if UInt64.size / 2 < n then .error (.operandText (.negativeRange text))
      else .ok (Int64.ofInt (-(n : Int)))
    else .ok (Int64.ofInt n)

/-- The cell of a character literal, quotes included. -/
def parseCharacter (text : List Char) : Except Failure Cell :=
  let fail := Except.error (Failure.operandText (.character (String.ofList text)))
  match text with
  | '\'' :: rest =>
    match rest.getLast?, Text.readCharBody? rest.dropLast with
    | some '\'', some n => .ok (Int64.ofInt n)
    | _, _ => fail
  | _ => fail

/-- The operand that a text without outer blanks stands for. -/
def parseTrimmed : List Char → Except Failure Operand
  | [] => .error (.operandText .empty)
  | ':' :: name =>
    if Text.isNameChars name then .ok (.label (String.ofList name))
    else .error (.operandText (.labelName (String.ofList name)))
  | '&' :: target =>
    let target := Text.trimBlanks target
    if target.isEmpty then .error (.operandText .noTarget)
    else if startsInteger target then
      (parseCell (String.ofList target)).map fun v => .location (.raw v)
    else if Text.isNameChars target then .ok (.location (.named (String.ofList target)))
    else .error (.operandText (.symbolName (String.ofList target)))
  | '\'' :: rest => (parseCharacter ('\'' :: rest)).map .immediate
  | text =>
    if startsInteger text then (parseCell (String.ofList text)).map .immediate
    else if Text.isNameChars text then .ok (.contents (.named (String.ofList text)))
    else .error (.operandText (.unreadable (String.ofList text)))

/-- The operand that a text stands for. -/
def parseOperand (text : String) : Except Failure Operand :=
  parseTrimmed (Text.trimBlanks text.toList)

/-- The operands of a list of texts; the first text that is none is reported. -/
def parseOperands (texts : List String) : Except Failure (List Operand) :=
  texts.mapM parseOperand

end CellMachine
