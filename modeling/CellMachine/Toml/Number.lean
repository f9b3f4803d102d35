import CellMachine.Text.Numeral
import CellMachine.Toml.Scan

/-!
# Numbers in configuration files

Whole numbers are decimal, or have a mark for another base; numbers with a fraction or an exponent
are only checked, since nothing here asks for their value. Underscores stand between digits, and a
number other than zero does not start with the digit zero.
-/

namespace CellMachine.Toml

/-- Whether a character is a hexadecimal digit. -/
def isHex (c : Char) : Bool := (Text.hexValue? c).isSome

/-- Whether each underscore comes after a digit and the text ends in one. -/
def underscoresFit : (afterDigit : Bool) → List Char → Bool
  | afterDigit, [] => afterDigit
  | afterDigit, c :: rest => (c != '_' || afterDigit) && underscoresFit (isHex c) rest

/-- Whether a number starts with a digit zero that it should not have. -/
def leadingZero : List Char → Bool
  | '0' :: c :: _ => !(c == 'b' || c == 'o' || c == 'x')
  | '-' :: '0' :: _ :: _ => true
  | '+' :: '0' :: _ :: _ => true
  | _ => false

/-- The whole number of a text. -/
def wholeNumber? (cs : List Char) : Option Int :=
  if underscoresFit false cs && !leadingZero cs then (Text.readSignedNumeral cs).toOption else none

/-! ### Fractions and exponents -/

/-- The pieces of a text between points and exponent marks; pieces without characters are left out.
`current` is the piece under way, last character first. -/
def numberPieces : (current : List Char) → List Char → List (List Char)
  | current, [] => if current.isEmpty then [] else [current.reverse]
  | current, c :: rest =>
    if c == '.' || c == 'e' || c == 'E' then
      if current.isEmpty then numberPieces [] rest
      else current.reverse :: numberPieces [] rest
    else numberPieces (c :: current) rest

/-- Whether every point comes before a digit. -/
def pointsFit : List Char → Bool
  | [] => true
  | '.' :: c :: rest => c.isDigit && pointsFit (c :: rest)
  | ['.'] => false
  | _ :: rest => pointsFit rest

/-- The text without a sign at its start. -/
def dropSign : List Char → List Char
  | '-' :: rest => rest
  | '+' :: rest => rest
  | cs => cs

/-- The value of decimal digits. -/
def decimalValue (digits : List Char) : Nat :=
  digits.foldl (fun n c => 10 * n + (c.toNat - '0'.toNat)) 0

/-- The exponent that a text states after its mark. -/
def exponent? (cs : List Char) : Option Int :=
  let digits := dropSign cs
  if digits.isEmpty || !digits.all Char.isDigit then none
  else some (if cs.head? == some '-' then -(decimalValue digits : Int) else decimalValue digits)

/-- The digits and the power of ten of a number without underscores. -/
def scientific? (cs : List Char) : Option (Nat × Int) :=
  let cs := dropSign cs
  let whole := cs.takeWhile Char.isDigit
  let rest := cs.drop whole.length
  let (fraction, rest) := match rest with
    | '.' :: rest => (rest.takeWhile Char.isDigit, rest.dropWhile Char.isDigit)
    | _ => ([], rest)
  if whole.isEmpty && fraction.isEmpty then none
  else do
    let exponent ← match rest with
      | [] => some 0
      | c :: rest => if c == 'e' || c == 'E' then exponent? rest else none
    return (decimalValue (whole ++ fraction), exponent - fraction.length)

/-- The least number that is too large for 64 bits of floating point: from it on numbers round to
the power of two after the last finite one. -/
def floatLimit : Nat := (1 <<< 1024) - (1 <<< 970)

/-- Whether `m * 10 ^ e` is too large for 64 bits of floating point. -/
def floatOverflows (m : Nat) (e : Int) : Bool :=
  let digits := (toString m).length
  if m = 0 || e + digits < 300 then false
  else if 320 < e + digits then true
  else floatLimit * Nat.pow 10 (-e).toNat ≤ m * Nat.pow 10 e.toNat

/-- Whether a text is a number with a fraction or an exponent. -/
def isFloat (cs : List Char) : Bool :=
  let pieces := numberPieces [] cs
  pieces.all (underscoresFit false) && !((pieces.head?.map leadingZero).getD false) &&
    pointsFit cs &&
    match scientific? (cs.filter (· != '_')) with
    | some (m, e) => !floatOverflows m e
    | none => false

end CellMachine.Toml
