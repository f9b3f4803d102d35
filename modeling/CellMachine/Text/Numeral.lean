/-!
# Integer literals

An unsigned literal is a run of digits in base ten, or in base sixteen, eight or two after `0x`,
`0o` or `0b`; a leading `0` alone means base eight. Letters count in either case. Single
underscores may stand between digits and after the base mark. The value must fit 64 bits.

A literal is read from the left, and the first thing wrong with it is what is reported: a literal
that grows past 64 bits is out of range even if a foreign character follows.
-/

namespace CellMachine.Text

/-- What is wrong with an integer literal. -/
inductive NumeralFault
  /-- The characters do not form a literal. -/
  | malformed
  /-- The value does not fit. -/
  | outOfRange
  deriving DecidableEq, Repr

/-- The text of a fault. -/
def NumeralFault.message : NumeralFault → String
  | .malformed => "invalid syntax"
  | .outOfRange => "value out of range"

/-- The value of a character as a digit: the ASCII digits, then the letters of either case from
ten on. -/
def digitValue? (c : Char) : Option Nat :=
  if '0' ≤ c ∧ c ≤ '9' then some (c.toNat - '0'.toNat)
  else if 'a' ≤ c ∧ c ≤ 'z' then some (c.toNat - 'a'.toNat + 10)
  else if 'A' ≤ c ∧ c ≤ 'Z' then some (c.toNat - 'A'.toNat + 10)
  else none

/-- The base of a literal, whether it has a base mark, and the characters after the mark. A mark
needs a character after it. -/
def splitBase : List Char → Nat × Bool × List Char
  | '0' :: c :: d :: rest =>
    if c = 'b' ∨ c = 'B' then (2, true, d :: rest)
    else if c = 'o' ∨ c = 'O' then (8, true, d :: rest)
    else if c = 'x' ∨ c = 'X' then (16, true, d :: rest)
    else (8, false, c :: d :: rest)
  | '0' :: rest => (8, false, rest)
  | cs => (10, false, cs)

/-- Reads digits of `base` onto `acc`, skipping underscores, as long as the value stays below
`2 ^ 64`. -/
def readDigits (base : Nat) : Nat → List Char → Except NumeralFault Nat
  | acc, [] => .ok acc
  | acc, '_' :: rest => readDigits base acc rest
  | acc, c :: rest =>
    match digitValue? c with
    | none => .error .malformed
    | some d =>
      if base ≤ d then .error .malformed
      else if UInt64.size ≤ base * acc + d then .error .outOfRange
      else readDigits base (base * acc + d) rest

/-- Whether every underscore stands directly after a digit (or the base mark) and directly before
a digit. `afterDigit` says that a digit or the mark comes before the list. -/
def underscoresSeparate : (afterDigit : Bool) → List Char → Bool
  | _, [] => true
  | afterDigit, '_' :: c :: rest => afterDigit && c != '_' && underscoresSeparate true rest
  | _, ['_'] => false
  | _, _ :: rest => underscoresSeparate true rest

/-- The value of an unsigned literal below `2 ^ 64`. -/
def readNumeral (cs : List Char) : Except NumeralFault Nat :=
  if cs.isEmpty then .error .malformed
  else
    let (base, marked, digits) := splitBase cs
    match readDigits base 0 digits with
    | .error fault => .error fault
    | .ok n =>
      if underscoresSeparate (marked || base == 8) digits then .ok n else .error .malformed

/-- The value of a literal with an optional sign, from `-2 ^ 63` up to `2 ^ 63 - 1`. -/
def readSignedNumeral (cs : List Char) : Except NumeralFault Int :=
  let (negative, body) := match cs with
    | '-' :: rest => (true, rest)
    | '+' :: rest => (false, rest)
    | _ => (false, cs)
  match readNumeral body with
  | .error fault => .error fault
  | .ok n =>
    if negative then if UInt64.size / 2 < n then .error .outOfRange else .ok (-(n : Int))
    else if UInt64.size / 2 ≤ n then .error .outOfRange else .ok n

end CellMachine.Text
