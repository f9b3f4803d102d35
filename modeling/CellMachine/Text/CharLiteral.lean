import CellMachine.Text.Digits

/-!
# Character literals

The body of a character literal, between its single quotes: one character that is no quote, or an
escape. Escapes are the control letters, a backslash, a single quote, three octal digits up to 255,
and `x`, `u` or `U` with two, four or eight hexadecimal digits, the last two naming a scalar value.
-/

namespace CellMachine.Text

/-- The code that a single letter or sign stands for after a backslash. -/
def escapedSign? : Char → Option Nat
  | 'a' => some 7
  | 'b' => some 8
  | 'f' => some 12
  | 'n' => some 10
  | 'r' => some 13
  | 't' => some 9
  | 'v' => some 11
  | '\\' => some 92
  | '\'' => some 39
  | _ => none

/-- The value of exactly three octal digits, at most 255. -/
def octalByte? (a b c : Char) : Option Nat :=
  if [a, b, c].all (fun d => '0' ≤ d && d ≤ '7') then
    let n := (a.toNat - 48) * 64 + (b.toNat - 48) * 8 + (c.toNat - 48)
    if n ≤ 255 then some n else none
  else none

/-- The code of a scalar value given by its hexadecimal digits. -/
def scalarValue? (digits : List Char) : Option Nat := do
  let n ← hexNumber? digits
  if n < 0xD800 ∨ (0xDFFF < n ∧ n ≤ 0x10FFFF) then some n else none

/-- The code that a literal's body stands for, if it is one character or one escape. -/
def readCharBody? : List Char → Option Nat
  | ['\\', 'x', a, b] => hexNumber? [a, b]
  | ['\\', 'u', a, b, c, d] => scalarValue? [a, b, c, d]
  | ['\\', 'U', a, b, c, d, e, f, g, h] => scalarValue? [a, b, c, d, e, f, g, h]
  | ['\\', a, b, c] => octalByte? a b c
  | ['\\', c] => escapedSign? c
  | [c] => if c = '\\' ∨ c = '\'' then none else some c.toNat
  | _ => none

end CellMachine.Text
