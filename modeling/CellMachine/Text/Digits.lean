/-!
# Digits and columns

The number texts of listings and messages: hexadecimal digits in both cases, and a text filled up
to a column width. Decimal numbers are written by `toString` on `Nat` and `Int`.
-/

namespace CellMachine.Text

/-- The hexadecimal digits of `n`, lower case. -/
def hexLower (n : Nat) : String :=
  String.ofList (Nat.toDigits 16 n)

/-- The hexadecimal digits of `n`, upper case. -/
def hexUpper (n : Nat) : String :=
  String.ofList ((Nat.toDigits 16 n).map Char.toUpper)

/-- The text `s` with copies of `c` before it, up to `width` characters. A longer text is kept. -/
def padLeft (c : Char) (width : Nat) (s : String) : String :=
  String.ofList (List.replicate (width - s.length) c) ++ s

/-- The text `s` with blanks after it, up to `width` characters. A longer text is kept. -/
def padRight (width : Nat) (s : String) : String :=
  s ++ String.ofList (List.replicate (width - s.length) ' ')

/-- A decimal number that always shows its sign, `+5` or `-5`. -/
def signedDecimal (n : Int) : String :=
  if n < 0 then toString n else "+" ++ toString n

/-- The value of a hexadecimal digit of either case. -/
def hexValue? (c : Char) : Option Nat :=
  if '0' ≤ c ∧ c ≤ '9' then some (c.toNat - '0'.toNat)
  else if 'a' ≤ c ∧ c ≤ 'f' then some (c.toNat - 'a'.toNat + 10)
  else if 'A' ≤ c ∧ c ≤ 'F' then some (c.toNat - 'A'.toNat + 10)
  else none

/-- The number that a list of hexadecimal digits stands for. -/
def hexNumber? (cs : List Char) : Option Nat :=
  cs.foldlM (fun n c => (hexValue? c).map fun d => 16 * n + d) 0

/-- Two lower-case digits for every byte. -/
def hexBytes (bytes : List UInt8) : String :=
  String.ofList <| bytes.flatMap fun b =>
    [Nat.digitChar (b.toNat / 16), Nat.digitChar (b.toNat % 16)]

/-- The bytes of a list of digits, two digits each. -/
def bytesOfDigits? : List Char → Option (List UInt8)
  | [] => some []
  | [_] => none
  | high :: low :: rest => do
    let h ← hexValue? high
    let l ← hexValue? low
    let bytes ← bytesOfDigits? rest
    return UInt8.ofNat (16 * h + l) :: bytes

/-- The bytes of a text of hexadecimal digits. -/
def bytesOfHex? (s : String) : Option (List UInt8) := bytesOfDigits? s.toList

end CellMachine.Text
