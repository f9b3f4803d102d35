import CellMachine.Toml.Number

/-!
# Dates and times in configuration files

A date, a time of day, or both with a letter `T` between them, in which case a difference to
universal time may follow. Seconds may be left out; only seconds have a fraction. Of a date or time
only the size of that difference is kept.
-/

namespace CellMachine.Toml

/-- The characters after a number of exactly `n` digits from `least` to `most`, and the number. -/
def digits? (n least most : Nat) (cs : List Char) : Option (Nat × List Char) :=
  let digits := cs.take n
  let value := decimalValue digits
  if digits.length = n ∧ digits.all Char.isDigit ∧ least ≤ value ∧ value ≤ most then
    some (value, cs.drop n)
  else none

/-- The characters after one that has to come first. -/
def after? (c : Char) : List Char → Option (List Char)
  | d :: rest => if d = c then some rest else none
  | [] => none

/-- The number of days of a month. -/
def daysIn (year month : Nat) : Nat :=
  if month = 2 then
    if year % 4 = 0 ∧ (year % 100 ≠ 0 ∨ year % 400 = 0) then 29 else 28
  else if month = 4 ∨ month = 6 ∨ month = 9 ∨ month = 11 then 30
  else 31

/-- The characters after a date. -/
def date? (cs : List Char) : Option (List Char) := do
  let (year, cs) ← digits? 4 0 9999 cs
  let (month, cs) ← digits? 2 1 12 (← after? '-' cs)
  let (_, cs) ← digits? 2 1 (daysIn year month) (← after? '-' cs)
  return cs

/-- The characters after a fraction of a second, if there is one. -/
def skipFraction : List Char → List Char
  | '.' :: c :: rest => if c.isDigit then rest.dropWhile Char.isDigit else '.' :: c :: rest
  | cs => cs

/-- The characters after a time of day. -/
def time? (cs : List Char) : Option (List Char) := do
  let (_, cs) ← digits? 2 0 23 cs
  let (_, cs) ← digits? 2 0 59 (← after? ':' cs)
  match after? ':' cs with
  | none => return cs
  | some cs =>
    let (_, cs) ← digits? 2 0 59 cs
    return skipFraction cs

/-- The size in minutes of the difference to universal time that a text states. No text and the
letter `Z` state none; up to 24 hours and 60 minutes can be stated. -/
def offset? : List Char → Option Nat
  | [] => some 0
  | ['Z'] => some 0
  | sign :: cs => do
    if sign != '+' && sign != '-' then none
    let (hours, cs) ← digits? 2 0 24 cs
    let (minutes, cs) ← digits? 2 0 60 (← after? ':' cs)
    if cs.isEmpty then some (60 * hours + minutes) else none

/-- The characters of a date or time in the form in which they are compared. -/
def momentChar (c : Char) : Char :=
  if c == 'z' then 'Z' else if c == 't' || c == ' ' then 'T' else c

/-- The size in minutes of the difference to universal time of a date, a time of day or both. -/
def momentOffset? (cs : List Char) : Option Nat :=
  let cs := cs.map momentChar
  match date? cs with
  | some [] => some 0
  | some ('T' :: cs) => (time? cs).bind offset?
  | some _ => none
  | none => if time? cs == some [] then some 0 else none

end CellMachine.Toml
