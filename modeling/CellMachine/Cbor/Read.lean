import CellMachine.Cbor.Item

/-!
# Reading data items

`item?` reads bytes that are exactly one well-formed item. Heads need not be the shortest ones, and
strings, lists and maps may come without a length, up to a break. Every list and map takes one of
the levels of nesting; of consecutive tags each but the first takes one as well. So the recursion is
on the levels that are left.
-/

namespace CellMachine.Cbor

/-- A reader of bytes. -/
abbrev Reader := StateT (List UInt8) Option

/-- The first byte of an item and what follows from it. -/
structure Head where
  major : Nat
  /-- The argument, or `none` where a length is left open. -/
  argument? : Option Nat
  /-- The number of argument bytes. -/
  width : Nat
  deriving DecidableEq, Repr

namespace Reader

/-- One byte. -/
def byte : Reader UInt8 := fun
  | [] => none
  | b :: rest => some (b, rest)

/-- The next byte, which is left in place. -/
def peek : Reader UInt8 := fun
  | [] => none
  | b :: rest => some (b, b :: rest)

/-- Exactly `n` bytes. -/
def take (n : Nat) : Reader (List UInt8) := fun bytes =>
  let taken := bytes.take n
  if taken.length = n then some (taken, bytes.drop n) else none

/-- The argument of a head, which the low five bits of its first byte describe. -/
def argument (low : Nat) : Reader (Option Nat × Nat) :=
  if low < 24 then pure (some low, 0)
  else if low < 28 then do
    let width := 1 <<< (low - 24)
    return (some (ofBigEndian (← take width)), width)
  else if low = 31 then pure (none, 0)
  else failure

/-- The head of an item. -/
def head : Reader Head := do
  let first ← byte
  let (argument?, width) ← argument (first.toNat % 32)
  return { major := first.toNat / 32, argument?, width }

/-- The byte that ends what comes without a length. -/
def breakByte : UInt8 := 0xFF

/-- Exactly `n` items, after those in `before`. -/
def times {α : Type} (one : Reader α) : (n : Nat) → (before : Array α) → Reader (List α)
  | 0, before => pure before.toList
  | n + 1, before => do
    let a ← one
    times one n (before.push a)

/-- Items up to a break, after those in `before`; `fuel` bounds their number. -/
def untilBreak {α : Type} (one : Reader α) : (fuel : Nat) → (before : Array α) → Reader (List α)
  | 0, _ => failure
  | fuel + 1, before => do
    if (← peek) = breakByte then
      let _ ← byte
      return before.toList
    let a ← one
    untilBreak one fuel (before.push a)

/-- As many items as an argument says, or items up to a break. There is a greatest number. -/
def entries {α : Type} (one : Reader α) : (argument? : Option Nat) → Reader (List α)
  | some n => if n ≤ maxEntries then times one n #[] else failure
  | none => untilBreak one (maxEntries + 1) #[]

/-- A piece of a string, of the major type of the whole. -/
def piece (major : Nat) : Reader (List UInt8) := do
  let h ← head
  if h.major ≠ major then failure
  match h.argument? with
  | some n => take n
  | none => failure

/-- The pieces of a string. -/
def pieces (major : Nat) : (argument? : Option Nat) → Reader (List (List UInt8))
  | some n => do return [← take n]
  | none => fun bytes => untilBreak (piece major) bytes.length #[] bytes

/-- An entry of a map. -/
def entry (one : Reader Item) : Reader (Item × Item) := do
  let key ← one
  return (key, ← one)

/-- A simple value or a number with a fraction. -/
def simple (h : Head) : Reader Item :=
  match h.argument?, h.width with
  | none, _ => failure
  | some n, 0 => pure (.simple n)
  | some n, 1 => if n < 32 then failure else pure (.simple n)
  | some _, _ => pure .float

/-- The item of a head that is no tag. `inner?` reads the members of a list or map, if there is a
level left for them. -/
def plain (inner? : Option (Reader Item)) (h : Head) : Reader Item :=
  match h.major, h.argument?, inner? with
  | 0, some n, _ => pure (.unsigned n)
  | 1, some n, _ => pure (.negative n)
  | 2, argument?, _ => do return .bytes (← pieces 2 argument?)
  | 3, argument?, _ => do return .text (← pieces 3 argument?)
  | 4, argument?, some inner => do return .list (← entries inner argument?)
  | 5, argument?, some inner => do return .map (← entries (entry inner) argument?)
  | 7, _, _ => simple h
  | _, _, _ => failure

/-- One item. `inner?` reads what is one level further in. -/
def leveled (inner? : Option (Reader Item)) : Reader Item := do
  let h ← head
  if h.major ≠ 6 then plain inner? h
  else
    match h.argument? with
    | none => failure
    | some number =>
      if (← peek).toNat / 32 = 6 then
        match inner? with
        | some inner => return .tag number (← inner)
        | none => failure
      else return .tag number (← plain inner? (← head))

/-- One item that takes at most `levels` levels of nesting. -/
def item : (levels : Nat) → Reader Item
  | 0 => leveled none
  | levels + 1 => leveled (some (item levels))

end Reader

/-- The item that bytes consist of. -/
def item? (bytes : List UInt8) : Option Item :=
  match Reader.item maxLevels bytes with
  | some (i, []) => some i
  | _ => none

end CellMachine.Cbor
