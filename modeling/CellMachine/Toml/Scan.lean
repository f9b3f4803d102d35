import CellMachine.Text.Digits

/-!
# Scanning configuration text

The small readers from which the grammar of configuration files is built. A scanner takes characters
from the front of a text and fails without a reason: a text is a document or it is not.
-/

namespace CellMachine.Toml

/-- A reader of characters. -/
abbrev Scanner := StateT (List Char) Option

/-- Blanks within a line. -/
def isGap (c : Char) : Bool := c == ' ' || c == '\t'

/-- The characters of a line break. -/
def isBreak (c : Char) : Bool := c == '\n' || c == '\r'

/-- Whether a text holds a control character that no document may hold. A carriage return may only
stand before a line feed. -/
def hasControl : List Char → Bool
  | [] => false
  | '\r' :: '\n' :: rest => hasControl rest
  | c :: rest =>
    (c < ' ' && c != '\t' && c != '\n') || c == '\x7f' || hasControl rest

/-- Skips blanks, line breaks and comments. -/
def skipLinesFrom : (inComment : Bool) → List Char → List Char
  | _, [] => []
  | true, c :: rest => if isBreak c then skipLinesFrom false rest else skipLinesFrom true rest
  | false, c :: rest =>
    if isGap c || isBreak c then skipLinesFrom false rest
    else if c == '#' then skipLinesFrom true rest
    else c :: rest

namespace Scanner

/-- Skips blanks, line breaks and comments. -/
def skipLines : Scanner Unit := fun cs => some ((), skipLinesFrom false cs)

/-- Skips blanks within the line. -/
def skipGaps : Scanner Unit := fun cs => some ((), cs.dropWhile isGap)

/-- Takes a character if it comes next. -/
def accept (c : Char) : Scanner Bool := fun
  | d :: rest => if d = c then some (true, rest) else some (false, d :: rest)
  | [] => some (false, [])

/-- Takes a character that has to come next. -/
def expect (c : Char) : Scanner Unit := do
  if !(← accept c) then failure

/-- Whether nothing is left. -/
def atEnd : Scanner Bool := fun cs => some (cs.isEmpty, cs)

/-- The end of a line, perhaps after a comment, or the end of the text. -/
def endLine : Scanner Unit := fun cs =>
  match cs.dropWhile isGap with
  | [] => some ((), [])
  | c :: rest => if c == '#' || isBreak c then some ((), c :: rest) else none

/-- Members between commas, up to the closing character. A comma may follow the last one. -/
def members {α : Type} (close : Char) (one : Scanner α) : (fuel : Nat) → Scanner (List α)
  | 0 => failure
  | fuel + 1 => do
    skipLines
    if ← accept close then return []
    let a ← one
    skipLines
    if ← accept close then return [a]
    expect ','
    return a :: (← members close one fuel)

end Scanner

end CellMachine.Toml
