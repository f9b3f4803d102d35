import CellMachine.Toml.Scan

/-!
# Quoted texts in configuration files

Four forms: in double quotes with escapes, in single quotes as it stands, and each of the two in
three quotes, over several lines. In three quotes a line break right after the opening is dropped,
and a backslash at the end of a line joins it with the next text. Up to two quotes may stand before
the closing three.
-/

namespace CellMachine.Toml

/-- The character of a code in hexadecimal digits, unless the code is no character. -/
def charOf? (digits : List Char) : Option Char := do
  let n ← Text.hexNumber? digits
  if n < 0xD800 ∨ (0xE000 ≤ n ∧ n ≤ 0x10FFFF) then some (Char.ofNat n) else none

/-- The text with its escapes replaced. It fails on an escape that does not exist. -/
def unescape : List Char → Option (List Char)
  | [] => some []
  | '\\' :: 'b' :: rest => (unescape rest).map ('\x08' :: ·)
  | '\\' :: 't' :: rest => (unescape rest).map ('\t' :: ·)
  | '\\' :: 'n' :: rest => (unescape rest).map ('\n' :: ·)
  | '\\' :: 'f' :: rest => (unescape rest).map ('\x0c' :: ·)
  | '\\' :: 'r' :: rest => (unescape rest).map ('\r' :: ·)
  | '\\' :: 'e' :: rest => (unescape rest).map ('\x1b' :: ·)
  | '\\' :: '"' :: rest => (unescape rest).map ('"' :: ·)
  | '\\' :: '\\' :: rest => (unescape rest).map ('\\' :: ·)
  | '\\' :: 'x' :: a :: b :: rest => do
    return (← charOf? [a, b]) :: (← unescape rest)
  | '\\' :: 'u' :: a :: b :: c :: d :: rest => do
    return (← charOf? [a, b, c, d]) :: (← unescape rest)
  | '\\' :: 'U' :: a :: b :: c :: d :: e :: f :: g :: h :: rest => do
    return (← charOf? [a, b, c, d, e, f, g, h]) :: (← unescape rest)
  | '\\' :: _ => none
  | c :: rest => (unescape rest).map (c :: ·)

/-- Removes each backslash at the end of a line, with all blanks and breaks after it. -/
def joinLines (cs : List Char) : List Char :=
  match cs with
  | [] => []
  | '\\' :: '\\' :: rest => '\\' :: '\\' :: joinLines rest
  | '\\' :: rest =>
    let gap := rest.takeWhile fun c => isGap c || isBreak c
    if '\n' ∈ gap then joinLines (rest.drop gap.length) else '\\' :: joinLines rest
  | c :: rest => c :: joinLines rest
termination_by cs.length
decreasing_by all_goals simp; try omega

/-- The text without a line break at its very start. -/
def dropFirstBreak : List Char → List Char
  | '\n' :: rest => rest
  | '\r' :: '\n' :: rest => rest
  | cs => cs

/-- The text up to a double quote, with its escapes still in place. -/
def basicBody : List Char → Option (List Char × List Char)
  | [] => none
  | '"' :: rest => some ([], rest)
  | '\\' :: c :: rest => (basicBody rest).map fun (body, rest) => ('\\' :: c :: body, rest)
  | c :: rest =>
    if isBreak c then none else (basicBody rest).map fun (body, rest) => (c :: body, rest)

/-- The text up to a single quote. -/
def literalBody : List Char → Option (List Char × List Char)
  | [] => none
  | '\'' :: rest => some ([], rest)
  | c :: rest =>
    if isBreak c then none else (literalBody rest).map fun (body, rest) => (c :: body, rest)

/-- The number of hexadecimal digits that an escape takes after its letter. -/
def codeLength : Char → Nat
  | 'x' => 2
  | 'u' => 4
  | 'U' => 8
  | _ => 0

/-- Whether the digits that an escape takes follow its letter. -/
def codeFollows (letter : Char) (rest : List Char) : Bool :=
  let digits := rest.take (codeLength letter)
  digits.length == codeLength letter && digits.all fun c => (Text.hexValue? c).isSome

/-- The text up to three quotes, with its escapes still in place. `before` is what stands before it,
last character first. A sixth quote in a row is refused, and so is an escape whose digits go on in
the next line. -/
def longBody (quote : Char) (escapes : Bool) (before cs : List Char) :
    Option (List Char × List Char) :=
  match cs with
  | [] => none
  | c :: rest =>
    if escapes && c == '\\' then
      match rest with
      | [] => none
      | d :: rest =>
        if codeFollows d rest then longBody quote escapes (d :: c :: before) rest else none
    else if c == quote && rest.take 2 == [quote, quote] then
      if rest[2]? == some quote then
        if before.take 2 == [quote, quote] && !(escapes && before[2]? == some '\\') then none
        else longBody quote escapes (c :: before) rest
      else some (before.reverse, rest.drop 2)
    else longBody quote escapes (c :: before) rest
termination_by cs.length

/-- A text in double quotes, after the opening one. -/
def basicText (cs : List Char) : Option (String × List Char) := do
  let (body, rest) ← basicBody cs
  return (String.ofList (← unescape body), rest)

/-- A text in single quotes, after the opening one. -/
def literalText (cs : List Char) : Option (String × List Char) :=
  (literalBody cs).map fun (body, rest) => (String.ofList body, rest)

/-- A text in any of the four forms. -/
def quotedText : Scanner String := fun
  | '"' :: '"' :: '"' :: cs => do
    let (body, rest) ← longBody '"' true [] cs
    return (String.ofList (← unescape (joinLines (dropFirstBreak body))), rest)
  | '\'' :: '\'' :: '\'' :: cs => do
    let (body, rest) ← longBody '\'' false [] cs
    return (String.ofList (dropFirstBreak body), rest)
  | '"' :: cs => basicText cs
  | '\'' :: cs => literalText cs
  | _ => none

end CellMachine.Toml
