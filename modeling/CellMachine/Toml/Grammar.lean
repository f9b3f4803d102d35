import CellMachine.Toml.Moment
import CellMachine.Toml.Quoted

/-!
# The grammar of configuration files

A document in TOML is a list of lines: the head of a table, the head of an element of an array of
tables, or a key with a value. This module reads lines; what tables they make up is another matter.
-/

namespace CellMachine.Toml

/-- A key: the names of the tables on the way, and the name itself. -/
abbrev Key := List String

/-- A value as it is written. Of numbers with a fraction and of dates little more than the kind is
kept. -/
inductive Expr
  | text (s : String)
  | integer (n : Int)
  | boolean (b : Bool)
  | float
  /-- A date or time; `distant` says that it is a day or more away from universal time. -/
  | moment (distant : Bool)
  | array (items : List Expr)
  | inline (pairs : List (Key × Expr))
  deriving Repr, Inhabited

/-- A line of a document. -/
inductive Line
  /-- The head of a table. -/
  | table (key : Key)
  /-- The head of an element of an array of tables. -/
  | element (key : Key)
  | pair (key : Key) (value : Expr)
  deriving Repr

/-- Whether a character may stand in a name without quotes. -/
def isBare (c : Char) : Bool := c.isAlphanum || c == '_' || c == '-'

namespace Scanner

/-! ### Keys -/

/-- One name of a key. -/
def name : Scanner String := fun
  | '"' :: cs => basicText cs
  | '\'' :: cs => literalText cs
  | cs =>
    let bare := cs.takeWhile isBare
    if bare.isEmpty then none else some (String.ofList bare, cs.drop bare.length)

/-- Names between points. -/
def names : (fuel : Nat) → Scanner Key
  | 0 => failure
  | fuel + 1 => do
    skipGaps
    let first ← name
    skipGaps
    if ← accept '.' then return first :: (← names fuel) else return [first]

/-- A key. -/
def key : Scanner Key := fun cs => names cs.length cs

/-! ### Values -/

/-- The characters of a number with a fraction or exponent. -/
def isFloatChar (c : Char) : Bool :=
  c.isDigit || c == '_' || c == '.' || c == '-' || c == '+' || c == 'e' || c == 'E'

/-- The characters of a date or time. -/
def isMomentChar (c : Char) : Bool :=
  c.isDigit || c == '-' || c == ':' || c == 'T' || c == 't' || c == ' ' || c == '.' || c == 'Z' ||
    c == 'z' || c == '+'

/-- The value that the first `n` characters are, if they are one. -/
def first (n : Nat) (value? : List Char → Option Expr) : Scanner Expr := fun cs =>
  (value? (cs.take n)).map fun value => (value, cs.drop n)

/-- A whole number. -/
def whole (cs : List Char) : Option Expr := (wholeNumber? cs).map .integer

/-- A decimal number, with or without a sign and a fraction. -/
def decimal (signs : Nat) : Scanner Expr := fun cs =>
  let digits := (cs.drop signs).takeWhile fun c => c.isDigit || c == '_'
  let length := signs + digits.length
  match cs[length]? with
  | some c =>
    if c == '.' || c == 'e' || c == 'E' then
      let more := (cs.drop length).takeWhile isFloatChar
      first (length + more.length) (fun cs => if isFloat cs then some .float else none) cs
    else first length whole cs
  | none => first length whole cs

/-- A whole number after the mark of a base. -/
def based (isDigit : Char → Bool) : Scanner Expr := fun cs =>
  let digits := (cs.drop 2).takeWhile fun c => isDigit c || c == '_'
  if digits.head?.any isDigit then first (2 + digits.length) whole cs else none

/-- A date or time. Blanks after it are taken along. -/
def moment : Scanner Expr := fun cs =>
  let text := cs.takeWhile isMomentChar
  let trimmed := (text.reverse.dropWhile fun c => c == ' ').reverse
  (momentOffset? trimmed).map fun minutes => (.moment (24 * 60 ≤ minutes), cs.drop text.length)

/-- What starts with a digit: a number, a date or a time. -/
def digitFirst : Scanner Expr := fun
  | '0' :: 'x' :: cs => based isHex ('0' :: 'x' :: cs)
  | '0' :: 'o' :: cs => based (fun c => '0' ≤ c && c ≤ '7') ('0' :: 'o' :: cs)
  | '0' :: 'b' :: cs => based (fun c => c == '0' || c == '1') ('0' :: 'b' :: cs)
  | cs =>
    let digits := cs.takeWhile Char.isDigit
    match cs[digits.length]? with
    | some c =>
      if (c == '-' || c == ':') && digits != ['0'] then moment cs else decimal 0 cs
    | none => decimal 0 cs

/-- What starts with a sign. -/
def signFirst : Scanner Expr := fun cs =>
  match cs.drop 1 with
  | 'i' :: 'n' :: 'f' :: rest => some (.float, rest)
  | 'n' :: 'a' :: 'n' :: rest => some (.float, rest)
  | c :: _ => if c.isDigit then decimal 1 cs else none
  | [] => none

/-- A value; `inner` reads the values inside it. -/
def valueOf (inner : Scanner Expr) : Scanner Expr := do
  skipGaps
  fun
    | '[' :: cs => (members ']' inner (cs.length + 1) cs).map fun (items, rest) =>
      (.array items, rest)
    | '\x7b' :: cs =>
      let pair : Scanner (Key × Expr) := do
        let k ← key
        expect '='
        return (k, ← inner)
      (members '\x7d' pair (cs.length + 1) cs).map fun (pairs, rest) => (.inline pairs, rest)
    | 't' :: 'r' :: 'u' :: 'e' :: rest => some (.boolean true, rest)
    | 'f' :: 'a' :: 'l' :: 's' :: 'e' :: rest => some (.boolean false, rest)
    | 'i' :: 'n' :: 'f' :: rest => some (.float, rest)
    | 'n' :: 'a' :: 'n' :: rest => some (.float, rest)
    | '-' :: cs => signFirst ('-' :: cs)
    | '+' :: cs => signFirst ('+' :: cs)
    | cs =>
      if cs.head?.any Char.isDigit then digitFirst cs
      else (quotedText cs).map fun (s, rest) => (.text s, rest)

/-- A value of at most `levels` levels. -/
def value : (levels : Nat) → Scanner Expr
  | 0 => failure
  | levels + 1 => valueOf (value levels)

/-! ### Lines -/

/-- The head of a table or of an element, after its first bracket. -/
def tableHead : Scanner Line := do
  if ← accept '[' then
    let k ← key
    expect ']'
    expect ']'
    return .element k
  else
    let k ← key
    expect ']'
    return .table k

/-- A line. -/
def line : Scanner Line := do
  if ← accept '[' then tableHead
  else
    let k ← key
    expect '='
    let v ← fun cs => value (cs.length + 1) cs
    return .pair k v

/-- Lines up to the end of the text. -/
def lines : (fuel : Nat) → Scanner (List Line)
  | 0 => failure
  | fuel + 1 => do
    skipLines
    if ← atEnd then return []
    let l ← line
    endLine
    return l :: (← lines fuel)

end Scanner

/-- The lines of a text. -/
def lines? (text : String) : Option (List Line) :=
  let cs := text.toList
  if hasControl cs then none else (Scanner.lines (cs.length + 1) cs).map (·.1)

end CellMachine.Toml
