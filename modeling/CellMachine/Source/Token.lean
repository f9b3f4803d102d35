import CellMachine.Text.Raw

/-!
# Tokens of source text

Assembler source is read line by line: the end of a line is a token, and a comment runs from `;` to
the end of its line.
-/

namespace CellMachine

/-- A place in source text. Lines and columns count characters from one. -/
structure Position where
  line : Nat
  column : Nat
  deriving DecidableEq, Repr, Inhabited

/-- The line and the column. -/
def Position.text (p : Position) : String :=
  s!"{p.line}:{p.column}"

/-- The kinds of tokens. -/
inductive TokenKind
  /-- The end of the source. -/
  | eof
  /-- Text that is no token; the literal says why. -/
  | bad
  /-- The end of a line. -/
  | newline
  /-- An integer, with its sign. -/
  | number
  /-- A character between single quotes. -/
  | character
  /-- A name. -/
  | ident
  /-- A name after a dot. -/
  | directive
  /-- A name before a colon. -/
  | label
  /-- A name after a colon. -/
  | labelRef
  /-- A name or a number after an ampersand. -/
  | address
  | comma
  | bang
  deriving DecidableEq, Repr, Inhabited

namespace TokenKind

/-- The kind with a given code. -/
def ofCode? : Int → Option TokenKind
  | 0 => some .eof
  | 1 => some .bad
  | 2 => some .newline
  | 3 => some .number
  | 4 => some .character
  | 5 => some .ident
  | 6 => some .directive
  | 7 => some .label
  | 8 => some .labelRef
  | 9 => some .address
  | 10 => some .comma
  | 11 => some .bang
  | _ => none

/-- The text of a kind. -/
def text : TokenKind → String
  | .eof => "EOF"
  | .bad => "ERROR"
  | .newline => "NEWLINE"
  | .number => "NUMBER"
  | .character => "CHARACTER"
  | .ident => "IDENT"
  | .directive => "DIRECTIVE"
  | .label => "LABEL"
  | .labelRef => "LABELREF"
  | .address => "ADDRESS"
  | .comma => ","
  | .bang => "!"

end TokenKind

/-- A token: its kind, its text and where it starts. -/
structure Token where
  kind : TokenKind
  literal : RawText
  pos : Position
  deriving DecidableEq, Repr, Inhabited

namespace Token

/-- The token as messages show it. -/
def text (t : Token) : String :=
  match t.kind with
  | .eof | .newline => t.kind.text
  | .bad => "ERROR(" ++ t.literal.read ++ ")"
  | kind => kind.text ++ "(" ++ t.literal.quoted ++ ")"

/-- Whether the token ends a line. -/
def endsLine (t : Token) : Bool :=
  t.kind == .newline || t.kind == .eof

end Token

end CellMachine
