import CellMachine.Source.Token
import CellMachine.Text.Letter

/-!
# Splitting source text into tokens

The text is read from the left. Blanks and comments separate tokens; the end of a line is a token
of its own. The character U+0000 ends the source wherever it stands between tokens, like the end of
the text itself. Text that fits no token becomes a token of kind `bad`, whose literal says why. A
stray byte may stand in a comment and in a character literal, and fits no other token.

Every token but the last uses up a piece of the text (`length_scanToken_le`), so the tokens of a
text are finitely many.
-/

namespace CellMachine

/-- The text that is left, and the place where it starts. -/
structure Cursor where
  rest : RawText
  pos : Position
  deriving DecidableEq, Repr

/-- The place `n` characters further on in the same line. -/
def Position.right (p : Position) (n : Nat) : Position := { p with column := p.column + n }

/-- The place after a character. -/
def Position.after (p : Position) (c : Char) : Position :=
  if c = '\n' then ⟨p.line + 1, 1⟩ else p.right 1

/-- Whether a name in source text may start with the character. -/
def startsWord (c : Char) : Bool :=
  c == '_' || c == '$' || Text.isLetter c

/-- Whether a name in source text may go on with the character. -/
def continuesWord (c : Char) : Bool :=
  startsWord c || c.isDigit || c == '.'

/-- Whether a number may go on with the character. Numbers are checked when they are read as
operands. -/
def continuesNumber (c : Char) : Bool :=
  c.isDigit || Text.isLetter c || c == '_'

/-- Whether the text starts with a character of a class. -/
def headIs (p : Char → Bool) : RawText → Bool
  | [] => false
  | g :: _ => p g.read

/-- Leaves out blanks and comments, but not the end of the line. -/
def skipBlanks : (inComment : Bool) → RawText → Position → Cursor
  | _, [], pos => ⟨[], pos⟩
  | true, g :: rest, pos =>
    if g = .char '\n' ∨ g = .char '\x00' then ⟨g :: rest, pos⟩
    else skipBlanks true rest (pos.right 1)
  | false, g :: rest, pos =>
    if g = .char ' ' ∨ g = .char '\t' ∨ g = .char '\r' then skipBlanks false rest (pos.right 1)
    else if g = .char ';' then skipBlanks true rest (pos.right 1)
    else ⟨g :: rest, pos⟩

/-- Takes the characters of a class, none of which ends a line. -/
def takeClass (p : Char → Bool) (text : RawText) (pos : Position) : RawText × Cursor :=
  let taken := text.takeWhile fun g => p g.read
  (taken, ⟨text.dropWhile fun g => p g.read, pos.right taken.length⟩)

/-- Takes a character literal from after its opening quote up to its closing quote. A backslash
takes the next character along, whatever it is. There is no literal if the line or the text ends
first; a backslash at the very end counts as two columns. -/
def takeCharacter : RawText → Position → Option RawText × Cursor
  | [], pos => (none, ⟨[], pos⟩)
  | [.char '\\'], pos => (none, ⟨[], pos.right 2⟩)
  | .char '\\' :: g :: rest, pos =>
    let (body?, cursor) := takeCharacter rest ((pos.right 1).after g.read)
    (body?.map fun body => .char '\\' :: g :: body, cursor)
  | g :: rest, pos =>
    if g = .char '\'' then (some [g], ⟨rest, pos.right 1⟩)
    else if g = .char '\n' ∨ g = .char '\x00' then (none, ⟨g :: rest, pos⟩)
    else
      let (body?, cursor) := takeCharacter rest (pos.right 1)
      (body?.map fun body => g :: body, cursor)

/-! ### The tokens, by their first character

Each function is given the place of the token and the text after the first character. -/

/-- A token for text that is none. -/
def Token.bad (reason : String) (pos : Position) : Token :=
  { kind := .bad, literal := reason, pos }

/-- A character literal, after its opening quote. -/
def scanCharacter (rest : RawText) (pos : Position) : Token × Cursor :=
  match takeCharacter rest (pos.right 1) with
  | (some body, cursor) => (⟨.character, .char '\'' :: body, pos⟩, cursor)
  | (none, cursor) => (.bad "unterminated character literal" pos, cursor)

/-- The use of a label, after its colon. -/
def scanLabelRef (rest : RawText) (pos : Position) : Token × Cursor :=
  if headIs startsWord rest then
    let (name, cursor) := takeClass continuesWord rest (pos.right 1)
    (⟨.labelRef, name, pos⟩, cursor)
  else (.bad "expected label name after ':'" pos, ⟨rest, pos.right 1⟩)

/-- A location, from its name or number on. -/
def scanTarget (target : Cursor) (pos : Position) : Token × Cursor :=
  if headIs Char.isDigit target.rest then
    let (digits, cursor) := takeClass continuesNumber target.rest target.pos
    (⟨.address, digits, pos⟩, cursor)
  else if headIs startsWord target.rest then
    let (name, cursor) := takeClass continuesWord target.rest target.pos
    (⟨.address, name, pos⟩, cursor)
  else (.bad "expected symbol or address after '&'" pos, target)

/-- A number, after its first digit or its sign. -/
def scanNumber (g : Glyph) (rest : RawText) (pos : Position) : Token × Cursor :=
  let (digits, cursor) := takeClass continuesNumber rest (pos.right 1)
  (⟨.number, g :: digits, pos⟩, cursor)

/-- A directive, after its dot. -/
def scanDirective (rest : RawText) (pos : Position) : Token × Cursor :=
  let (name, cursor) := takeClass continuesWord rest (pos.right 1)
  (⟨.directive, .char '.' :: name, pos⟩, cursor)

/-- A name, or the definition of a label if a colon follows directly. -/
def scanWord (g : Glyph) (rest : RawText) (pos : Position) : Token × Cursor :=
  let (name, cursor) := takeClass continuesWord rest (pos.right 1)
  match cursor.rest with
  | [] => (⟨.ident, g :: name, pos⟩, cursor)
  | next :: after =>
    if next = .char ':' then (⟨.label, g :: name, pos⟩, ⟨after, cursor.pos.right 1⟩)
    else (⟨.ident, g :: name, pos⟩, cursor)

/-- The token that starts with the piece `g`, which is no blank, and the text after it. -/
def scanToken (g : Glyph) (rest : RawText) (pos : Position) : Token × Cursor :=
  if g = .char '\n' then (⟨.newline, [g], pos⟩, ⟨rest, pos.after '\n'⟩)
  else if g = .char ',' then (⟨.comma, [g], pos⟩, ⟨rest, pos.right 1⟩)
  else if g = .char '!' then (⟨.bang, [g], pos⟩, ⟨rest, pos.right 1⟩)
  else if g = .char '\'' then scanCharacter rest pos
  else if g = .char ':' then scanLabelRef rest pos
  else if g = .char '&' then scanTarget (skipBlanks false rest (pos.right 1)) pos
  else if g = .char '.' ∧ headIs startsWord rest then scanDirective rest pos
  else if g.read.isDigit ∨ ((g = .char '-' ∨ g = .char '+') ∧ headIs Char.isDigit rest) then
    scanNumber g rest pos
  else if startsWord g.read then scanWord g rest pos
  else (.bad ("unexpected character " ++ String.ofList [g.read]) pos, ⟨rest, pos.right 1⟩)

/-! ### Tokens use up text -/

theorem length_skipBlanks_le (inComment : Bool) (text : RawText) (pos : Position) :
    (skipBlanks inComment text pos).rest.length ≤ text.length := by
  fun_induction skipBlanks inComment text pos <;> simp_all <;> omega

theorem length_takeClass_le (p : Char → Bool) (text : RawText) (pos : Position) :
    (takeClass p text pos).2.rest.length ≤ text.length :=
  (List.dropWhile_sublist _).length_le

theorem length_takeCharacter_le (text : RawText) (pos : Position) :
    (takeCharacter text pos).2.rest.length ≤ text.length := by
  fun_induction takeCharacter text pos <;> simp_all <;> omega

theorem length_scanCharacter_le (rest : RawText) (pos : Position) :
    (scanCharacter rest pos).2.rest.length ≤ rest.length := by
  have h := length_takeCharacter_le rest (pos.right 1)
  unfold scanCharacter
  split <;> simp_all

theorem length_scanLabelRef_le (rest : RawText) (pos : Position) :
    (scanLabelRef rest pos).2.rest.length ≤ rest.length := by
  have h := length_takeClass_le continuesWord rest (pos.right 1)
  unfold scanLabelRef
  split <;> simp_all

theorem length_scanTarget_le (target : Cursor) (pos : Position) :
    (scanTarget target pos).2.rest.length ≤ target.rest.length := by
  have h := length_takeClass_le continuesNumber target.rest target.pos
  have h' := length_takeClass_le continuesWord target.rest target.pos
  unfold scanTarget
  split
  · simp_all
  · split <;> simp_all

theorem length_scanWord_le (g : Glyph) (rest : RawText) (pos : Position) :
    (scanWord g rest pos).2.rest.length ≤ rest.length := by
  have h := length_takeClass_le continuesWord rest (pos.right 1)
  unfold scanWord
  generalize takeClass continuesWord rest (pos.right 1) = taken at h ⊢
  obtain ⟨name, ⟨text, place⟩⟩ := taken
  cases text with
  | nil => simp
  | cons next after =>
    simp only [List.length_cons] at h
    by_cases hn : next = .char ':' <;> simp [hn] <;> omega

/-- A token uses up its first piece. -/
theorem length_scanToken_le (g : Glyph) (rest : RawText) (pos : Position) :
    (scanToken g rest pos).2.rest.length ≤ rest.length := by
  unfold scanToken
  split; · simp
  split; · simp
  split; · simp
  split; · exact length_scanCharacter_le rest pos
  split; · exact length_scanLabelRef_le rest pos
  split
  · exact Nat.le_trans (length_scanTarget_le _ pos) (length_skipBlanks_le false rest _)
  split; · exact length_takeClass_le continuesWord rest (pos.right 1)
  split; · exact length_takeClass_le continuesNumber rest (pos.right 1)
  split; · exact length_scanWord_le g rest pos
  simp

/-! ### All tokens -/

/-- The token that marks the end of the source. -/
def eofToken (pos : Position) : Token := { kind := .eof, literal := [], pos }

/-- The tokens of the text from a place on. The last one, and no other, marks the end. -/
def tokensFrom (text : RawText) (pos : Position) : List Token :=
  match _h : skipBlanks false text pos with
  | ⟨[], stop⟩ => [eofToken stop]
  | ⟨g :: rest, start⟩ =>
    if g = .char '\x00' then [eofToken start]
    else (scanToken g rest start).1 ::
      tokensFrom (scanToken g rest start).2.rest (scanToken g rest start).2.pos
termination_by text.length
decreasing_by
  have := length_skipBlanks_le false text pos
  have := length_scanToken_le g rest start
  simp [_h] at *
  omega

/-- The tokens of a source. -/
def tokens (source : RawText) : List Token :=
  tokensFrom source ⟨1, 1⟩

end CellMachine
