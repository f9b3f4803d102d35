import CellMachine.Source.Lexer
import Mathlib.Data.List.TakeWhile

/-!
# How tokens are spelled

A token of a source is spelled in one of a few ways: a name begins with a letter and goes on with
letters, digits and dots; a number begins with a digit, perhaps behind a sign; a character literal
ends with the first quote that no backslash stands before. `Token.Spelled` says this of a token, and
every token of a source is spelled so.

* `startsWord_of_low`, `exists_char_of_read` — which characters are in which class.
* `RawText.IsWord`, `RawText.IsDigits`, `RawText.IsNumber`, `RawText.IsLiteralRest` — the spellings.
* `takeCharacter_induction` — what is taken as a character literal, piece by piece.
* `scanToken_cases` — the first piece decides what a token is.
* `scanToken_spelled` — one token is spelled as its kind demands.
* `tokensFrom_spelled` — **so is every token of a text.**
-/

namespace CellMachine

/-! ### Classes of characters -/

/-- No letter comes before `A`. -/
theorem isLetter_of_low {c : Char} (h : c.toNat < 65) : Text.isLetter c = false :=
  if_pos h

/-- Before `A` only `$` starts a name. -/
theorem startsWord_of_low {c : Char} (h : c.toNat < 65) (hdollar : c ≠ '$') :
    startsWord c = false := by
  have hline : c ≠ '_' := by
    rintro rfl
    exact absurd h (by decide)
  simp [startsWord, isLetter_of_low h, hdollar, hline]

/-- A digit comes before `A`. -/
theorem low_of_isDigit {c : Char} (h : c.isDigit = true) : c.toNat < 65 := by
  simp only [Char.isDigit, Bool.and_eq_true, decide_eq_true_eq] at h
  exact Nat.lt_of_le_of_lt (UInt32.le_iff_toNat_le.mp h.2) (by decide)

/-- A digit starts no name. -/
theorem not_isDigit_of_startsWord {c : Char} (h : startsWord c = true) : c.isDigit = false := by
  by_contra hdigit
  have hdigit : c.isDigit = true := by simpa using hdigit
  have hdollar : c ≠ '$' := by
    rintro rfl
    exact absurd hdigit (by decide)
  rw [startsWord_of_low (low_of_isDigit hdigit) hdollar] at h
  cases h

/-- A stray byte is in no class of characters that does without the replacement character. -/
theorem exists_char_of_read {p : Char → Bool} (hp : p '\uFFFD' = false) {g : Glyph}
    (h : p g.read = true) : ∃ c, g = .char c := by
  cases g with
  | char c => exact ⟨c, rfl⟩
  | stray byte =>
    have hread : p '\uFFFD' = true := h
    rw [hp] at hread
    cases hread

/-- The replacement character goes on with no name. -/
theorem continuesWord_replacement : continuesWord '\uFFFD' = false := by decide +kernel

/-- The class of a text's head, in terms of its first piece. -/
theorem headIs_cons (p : Char → Bool) (g : Glyph) (text : RawText) :
    headIs p (g :: text) = p g.read := rfl

namespace RawText

/-! ### Spellings -/

/-- A name. -/
structure IsWord (w : RawText) : Prop where
  starts : headIs startsWord w = true
  goesOn : ∀ g ∈ w, continuesWord g.read = true

/-- Digits, with what may stand among and behind them. -/
structure IsDigits (w : RawText) : Prop where
  starts : headIs Char.isDigit w = true
  goesOn : ∀ g ∈ w, continuesNumber g.read = true

/-- A number: digits, perhaps behind a sign. -/
inductive IsNumber : RawText → Prop
  | plain {w : RawText} : w.IsDigits → IsNumber w
  | signed {g : Glyph} {w : RawText} :
    g = .char '-' ∨ g = .char '+' → w.IsDigits → IsNumber (g :: w)

/-- A character literal from after its opening quote on. -/
inductive IsLiteralRest : RawText → Prop
  | close : IsLiteralRest [.char '\'']
  | escaped (g : Glyph) {body : RawText} :
    IsLiteralRest body → IsLiteralRest (.char '\\' :: g :: body)
  | plain {g : Glyph} {body : RawText} : g ≠ .char '\\' → g ≠ .char '\'' →
    ¬(g = .char '\n' ∨ g = .char '\x00') → IsLiteralRest body → IsLiteralRest (g :: body)

/-- A name holds no stray byte, so nothing is lost when it is read. -/
theorem IsWord.ofString_read {w : RawText} (h : w.IsWord) : ofString w.read = w := by
  have hchars : ∀ g ∈ w, Glyph.char g.read = g := by
    intro g hg
    obtain ⟨c, rfl⟩ := exists_char_of_read continuesWord_replacement (h.goesOn g hg)
    rfl
  simp only [ofString, read, String.toList_ofList, List.map_map]
  exact (List.map_congr_left hchars).trans (List.map_id w)

end RawText

open RawText

/-- A token is spelled as its kind demands. -/
def Token.Spelled (t : Token) : Prop :=
  match t.kind with
  | .number => t.literal.IsNumber
  | .character => ∃ body : RawText, t.literal = .char '\'' :: body ∧ body.IsLiteralRest
  | .ident | .label | .labelRef => t.literal.IsWord
  | .directive => ∃ name : RawText, t.literal = .char '.' :: name ∧ name.IsWord
  | .address => t.literal.IsWord ∨ t.literal.IsDigits
  | .comma => t.literal = [.char ',']
  | .bang => t.literal = [.char '!']
  | .newline | .eof | .bad => True

/-! ### What is taken from a text -/

/-- What is taken of a class begins as the text does. -/
theorem headIs_takeWhile {p q : Char → Bool} (hpq : ∀ c, q c = true → p c = true) {text : RawText}
    (h : headIs q text = true) : headIs q (text.takeWhile fun g => p g.read) = true := by
  cases text with
  | nil => exact h
  | cons g rest =>
    have hg : p g.read = true := hpq g.read h
    rw [List.takeWhile_cons, if_pos hg]
    exact h

/-- What starts a name goes on with one. -/
theorem continuesWord_of_startsWord (c : Char) (h : startsWord c = true) :
    continuesWord c = true := by
  simp [continuesWord, h]

/-- A digit goes on with a number. -/
theorem continuesNumber_of_isDigit (c : Char) (h : c.isDigit = true) :
    continuesNumber c = true := by
  simp [continuesNumber, h]

/-- All that is taken of a class belongs to it. -/
theorem of_mem_takeWhile {p : Char → Bool} {text : RawText} {g : Glyph}
    (h : g ∈ text.takeWhile fun g => p g.read) : p g.read = true :=
  List.mem_takeWhile_imp (p := fun g : Glyph => p g.read) h

/-- A name is taken from a text that begins with one. -/
theorem isWord_takeClass {text : RawText} (h : headIs startsWord text = true) (pos : Position) :
    (takeClass continuesWord text pos).1.IsWord :=
  ⟨headIs_takeWhile continuesWord_of_startsWord h, fun _ => of_mem_takeWhile⟩

/-- Digits are taken from a text that begins with one. -/
theorem isDigits_takeClass {text : RawText} (h : headIs Char.isDigit text = true)
    (pos : Position) : (takeClass continuesNumber text pos).1.IsDigits :=
  ⟨headIs_takeWhile continuesNumber_of_isDigit h, fun _ => of_mem_takeWhile⟩

/-- A backslash takes the next character along. -/
theorem takeCharacter_escaped (g : Glyph) (rest : RawText) (pos : Position) :
    takeCharacter (.char '\\' :: g :: rest) pos =
      ((takeCharacter rest ((pos.right 1).after g.read)).1.map fun body => .char '\\' :: g :: body,
        (takeCharacter rest ((pos.right 1).after g.read)).2) := by
  rw [takeCharacter]

/-- A quote ends a character literal. -/
theorem takeCharacter_close (rest : RawText) (pos : Position) :
    takeCharacter (.char '\'' :: rest) pos = (some [.char '\''], ⟨rest, pos.right 1⟩) := by
  simp [takeCharacter]

/-- Any other character is taken if it ends neither the line nor the source. -/
theorem takeCharacter_plain {g : Glyph} (hback : g ≠ .char '\\') (hquote : g ≠ .char '\'')
    (rest : RawText) (pos : Position) :
    takeCharacter (g :: rest) pos =
      if g = .char '\n' ∨ g = .char '\x00' then (none, ⟨g :: rest, pos⟩)
      else ((takeCharacter rest (pos.right 1)).1.map fun body => g :: body,
        (takeCharacter rest (pos.right 1)).2) := by
  rw [takeCharacter, if_neg hquote]
  · intro h
    exact absurd h hback
  · intro _ _ h
    exact absurd h hback

/-- A piece is no backslash if it is none at the end of the text and none before other pieces. -/
theorem ne_backslash {g : Glyph} {rest : RawText} (halone : g = .char '\\' → rest = [] → False)
    (hbefore : ∀ next after, g = .char '\\' → rest = next :: after → False) :
    g ≠ .char '\\' := by
  intro hback
  cases rest with
  | nil => exact halone hback rfl
  | cons next after => exact hbefore next after hback rfl

/-- **What is taken as a character literal**, by the pieces of the text: the literal if there is
one, and the cursor behind what was taken. -/
theorem takeCharacter_induction {P : RawText → Position → Option RawText × Cursor → Prop}
    (ended : ∀ pos, P [] pos (none, ⟨[], pos⟩))
    (alone : ∀ pos, P [.char '\\'] pos (none, ⟨[], pos.right 2⟩))
    (escaped : ∀ g rest pos body? cursor, P rest ((pos.right 1).after g.read) (body?, cursor) →
      P (.char '\\' :: g :: rest) pos
        (body?.map fun body => .char '\\' :: g :: body, cursor))
    (close : ∀ rest pos, P (.char '\'' :: rest) pos (some [.char '\''], ⟨rest, pos.right 1⟩))
    (stopped : ∀ g rest pos, g = .char '\n' ∨ g = .char '\x00' →
      P (g :: rest) pos (none, ⟨g :: rest, pos⟩))
    (plain : ∀ g rest pos body? cursor, g ≠ .char '\\' → g ≠ .char '\'' →
      ¬(g = .char '\n' ∨ g = .char '\x00') → P rest (pos.right 1) (body?, cursor) →
      P (g :: rest) pos (body?.map fun body => g :: body, cursor))
    (text : RawText) (pos : Position) : P text pos (takeCharacter text pos) := by
  induction text, pos using takeCharacter.induct with
  | case1 pos => exact ended pos
  | case2 pos => exact alone pos
  | case3 g rest pos body? cursor _ ih =>
    rw [takeCharacter_escaped]
    exact escaped g rest pos _ _ ih
  | case4 rest pos =>
    rw [takeCharacter_close]
    exact close rest pos
  | case5 g rest pos halone hbefore hquote hend =>
    rw [takeCharacter_plain (ne_backslash halone hbefore) hquote, if_pos hend]
    exact stopped g rest pos hend
  | case6 g rest pos halone hbefore hquote hend body? cursor _ ih =>
    have hback := ne_backslash halone hbefore
    rw [takeCharacter_plain hback hquote, if_neg hend]
    exact plain g rest pos _ _ hback hquote hend ih

/-- What is taken as a character literal is the rest of one. -/
theorem isLiteralRest_takeCharacter {text body : RawText} {pos : Position}
    (h : (takeCharacter text pos).1 = some body) : body.IsLiteralRest := by
  revert body
  induction text, pos using takeCharacter_induction with
  | ended pos | alone pos | stopped g rest pos hend => exact fun h => nomatch h
  | escaped g rest pos body? cursor ih =>
    intro body h
    obtain ⟨inner, hinner, rfl⟩ := Option.map_eq_some_iff.mp h
    exact .escaped g (ih hinner)
  | close rest pos =>
    intro body h
    cases h
    exact .close
  | plain g rest pos body? cursor hback hquote hend ih =>
    intro body h
    obtain ⟨inner, hinner, rfl⟩ := Option.map_eq_some_iff.mp h
    exact .plain hback hquote hend (ih hinner)

/-! ### Tokens -/

/-- **The first piece decides what a token is**, at most together with the one behind it. -/
theorem scanToken_cases {P : Token × Cursor → Prop} (g : Glyph) (rest : RawText) (pos : Position)
    (newline : g = .char '\n' → P (⟨.newline, [g], pos⟩, ⟨rest, pos.after '\n'⟩))
    (comma : g = .char ',' → P (⟨.comma, [g], pos⟩, ⟨rest, pos.right 1⟩))
    (bang : g = .char '!' → P (⟨.bang, [g], pos⟩, ⟨rest, pos.right 1⟩))
    (quote : g = .char '\'' → P (scanCharacter rest pos))
    (colon : g = .char ':' → P (scanLabelRef rest pos))
    (ampersand : g = .char '&' → P (scanTarget (skipBlanks false rest (pos.right 1)) pos))
    (dot : g = .char '.' → headIs startsWord rest = true → P (scanDirective rest pos))
    (number : g ≠ .char '\n' → g.read.isDigit = true ∨
      (g = .char '-' ∨ g = .char '+') ∧ headIs Char.isDigit rest = true → P (scanNumber g rest pos))
    (word : g ≠ .char '\n' → startsWord g.read = true → P (scanWord g rest pos))
    (other : g ≠ .char '\n' → P (.bad ("unexpected character " ++ String.ofList [g.read]) pos,
      ⟨rest, pos.right 1⟩)) :
    P (scanToken g rest pos) := by
  unfold scanToken
  by_cases hline : g = .char '\n'
  · rw [if_pos hline]
    exact newline hline
  rw [if_neg hline]
  by_cases hcomma : g = .char ','
  · rw [if_pos hcomma]
    exact comma hcomma
  rw [if_neg hcomma]
  by_cases hbang : g = .char '!'
  · rw [if_pos hbang]
    exact bang hbang
  rw [if_neg hbang]
  by_cases hquote : g = .char '\''
  · rw [if_pos hquote]
    exact quote hquote
  rw [if_neg hquote]
  by_cases hcolon : g = .char ':'
  · rw [if_pos hcolon]
    exact colon hcolon
  rw [if_neg hcolon]
  by_cases hampersand : g = .char '&'
  · rw [if_pos hampersand]
    exact ampersand hampersand
  rw [if_neg hampersand]
  by_cases hdot : g = .char '.' ∧ headIs startsWord rest = true
  · rw [if_pos hdot]
    exact dot hdot.1 hdot.2
  rw [if_neg hdot]
  by_cases hnumber : g.read.isDigit = true ∨
      (g = .char '-' ∨ g = .char '+') ∧ headIs Char.isDigit rest = true
  · rw [if_pos hnumber]
    exact number hline hnumber
  rw [if_neg hnumber]
  by_cases hword : startsWord g.read = true
  · rw [if_pos hword]
    exact word hline hword
  · rw [if_neg hword]
    exact other hline

/-- A character literal is spelled as one. -/
theorem scanCharacter_spelled (rest : RawText) (pos : Position) :
    (scanCharacter rest pos).1.Spelled := by
  unfold scanCharacter
  split
  · next body cursor htaken =>
    exact ⟨body, rfl, isLiteralRest_takeCharacter (by rw [htaken])⟩
  · trivial

/-- The use of a label is spelled as a name. -/
theorem scanLabelRef_spelled (rest : RawText) (pos : Position) :
    (scanLabelRef rest pos).1.Spelled := by
  unfold scanLabelRef
  split
  · next hstarts => exact isWord_takeClass hstarts (pos.right 1)
  · trivial

/-- A location is spelled as a name or as digits. -/
theorem scanTarget_spelled (target : Cursor) (pos : Position) :
    (scanTarget target pos).1.Spelled := by
  unfold scanTarget
  split
  · next hdigit => exact .inr (isDigits_takeClass hdigit target.pos)
  · split
    · next hstarts => exact .inl (isWord_takeClass hstarts target.pos)
    · trivial

/-- A number is spelled as one. -/
theorem scanNumber_spelled {g : Glyph} {rest : RawText} (pos : Position)
    (h : g.read.isDigit = true ∨
      (g = .char '-' ∨ g = .char '+') ∧ headIs Char.isDigit rest = true) :
    (scanNumber g rest pos).1.Spelled := by
  rcases h with hdigit | ⟨hsign, hdigit⟩
  · refine .plain ⟨hdigit, ?_⟩
    intro g' hg'
    rcases List.mem_cons.mp hg' with rfl | htaken
    · exact continuesNumber_of_isDigit _ hdigit
    · exact of_mem_takeWhile htaken
  · exact .signed hsign (isDigits_takeClass hdigit (pos.right 1))

/-- A name and the definition of a label are spelled as names. -/
theorem scanWord_spelled {g : Glyph} (hg : startsWord g.read = true) (rest : RawText)
    (pos : Position) : (scanWord g rest pos).1.Spelled := by
  have hword : RawText.IsWord (g :: (takeClass continuesWord rest (pos.right 1)).1) := by
    refine ⟨hg, ?_⟩
    intro g' hg'
    rcases List.mem_cons.mp hg' with rfl | htaken
    · exact continuesWord_of_startsWord _ hg
    · exact of_mem_takeWhile htaken
  simp only [scanWord]
  split
  · exact hword
  · split
    · exact hword
    · exact hword

/-- **One token is spelled as its kind demands.** -/
theorem scanToken_spelled (g : Glyph) (rest : RawText) (pos : Position) :
    (scanToken g rest pos).1.Spelled := by
  apply scanToken_cases (P := fun scanned => scanned.1.Spelled)
  case newline => exact fun _ => trivial
  case comma => exact fun hcomma => congrArg (fun g => [g]) hcomma
  case bang => exact fun hbang => congrArg (fun g => [g]) hbang
  case quote => exact fun _ => scanCharacter_spelled rest pos
  case colon => exact fun _ => scanLabelRef_spelled rest pos
  case ampersand => exact fun _ => scanTarget_spelled _ pos
  case dot => exact fun _ hstarts => ⟨_, rfl, isWord_takeClass hstarts (pos.right 1)⟩
  case number => exact fun _ hnumber => scanNumber_spelled pos hnumber
  case word => exact fun _ hstarts => scanWord_spelled hstarts rest pos
  case other => exact fun _ => trivial

/-! ### All tokens -/

/-- Where nothing but blanks is left, the source ends. -/
theorem tokensFrom_of_end {text : RawText} {pos stop : Position}
    (h : skipBlanks false text pos = ⟨[], stop⟩) : tokensFrom text pos = [eofToken stop] := by
  rw [tokensFrom]
  split <;> simp_all

/-- The character U+0000 ends the source. -/
theorem tokensFrom_of_nul {text rest : RawText} {pos start : Position}
    (h : skipBlanks false text pos = ⟨.char '\x00' :: rest, start⟩) :
    tokensFrom text pos = [eofToken start] := by
  rw [tokensFrom]
  split <;> simp_all

/-- Anything else behind blanks begins a token. -/
theorem tokensFrom_of_token {text rest : RawText} {pos start : Position} {g : Glyph}
    (h : skipBlanks false text pos = ⟨g :: rest, start⟩) (hg : g ≠ .char '\x00') :
    tokensFrom text pos = (scanToken g rest start).1 ::
      tokensFrom (scanToken g rest start).2.rest (scanToken g rest start).2.pos := by
  rw [tokensFrom]
  split
  · simp_all
  · next g' rest' start' h' =>
    rw [h] at h'
    cases h'
    rw [if_neg hg]

/-- **The tokens of a text are spelled as their kinds demand.** -/
theorem tokensFrom_spelled (text : RawText) (pos : Position) :
    ∀ t ∈ tokensFrom text pos, t.Spelled := by
  induction text, pos using tokensFrom.induct with
  | case1 text pos stop hskip =>
    rw [tokensFrom_of_end hskip]
    intro t ht
    obtain rfl := List.mem_singleton.mp ht
    trivial
  | case2 text pos rest start hskip =>
    rw [tokensFrom_of_nul hskip]
    intro t ht
    obtain rfl := List.mem_singleton.mp ht
    trivial
  | case3 text pos g rest start hskip hg ih =>
    rw [tokensFrom_of_token hskip hg]
    intro t ht
    rcases List.mem_cons.mp ht with rfl | hrest
    · exact scanToken_spelled g rest start
    · exact ih t hrest

end CellMachine
