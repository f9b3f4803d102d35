import CellMachine.Proofs.Source.Grammar

/-!
# Statements in writing

A statement is written with one blank behind its label and its operation and with a comma and a
blank between arguments. Read again, what was written falls into the tokens of the statement: each
of them ends where a blank, a comma or the end of the line follows, because none of these goes on
with a name or a number.

* `Lexes` — a text is read as given tokens, wherever it begins; texts one after the other are read
  as the tokens of both (`Lexes.append`).
* `lexes_word`, `lexes_number`, `lexes_literal`, … — the tokens, one kind after the other.
* `lexes_text` — **the text of a statement is read as the tokens of its line.**
-/

namespace CellMachine

/-! ### What follows a token -/

/-- A text that begins with a blank, with a comma or at the end of a line, or is empty. -/
def Breaks (rest : RawText) : Prop :=
  ∀ g ∈ rest.head?, g = .char ' ' ∨ g = .char ',' ∨ g = .char '\n'

/-- The end of the text is a break. -/
theorem breaks_nil : Breaks [] := fun _ h => nomatch h

/-- A break begins with no character of a class that these characters are not in. -/
theorem Breaks.not_headIs {rest : RawText} (h : Breaks rest) {p : Char → Bool}
    (hblank : p ' ' = false) (hcomma : p ',' = false) (hline : p '\n' = false) :
    headIs p rest = false := by
  cases rest with
  | nil => rfl
  | cons g rest =>
    rcases h g rfl with rfl | rfl | rfl
    · exact hblank
    · exact hcomma
    · exact hline

/-- A break ends a number. -/
theorem Breaks.number {rest : RawText} (hrest : Breaks rest) :
    headIs continuesNumber rest = false :=
  hrest.not_headIs (by decide) (by decide) (by decide)

/-- A break ends a name. -/
theorem Breaks.word {rest : RawText} (hrest : Breaks rest) : headIs continuesWord rest = false :=
  hrest.not_headIs (by decide) (by decide) (by decide)

/-- No colon follows at a break. -/
theorem Breaks.ne_colon {g : Glyph} {rest : RawText} (h : Breaks (g :: rest)) :
    g ≠ .char ':' := by
  rcases h g rfl with rfl | rfl | rfl <;> decide

/-- A piece is none of the characters that are not in its class. -/
theorem ne_of_class {p : Char → Bool} {g : Glyph} {c : Char} (h : p g.read = true)
    (hc : p c = false) : g ≠ .char c := by
  rintro rfl
  rw [show p (Glyph.char c).read = p c from rfl, hc] at h
  cases h

/-- What is of a class is taken, up to a piece that is not. -/
theorem takeClass_append {p : Char → Bool} {w rest : RawText} (hw : ∀ g ∈ w, p g.read = true)
    (hrest : headIs p rest = false) (pos : Position) :
    takeClass p (w ++ rest) pos = (w, ⟨rest, pos.right w.length⟩) := by
  have htake : rest.takeWhile (fun g => p g.read) = [] := by
    cases rest with
    | nil => rfl
    | cons g rest => exact List.takeWhile_cons_of_neg (by simpa [headIs_cons] using hrest)
  have hdrop : rest.dropWhile (fun g => p g.read) = rest := by
    cases rest with
    | nil => rfl
    | cons g rest => exact List.dropWhile_cons_of_neg (by simpa [headIs_cons] using hrest)
  unfold takeClass
  rw [List.takeWhile_append_of_pos hw, List.dropWhile_append_of_pos hw, htake, hdrop,
    List.append_nil]

/-! ### Tokens at the beginning of a text -/

/-- A piece that is no blank and begins neither a comment nor the end of the source. -/
def Shows (g : Glyph) : Prop :=
  g ≠ .char ' ' ∧ g ≠ .char '\t' ∧ g ≠ .char '\r' ∧ g ≠ .char ';' ∧ g ≠ .char '\x00'
  deriving Decidable

/-- A piece of a class without blanks shows. -/
theorem shows_of_class {p : Char → Bool} {g : Glyph} (h : p g.read = true)
    (hp : p ' ' = false ∧ p '\t' = false ∧ p '\r' = false ∧ p ';' = false ∧ p '\x00' = false) :
    Shows g :=
  ⟨ne_of_class h hp.1, ne_of_class h hp.2.1, ne_of_class h hp.2.2.1, ne_of_class h hp.2.2.2.1,
    ne_of_class h hp.2.2.2.2⟩

/-- Nothing is left out before a piece that shows. -/
theorem Shows.skipBlanks {g : Glyph} (h : Shows g) (rest : RawText) (pos : Position) :
    skipBlanks false (g :: rest) pos = ⟨g :: rest, pos⟩ := by
  obtain ⟨hblank, htab, hreturn, hcomment, -⟩ := h
  simp [CellMachine.skipBlanks, hblank, htab, hreturn, hcomment]

/-- Tokens depend on what is behind the blanks. -/
theorem tokensFrom_congr {a b : RawText} {p q : Position}
    (h : skipBlanks false a p = skipBlanks false b q) : tokensFrom a p = tokensFrom b q := by
  rcases hskip : skipBlanks false b q with ⟨rest, start⟩
  rw [hskip] at h
  cases rest with
  | nil => rw [tokensFrom_of_end h, tokensFrom_of_end hskip]
  | cons g rest =>
    by_cases hg : g = .char '\x00'
    · subst hg
      rw [tokensFrom_of_nul h, tokensFrom_of_nul hskip]
    · rw [tokensFrom_of_token h hg, tokensFrom_of_token hskip hg]

/-- A text is read as the given tokens, wherever it begins, if `rest` is behind it. -/
def Lexes (text : RawText) (ps : List Lexeme) (rest : RawText) : Prop :=
  ∀ pos, ∃ ts pos', ts.map Token.lexeme = ps ∧
    tokensFrom (text ++ rest) pos = ts ++ tokensFrom rest pos'

/-- Texts one after the other are read as the tokens of both. -/
theorem Lexes.append {a b rest : RawText} {ps qs : List Lexeme} (ha : Lexes a ps (b ++ rest))
    (hb : Lexes b qs rest) : Lexes (a ++ b) (ps ++ qs) rest := by
  intro pos
  obtain ⟨ts, pos₁, hts, hfirst⟩ := ha pos
  obtain ⟨us, pos₂, hus, hsecond⟩ := hb pos₁
  refine ⟨ts ++ us, pos₂, ?_, ?_⟩
  · rw [List.map_append, hts, hus]
  · rw [List.append_assoc, hfirst, hsecond, List.append_assoc]

/-- A blank is no token. -/
theorem lexes_blank (rest : RawText) : Lexes [.char ' '] [] rest := by
  intro pos
  exact ⟨[], pos.right 1, rfl, tokensFrom_congr rfl⟩

/-- A token is read from a text that begins with a piece that shows. -/
theorem lexes_token {g : Glyph} {more rest : RawText} {kind : TokenKind} {literal : RawText}
    (hg : Shows g) (h : ∀ pos, ∃ pos', scanToken g (more ++ rest) pos =
      (⟨kind, literal, pos⟩, ⟨rest, pos'⟩)) : Lexes (g :: more) [(kind, literal)] rest := by
  intro pos
  obtain ⟨pos', hscan⟩ := h pos
  refine ⟨[⟨kind, literal, pos⟩], pos', rfl, ?_⟩
  rw [List.cons_append, tokensFrom_of_token (hg.skipBlanks _ pos) hg.2.2.2.2, hscan]
  rfl

/-! ### The kinds of tokens -/

/-- What can start a name begins one. -/
theorem scanToken_of_startsWord {g : Glyph} (h : startsWord g.read = true) (rest : RawText)
    (pos : Position) : scanToken g rest pos = scanWord g rest pos := by
  have hdot : ¬(g = .char '.' ∧ headIs startsWord rest = true) := fun hd =>
    ne_of_class h (by decide) hd.1
  have hnumber : ¬(g.read.isDigit = true ∨
      (g = .char '-' ∨ g = .char '+') ∧ headIs Char.isDigit rest = true) := by
    rintro (hdigit | ⟨hminus | hplus, -⟩)
    · rw [not_isDigit_of_startsWord h] at hdigit
      cases hdigit
    · exact ne_of_class h (by decide) hminus
    · exact ne_of_class h (by decide) hplus
  unfold scanToken
  rw [if_neg (ne_of_class h (by decide)), if_neg (ne_of_class h (by decide)),
    if_neg (ne_of_class h (by decide)), if_neg (ne_of_class h (by decide)),
    if_neg (ne_of_class h (by decide)), if_neg (ne_of_class h (by decide)), if_neg hdot,
    if_neg hnumber, if_pos h]

/-- A digit begins a number. -/
theorem scanToken_of_isDigit {g : Glyph} (h : g.read.isDigit = true) (rest : RawText)
    (pos : Position) : scanToken g rest pos = scanNumber g rest pos := by
  have hdot : ¬(g = .char '.' ∧ headIs startsWord rest = true) := fun hd =>
    ne_of_class (p := Char.isDigit) h (by decide) hd.1
  have hne : ∀ c : Char, c.isDigit = false → g ≠ .char c := fun c hc => ne_of_class h hc
  unfold scanToken
  rw [if_neg (hne _ (by decide)), if_neg (hne _ (by decide)), if_neg (hne _ (by decide)),
    if_neg (hne _ (by decide)), if_neg (hne _ (by decide)), if_neg (hne _ (by decide)),
    if_neg hdot, if_pos (.inl h)]

/-- A sign before a digit begins a number. -/
theorem scanToken_of_sign {g : Glyph} (h : g = .char '-' ∨ g = .char '+') {rest : RawText}
    (hrest : headIs Char.isDigit rest = true) (pos : Position) :
    scanToken g rest pos = scanNumber g rest pos := by
  rcases h with rfl | rfl
  · simp [scanToken, hrest]
  · simp [scanToken, hrest]

variable {w rest : RawText}

/-- A name has a first piece, which can start it. -/
theorem RawText.IsWord.exists_cons (hw : w.IsWord) :
    ∃ g more, w = g :: more ∧ startsWord g.read = true := by
  cases w with
  | nil => cases hw.starts
  | cons g more => exact ⟨g, more, rfl, hw.starts⟩

/-- What starts a name shows. -/
theorem shows_of_startsWord {g : Glyph} (h : startsWord g.read = true) : Shows g :=
  shows_of_class h (by decide)

/-- **A name** is read as one where it ends. -/
theorem lexes_word (hw : w.IsWord) (hrest : Breaks rest) : Lexes w [(.ident, w)] rest := by
  obtain ⟨g, more, rfl, hg⟩ := hw.exists_cons
  refine lexes_token (shows_of_startsWord hg) ?_
  intro pos
  refine ⟨(pos.right 1).right more.length, ?_⟩
  have htake := takeClass_append (fun g' hg' => hw.goesOn g' (List.mem_cons_of_mem g hg'))
    hrest.word (pos.right 1)
  rw [scanToken_of_startsWord hg]
  simp only [scanWord, htake]
  cases rest with
  | nil => rfl
  | cons next after => simp only [if_neg hrest.ne_colon]

/-- **The definition of a label** is read as one, whatever follows. -/
theorem lexes_label (hw : w.IsWord) (rest : RawText) :
    Lexes (w ++ [.char ':']) [(.label, w)] rest := by
  obtain ⟨g, more, rfl, hg⟩ := hw.exists_cons
  rw [List.cons_append]
  refine lexes_token (shows_of_startsWord hg) ?_
  intro pos
  refine ⟨((pos.right 1).right more.length).right 1, ?_⟩
  have hcolon : headIs continuesWord (.char ':' :: rest) = false := by
    rw [headIs_cons]
    decide
  have htake := takeClass_append (fun g' hg' => hw.goesOn g' (List.mem_cons_of_mem g hg')) hcolon
    (pos.right 1)
  rw [List.append_assoc, List.singleton_append, scanToken_of_startsWord hg]
  simp only [scanWord, htake, if_true]

/-- Digits have a first piece, which is one. -/
theorem RawText.IsDigits.exists_cons (hw : w.IsDigits) :
    ∃ g more, w = g :: more ∧ g.read.isDigit = true := by
  cases w with
  | nil => cases hw.starts
  | cons g more => exact ⟨g, more, rfl, hw.starts⟩

/-- What begins a text is the beginning of a longer one. -/
theorem headIs_append {p : Char → Bool} (h : headIs p w = true) (rest : RawText) :
    headIs p (w ++ rest) = true := by
  cases w with
  | nil => cases h
  | cons g more => exact h

/-- **A number** is read as one where it ends. -/
theorem lexes_number (hw : w.IsNumber) (hrest : Breaks rest) : Lexes w [(.number, w)] rest := by
  cases hw with
  | plain hdigits =>
    obtain ⟨g, more, rfl, hg⟩ := hdigits.exists_cons
    refine lexes_token (shows_of_class (p := Char.isDigit) hg (by decide)) ?_
    intro pos
    refine ⟨(pos.right 1).right more.length, ?_⟩
    have htake := takeClass_append (fun g' hg' => hdigits.goesOn g' (List.mem_cons_of_mem g hg'))
      hrest.number (pos.right 1)
    rw [scanToken_of_isDigit hg]
    simp only [scanNumber, htake]
  | @signed g w hg hdigits =>
    have hshows : Shows g := by
      rcases hg with rfl | rfl <;> decide
    refine lexes_token hshows ?_
    intro pos
    refine ⟨(pos.right 1).right w.length, ?_⟩
    have htake := takeClass_append hdigits.goesOn hrest.number (pos.right 1)
    rw [scanToken_of_sign hg (headIs_append hdigits.starts rest)]
    simp only [scanNumber, htake]

/-- A character literal is taken up to its closing quote. -/
theorem takeCharacter_append {body : RawText} (h : body.IsLiteralRest) (rest : RawText) :
    ∀ pos, ∃ pos', takeCharacter (body ++ rest) pos = (some body, ⟨rest, pos'⟩) := by
  induction h with
  | close =>
    intro pos
    exact ⟨pos.right 1, takeCharacter_close rest pos⟩
  | @escaped g body _ ih =>
    intro pos
    obtain ⟨pos', htaken⟩ := ih ((pos.right 1).after g.read)
    refine ⟨pos', ?_⟩
    rw [List.cons_append, List.cons_append, takeCharacter_escaped, htaken]
    rfl
  | plain hback hquote hend _ ih =>
    intro pos
    obtain ⟨pos', htaken⟩ := ih (pos.right 1)
    refine ⟨pos', ?_⟩
    rw [List.cons_append, takeCharacter_plain hback hquote, if_neg hend, htaken]
    rfl

/-- **A character literal** is read as one, whatever follows. -/
theorem lexes_literal {body : RawText} (h : body.IsLiteralRest) (rest : RawText) :
    Lexes (.char '\'' :: body) [(.character, .char '\'' :: body)] rest := by
  refine lexes_token (by decide) ?_
  intro pos
  obtain ⟨pos', htaken⟩ := takeCharacter_append h rest (pos.right 1)
  refine ⟨pos', ?_⟩
  show scanCharacter (body ++ rest) pos = _
  simp only [scanCharacter, htaken]

/-- **The use of a label** is read as one where its name ends. -/
theorem lexes_labelRef (hw : w.IsWord) (hrest : Breaks rest) :
    Lexes (.char ':' :: w) [(.labelRef, w)] rest := by
  refine lexes_token (by decide) ?_
  intro pos
  refine ⟨(pos.right 1).right w.length, ?_⟩
  show scanLabelRef (w ++ rest) pos = _
  unfold scanLabelRef
  rw [if_pos (headIs_append hw.starts rest), takeClass_append hw.goesOn hrest.word]

/-- **A location** is read as one where its name or its digits end. -/
theorem lexes_location (hw : w.IsWord ∨ w.IsDigits) (hrest : Breaks rest) :
    Lexes (.char '&' :: w) [(.address, w)] rest := by
  refine lexes_token (by decide) ?_
  intro pos
  refine ⟨(pos.right 1).right w.length, ?_⟩
  show scanTarget (skipBlanks false (w ++ rest) (pos.right 1)) pos = _
  rcases hw with hword | hdigits
  · obtain ⟨g, more, rfl, hg⟩ := hword.exists_cons
    have hdigit : ¬headIs Char.isDigit (g :: more ++ rest) = true := by
      rw [List.cons_append, headIs_cons, not_isDigit_of_startsWord hg]
      decide
    rw [List.cons_append, (shows_of_startsWord hg).skipBlanks, ← List.cons_append]
    unfold scanTarget
    rw [if_neg hdigit, if_pos (headIs_append hword.starts rest),
      takeClass_append hword.goesOn hrest.word]
  · obtain ⟨g, more, rfl, hg⟩ := hdigits.exists_cons
    rw [List.cons_append, (shows_of_class (p := Char.isDigit) hg (by decide)).skipBlanks,
      ← List.cons_append]
    unfold scanTarget
    rw [if_pos (headIs_append hdigits.starts rest),
      takeClass_append hdigits.goesOn hrest.number]

/-- **A directive** is read as one where its name ends. -/
theorem lexes_directive (hw : w.IsWord) (hrest : Breaks rest) :
    Lexes (.char '.' :: w) [(.directive, .char '.' :: w)] rest := by
  refine lexes_token (by decide) ?_
  intro pos
  refine ⟨(pos.right 1).right w.length, ?_⟩
  have hscan : scanToken (.char '.') (w ++ rest) pos = scanDirective (w ++ rest) pos := by
    simp [scanToken, headIs_append hw.starts rest]
  rw [hscan]
  simp only [scanDirective, takeClass_append hw.goesOn hrest.word]

/-- A comma is a token. -/
theorem lexes_comma (rest : RawText) : Lexes [.char ','] [(.comma, [.char ','])] rest :=
  lexes_token (by decide) fun pos => ⟨pos.right 1, rfl⟩

/-- An exclamation mark is a token. -/
theorem lexes_bang (rest : RawText) : Lexes [.char '!'] [(.bang, [.char '!'])] rest :=
  lexes_token (by decide) fun pos => ⟨pos.right 1, rfl⟩

/-! ### The parts of a line -/

/-- A text that begins with one of three characters breaks. -/
theorem breaks_cons {g : Glyph} (h : g = .char ' ' ∨ g = .char ',' ∨ g = .char '\n')
    (rest : RawText) : Breaks (g :: rest) := by
  intro g' hg'
  cases hg'
  exact h

variable {ps : List Lexeme}

/-- The text of an argument is read as its tokens. -/
theorem lexes_arg {text : RawText} (h : ArgTokens ps text) (hrest : Breaks rest) :
    Lexes text ps rest := by
  cases h with
  | number hw => exact lexes_number hw hrest
  | character hbody => exact lexes_literal hbody rest
  | word hw => exact lexes_word hw hrest
  | label hw => exact lexes_labelRef hw hrest
  | location hw => exact lexes_location hw hrest
  | notWord hw => exact (lexes_bang _).append (lexes_word hw hrest)
  | notNumber hw => exact (lexes_bang _).append (lexes_number hw hrest)

/-- The texts of arguments, with commas and blanks between them, are read as their tokens. -/
theorem lexes_args {texts : List RawText} (h : ArgsTokens ps texts) (hrest : Breaks rest) :
    Lexes ((RawText.ofString ", ").intercalate texts) ps rest := by
  induction h with
  | last harg =>
    rw [List.intercalate_singleton]
    exact lexes_arg harg hrest
  | @more ps qs text texts harg hargs ih =>
    have hcons : texts ≠ [] := by
      cases hargs <;> simp
    have hbreak : Breaks (.char ',' :: .char ' ' :: ((RawText.ofString ", ").intercalate texts ++
        rest)) := breaks_cons (.inr (.inl rfl)) _
    rw [List.intercalate_cons_of_ne_nil hcons, List.append_assoc]
    -- the comma ends the argument before it, and the blank behind it is no token
    exact (lexes_arg harg hbreak).append ((lexes_comma _).append ((lexes_blank _).append ih))

/-- Texts one after the other. -/
theorem RawText.ofString_append (s t : String) :
    RawText.ofString (s ++ t) = RawText.ofString s ++ RawText.ofString t := by
  simp [RawText.ofString]

/-- The token of an operation is written as it stands. -/
theorem IsOp.ofString_read {kind : TokenKind} (h : IsOp kind w) :
    RawText.ofString w.read = w := by
  cases h with
  | word hw => exact hw.ofString_read
  | @directive name hname =>
    have hread : RawText.read (.char '.' :: name) = "." ++ name.read := by
      simp [RawText.read, Glyph.read]
    rw [hread, RawText.ofString_append, hname.ofString_read]
    rfl

/-- The token of an operation is read back. -/
theorem IsOp.lexes {kind : TokenKind} (h : IsOp kind w) (hrest : Breaks rest) :
    Lexes w [(kind, w)] rest := by
  cases h with
  | word hw => exact lexes_word hw hrest
  | directive hname => exact lexes_directive hname hrest

/-- The text of an operation is read as its tokens. -/
theorem lexes_opText {op : String} {args : List Arg} (h : OpTokens ps op (args.map Arg.text))
    (hrest : Breaks rest) : Lexes (Statement.opText op args) ps rest := by
  generalize htexts : args.map Arg.text = texts at h
  unfold Statement.opText
  cases h with
  | bare hop =>
    rw [List.map_eq_nil_iff.mp htexts, if_pos List.isEmpty_nil, hop.ofString_read]
    exact hop.lexes hrest
  | @applied _ w _ _ hop hargs =>
    have hcons : ¬args.isEmpty = true := by
      intro hempty
      rw [List.isEmpty_iff.mp hempty] at htexts
      subst htexts
      cases hargs
    rw [if_neg hcons, RawText.ofString_append, hop.ofString_read, htexts, List.append_assoc]
    exact (hop.lexes (breaks_cons (.inl rfl) _)).append
      ((lexes_blank _).append (lexes_args hargs hrest))

/-- **The text of a statement is read as the tokens of its line.** -/
theorem lexes_text {st : Statement} (h : LineTokens ps st.label? st.op? (st.args.map Arg.text))
    (hrest : Breaks rest) : Lexes st.text ps rest := by
  generalize htexts : st.args.map Arg.text = texts at h
  unfold Statement.text
  cases hlabel : st.label? with
  | none =>
    cases hop : st.op? with
    | none =>
      rw [hlabel, hop] at h
      cases h
    | some op =>
      rw [hlabel, hop] at h
      cases h with
      | plain htokens => exact lexes_opText (htexts ▸ htokens) hrest
  | some label =>
    cases hop : st.op? with
    | none =>
      rw [hlabel, hop] at h
      cases h with
      | label hw =>
        simp only [RawText.ofString_append, hw.ofString_read]
        exact lexes_label hw rest
    | some op =>
      rw [hlabel, hop] at h
      cases h with
      | @labelled w _ _ _ hw htokens =>
        have hlabel : RawText.ofString (w.read ++ ": ") = w ++ [.char ':'] ++ [.char ' '] := by
          rw [RawText.ofString_append, hw.ofString_read, List.append_assoc]
          rfl
        simp only [hlabel]
        rw [List.append_assoc]
        exact (lexes_label hw _).append
          ((lexes_blank _).append (lexes_opText (htexts ▸ htokens) hrest))

end CellMachine
