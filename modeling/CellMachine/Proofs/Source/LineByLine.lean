import CellMachine.Proofs.Source.Consumption
import CellMachine.Proofs.Source.Displacement
import CellMachine.Proofs.Source.Listing
import Mathlib.Data.List.Basic

/-!
# Sources are read line by line

The end of a line is a token, and no token goes beyond it, unless a backslash in a character literal
takes it along. So the tokens of a line are the same alone and in a longer text, and the next line
is read as a text of its own that begins further down. What is read from the tokens of a line is
nothing, one statement or one fault, and a fault is reported at one of them.

* `Cursor.followedBy` and the lemmas named after it — every part of the reader of tokens stops at
  the end of the line, whatever stands behind it.
* `Inline`, `IsLine` — a text within a line and its tokens; `exists_isLine` — it has them alone and
  in a longer text, by induction over the tokens.
* `exists_readLine` — a line with tokens gives one result, which stands at one of them.
* `WholeLines`, `readLines_append` — whole lines are read for themselves, by induction over the
  lines.
* `parseLines_line_by_line` — **sources are read line by line.**
-/

namespace CellMachine

/-! ### The end of a line -/

/-- The cursor in a longer text, which goes on with the end of the line and with `more`. -/
def Cursor.followedBy (more : RawText) (c : Cursor) : Cursor :=
  { c with rest := c.rest ++ .char '\n' :: more }

variable (more : RawText)

/-- Blanks and comments are left out up to the end of the line. -/
theorem skipBlanks_followedBy (inComment : Bool) (text : RawText) (pos : Position) :
    skipBlanks inComment (text ++ .char '\n' :: more) pos =
      (skipBlanks inComment text pos).followedBy more := by
  induction text generalizing inComment pos with
  | nil => cases inComment <;> rfl
  | cons g text ih =>
    cases inComment with
    | true =>
      rw [List.cons_append, skipBlanks, skipBlanks]
      split
      · rfl
      · exact ih true (pos.right 1)
    | false =>
      rw [List.cons_append, skipBlanks, skipBlanks]
      split; · exact ih false (pos.right 1)
      split; · exact ih true (pos.right 1)
      rfl

/-- What begins a text is seen in it alone. -/
theorem headIs_followedBy {p : Char → Bool} (hp : p '\n' = false) (text : RawText) :
    headIs p (text ++ .char '\n' :: more) = headIs p text := by
  cases text with
  | nil => exact hp
  | cons g text => rfl

/-- What is taken of a class ends with the line. -/
theorem takeClass_followedBy {p : Char → Bool} (hp : p '\n' = false) (text : RawText)
    (pos : Position) :
    takeClass p (text ++ .char '\n' :: more) pos =
      Prod.map id (Cursor.followedBy more) (takeClass p text pos) := by
  have hline : ¬p (Glyph.char '\n').read = true := by
    rw [show p (Glyph.char '\n').read = p '\n' from rfl, hp]
    decide
  have htake : ∀ text : RawText, (text ++ .char '\n' :: more).takeWhile (fun g => p g.read) =
      text.takeWhile fun g => p g.read := by
    intro text
    induction text with
    | nil => exact List.takeWhile_cons_of_neg hline
    | cons g text ih => rw [List.cons_append, List.takeWhile_cons, List.takeWhile_cons, ih]
  have hdrop : ∀ text : RawText, (text ++ .char '\n' :: more).dropWhile (fun g => p g.read) =
      (text.dropWhile fun g => p g.read) ++ .char '\n' :: more := by
    intro text
    induction text with
    | nil => exact List.dropWhile_cons_of_neg hline
    | cons g text ih =>
      rw [List.cons_append, List.dropWhile_cons, List.dropWhile_cons]
      split
      · exact ih
      · rfl
  unfold takeClass
  rw [htake, hdrop]
  rfl

/-- A character literal ends with the line, if no backslash takes the end of the line along. -/
theorem takeCharacter_followedBy {text : RawText} (hback : .char '\\' ∉ text) (pos : Position) :
    takeCharacter (text ++ .char '\n' :: more) pos =
      Prod.map id (Cursor.followedBy more) (takeCharacter text pos) := by
  induction text generalizing pos with
  | nil => rw [List.nil_append, takeCharacter_plain (by decide) (by decide), if_pos (.inl rfl)]; rfl
  | cons g text ih =>
    rw [List.mem_cons, not_or] at hback
    have hg : g ≠ .char '\\' := Ne.symm hback.1
    by_cases hquote : g = .char '\''
    · subst hquote
      rw [List.cons_append, takeCharacter_close, takeCharacter_close]
      rfl
    · rw [List.cons_append, takeCharacter_plain hg hquote, takeCharacter_plain hg hquote]
      split
      · rfl
      · rw [ih hback.2]
        rfl

/-! ### Tokens end with their line -/

theorem scanCharacter_followedBy {rest : RawText} (hback : .char '\\' ∉ rest) (pos : Position) :
    scanCharacter (rest ++ .char '\n' :: more) pos =
      Prod.map id (Cursor.followedBy more) (scanCharacter rest pos) := by
  unfold scanCharacter
  rw [takeCharacter_followedBy more hback]
  rcases takeCharacter rest (pos.right 1) with ⟨_ | body, cursor⟩
  · rfl
  · rfl

theorem scanLabelRef_followedBy (rest : RawText) (pos : Position) :
    scanLabelRef (rest ++ .char '\n' :: more) pos =
      Prod.map id (Cursor.followedBy more) (scanLabelRef rest pos) := by
  unfold scanLabelRef
  rw [headIs_followedBy more (by decide), takeClass_followedBy more (by decide)]
  split
  · rfl
  · rfl

theorem scanTarget_followedBy (target : Cursor) (pos : Position) :
    scanTarget (target.followedBy more) pos =
      Prod.map id (Cursor.followedBy more) (scanTarget target pos) := by
  unfold scanTarget Cursor.followedBy
  simp only [headIs_followedBy more (p := Char.isDigit) (by decide),
    headIs_followedBy more (p := startsWord) (by decide),
    takeClass_followedBy more (p := continuesNumber) (by decide),
    takeClass_followedBy more (p := continuesWord) (by decide)]
  split
  · rfl
  · split
    · rfl
    · rfl

theorem scanWord_followedBy (g : Glyph) (rest : RawText) (pos : Position) :
    scanWord g (rest ++ .char '\n' :: more) pos =
      Prod.map id (Cursor.followedBy more) (scanWord g rest pos) := by
  simp only [scanWord, takeClass_followedBy more (p := continuesWord) (by decide)]
  rcases takeClass continuesWord rest (pos.right 1) with ⟨name, ⟨text, place⟩⟩
  cases text with
  | nil => rfl
  | cons next after =>
    simp only [Prod.map, Cursor.followedBy, List.cons_append]
    split
    · rfl
    · rfl

/-- One token is the same in a longer text. -/
theorem scanToken_followedBy (g : Glyph) {rest : RawText} (hback : .char '\\' ∉ rest)
    (pos : Position) :
    scanToken g (rest ++ .char '\n' :: more) pos =
      Prod.map id (Cursor.followedBy more) (scanToken g rest pos) := by
  have hdirective : scanDirective (rest ++ .char '\n' :: more) pos =
      Prod.map id (Cursor.followedBy more) (scanDirective rest pos) := by
    unfold scanDirective
    rw [takeClass_followedBy more (by decide)]
    rfl
  have hnumber : scanNumber g (rest ++ .char '\n' :: more) pos =
      Prod.map id (Cursor.followedBy more) (scanNumber g rest pos) := by
    unfold scanNumber
    rw [takeClass_followedBy more (by decide)]
    rfl
  unfold scanToken
  rw [headIs_followedBy more (by decide), headIs_followedBy more (by decide),
    skipBlanks_followedBy]
  refine ite_eq_map rfl ?_
  refine ite_eq_map rfl ?_
  refine ite_eq_map rfl ?_
  refine ite_eq_map (scanCharacter_followedBy more hback pos) ?_
  refine ite_eq_map (scanLabelRef_followedBy more rest pos) ?_
  refine ite_eq_map (scanTarget_followedBy more _ pos) ?_
  refine ite_eq_map hdirective ?_
  refine ite_eq_map hnumber ?_
  exact ite_eq_map (scanWord_followedBy more g rest pos) rfl

/-! ### Lines of text -/

/-- A text within a line, in which no U+0000 ends the source and no backslash takes the end of the
line along. -/
structure Inline (text : RawText) : Prop where
  line : .char '\n' ∉ text
  nul : .char '\x00' ∉ text
  backslash : .char '\\' ∉ text

/-- Part of such a text is one. -/
theorem Inline.of_append {a b : RawText} (h : Inline (a ++ b)) : Inline a ∧ Inline b := by
  obtain ⟨hline, hnul, hback⟩ := h
  rw [List.mem_append, not_or] at hline hnul hback
  exact ⟨⟨hline.1, hnul.1, hback.1⟩, ⟨hline.2, hnul.2, hback.2⟩⟩

/-- Such a text leads to no other line. -/
theorem Inline.through_line {text : RawText} (h : Inline text) (pos : Position) :
    (pos.through text).line = pos.line := by
  rw [Position.through_inline fun g hg hline => h.line (hline ▸ hg)]
  rfl

/-- A comment is all that is left of its line. -/
theorem skipBlanks_comment_nil {body : RawText} (h : ∀ g ∈ body, ¬g.EndsComment)
    (pos : Position) : (skipBlanks true body pos).rest = [] := by
  obtain ⟨taken, htext, -, -, hend⟩ := skipBlanks_comment body pos
  cases hrest : (skipBlanks true body pos).rest with
  | nil => rfl
  | cons g rest =>
    rw [hrest] at htext hend
    exact absurd (hend g rfl) (h g (htext ▸ List.mem_append_right taken (List.mem_cons_self ..)))

/-- Nothing is left of a line that is blank, or a comment only. -/
theorem skipBlanks_nil_iff (line : RawText) (pos : Position) :
    (skipBlanks false line pos).rest = [] ↔ IsGap [] line := by
  constructor
  · intro h
    obtain ⟨gap, htext, -, hgap⟩ := skipBlanks_gap line pos
    rw [h] at htext hgap
    rwa [htext, List.append_nil]
  · intro h
    induction h generalizing pos with
    | nothing => rfl
    | @blank g gap hblank _ ih =>
      rw [skipBlanks_blank hblank]
      exact ih (pos.right 1)
    | comment hbody _ => exact skipBlanks_comment_nil hbody (pos.right 1)

/-- The tokens of a line that ends at `stop`, wherever it stands. -/
structure IsLine (line : RawText) (pos : Position) (body : List Token) (stop : Position) :
    Prop where
  blank : body = [] ↔ IsGap [] line
  inside : ∀ t ∈ body, t.endsLine = false
  place : stop.line = pos.line ∧ ∀ t ∈ body, t.pos.line = pos.line
  alone : tokensFrom line pos = body ++ [eofToken stop]
  followed : ∀ more, tokensFrom (line ++ .char '\n' :: more) pos =
    body ++ ⟨.newline, [.char '\n'], stop⟩ :: tokensFrom more (stop.after '\n')

/-- A gap leaves a text of the same line behind it. -/
theorem Inline.behind_gap {line text : RawText} (h : Inline line) {pos start : Position}
    (hskip : skipBlanks false line pos = ⟨text, start⟩) :
    Inline text ∧ start.line = pos.line := by
  obtain ⟨gap, htext, hpos, -⟩ := skipBlanks_gap line pos
  rw [hskip] at htext hpos
  obtain ⟨hgap, hbehind⟩ := (htext ▸ h).of_append
  exact ⟨hbehind, (congrArg Position.line hpos).trans (hgap.through_line pos)⟩

/-- A token leaves a text of the same line behind it. -/
theorem Inline.behind_token {g : Glyph} {rest : RawText} (h : Inline (g :: rest)) (pos : Position) :
    Inline (scanToken g rest pos).2.rest ∧ (scanToken g rest pos).2.pos.line = pos.line := by
  have hback : .char '\\' ∉ rest := fun hmem => h.backslash (List.mem_cons_of_mem g hmem)
  -- a place is right where a text is left, so the end of the line is put behind
  obtain ⟨-, -, taken, hpasses, -⟩ := scanToken_madeOf g (rest ++ [.char '\n']) pos
  rw [scanToken_followedBy [] g hback pos] at hpasses
  have htext : rest = taken ++ (scanToken g rest pos).2.rest :=
    List.append_cancel_right (hpasses.text.trans (List.append_assoc ..).symm)
  have hpos : (scanToken g rest pos).2.pos = pos.through (g :: taken) :=
    hpasses.pos (by simp [Cursor.followedBy])
  rw [htext, ← List.cons_append] at h
  exact ⟨h.of_append.2, hpos ▸ h.of_append.1.through_line pos⟩

/-- What is left behind a gap is followed by the end of the line. -/
theorem skipBlanks_followed {line text : RawText} {pos start : Position}
    (hskip : skipBlanks false line pos = ⟨text, start⟩) (more : RawText) :
    skipBlanks false (line ++ .char '\n' :: more) pos = ⟨text ++ .char '\n' :: more, start⟩ := by
  rw [skipBlanks_followedBy, hskip]
  rfl

/-- A line without tokens. -/
theorem isLine_blank {line : RawText} {pos stop : Position} (hline : Inline line)
    (hskip : skipBlanks false line pos = ⟨[], stop⟩) : IsLine line pos [] stop where
  blank := iff_of_true rfl ((skipBlanks_nil_iff line pos).mp (by rw [hskip]))
  inside := List.forall_mem_nil _
  place := ⟨(hline.behind_gap hskip).2, List.forall_mem_nil _⟩
  alone := tokensFrom_of_end hskip
  followed := fun more => tokensFrom_of_token (skipBlanks_followed hskip more) (by decide)

/-- A line with a first token. -/
theorem isLine_token {line rest : RawText} {pos start stop : Position} {g : Glyph}
    {body : List Token} (hline : Inline line)
    (hskip : skipBlanks false line pos = ⟨g :: rest, start⟩)
    (h : IsLine (scanToken g rest start).2.rest (scanToken g rest start).2.pos body stop) :
    IsLine line pos ((scanToken g rest start).1 :: body) stop := by
  obtain ⟨htoken, hstart⟩ := hline.behind_gap hskip
  obtain ⟨⟨heof, hnewline⟩, hplace, -⟩ := scanToken_madeOf g rest start
  have hg : g ≠ .char '\n' := fun hg => htoken.line (hg ▸ List.mem_cons_self ..)
  have hnul : g ≠ .char '\x00' := fun hg => htoken.nul (hg ▸ List.mem_cons_self ..)
  have hback : .char '\\' ∉ rest := fun hmem => htoken.backslash (List.mem_cons_of_mem g hmem)
  have hbehind : (scanToken g rest start).2.pos.line = pos.line :=
    (htoken.behind_token start).2.trans hstart
  exact {
    blank := by
      refine iff_of_false (List.cons_ne_nil _ _) fun hblank => ?_
      rw [← skipBlanks_nil_iff line pos, hskip] at hblank
      cases hblank
    inside := by
      refine List.forall_mem_cons.mpr ⟨?_, h.inside⟩
      simpa [Token.endsLine, heof] using fun hkind => hg (hnewline hkind)
    place := by
      refine ⟨h.place.1.trans hbehind, List.forall_mem_cons.mpr ⟨?_, ?_⟩⟩
      · rw [hplace, hstart]
      · exact fun t ht => (h.place.2 t ht).trans hbehind
    alone := by
      rw [tokensFrom_of_token hskip hnul, h.alone]
      rfl
    followed := by
      intro more
      have hmore := skipBlanks_followed hskip more
      rw [List.cons_append] at hmore
      rw [tokensFrom_of_token hmore hnul, scanToken_followedBy more g hback]
      exact congrArg ((scanToken g rest start).1 :: ·) (h.followed more) }

/-- **A line has its tokens, whatever follows it.** -/
theorem exists_isLine {line : RawText} (hline : Inline line) (pos : Position) :
    ∃ body stop, IsLine line pos body stop := by
  induction line, pos using tokensFrom.induct with
  | case1 line pos stop hskip => exact ⟨[], stop, isLine_blank hline hskip⟩
  | case2 line pos rest start hskip =>
    exact absurd (List.mem_cons_self ..) (hline.behind_gap hskip).1.nul
  | case3 line pos g rest start hskip hg ih =>
    obtain ⟨body, stop, h⟩ := ih ((hline.behind_gap hskip).1.behind_token start).1
    exact ⟨_, stop, isLine_token hline hskip h⟩

/-! ### What is read from a line -/

/-- Where a statement or a fault stands. -/
def resultPos : Except PlacedFault Statement → Position
  | .ok st => st.pos
  | .error fault => fault.1

/-- **An argument stays within its line**: it leaves the last tokens of the line, or its fault is
reported at a token of the line. -/
theorem readArg_within (stop : Token) (ts : List Token) :
    match readArg stop ts with
    | .ok (_, rest) => rest <:+ ts
    | .error fault => ∃ t ∈ stop :: ts, fault.1 = t.pos := by
  cases ts with
  | nil => exact ⟨stop, List.mem_cons_self .., rfl⟩
  | cons t ts =>
    obtain ⟨kind, literal, pos⟩ := t
    cases kind with
    | number | character | ident | labelRef | address => exact List.suffix_cons ..
    -- what is negated is the next token, if there is one
    | bang =>
      cases ts with
      | nil => exact ⟨stop, List.mem_cons_self .., rfl⟩
      | cons u ts =>
        by_cases hkind : u.kind = .ident ∨ u.kind = .number
        · simp only [readArg, if_pos hkind]
          exact (List.suffix_cons u ts).trans (List.suffix_cons ..)
        · simp only [readArg, if_neg hkind]
          exact ⟨u, by simp, rfl⟩
    | eof | bad | newline | directive | label | comma =>
      exact ⟨_, List.mem_cons_of_mem stop (List.mem_cons_self ..), rfl⟩

/-- Faulty arguments are reported at a token of their line. -/
theorem readArgs_fault {stop : Token} {ts : List Token} {fault : PlacedFault}
    (h : readArgs stop ts = .error fault) : ∃ t ∈ stop :: ts, fault.1 = t.pos := by
  induction ts using readArgs.induct stop generalizing fault with
  | case1 ts fault' harg =>
    rw [readArgs_of_fault harg] at h
    cases h
    simpa [harg] using readArg_within stop ts
  | case2 ts arg harg =>
    rw [readArgs_of_last harg] at h
    cases h
  | case3 ts arg t rest harg hcomma ih =>
    rw [readArgs_of_more harg, if_pos hcomma] at h
    have hsuffix : t :: rest <:+ ts := by simpa [harg] using readArg_within stop ts
    cases hargs : readArgs stop rest with
    | ok args =>
      rw [hargs] at h
      cases h
    | error other =>
      rw [hargs] at h
      cases h
      obtain ⟨u, hu, hpos⟩ := ih hargs
      have hbehind : rest ⊆ ts := fun v hv => hsuffix.subset (List.mem_cons_of_mem t hv)
      exact ⟨u, List.cons_subset_cons stop hbehind hu, hpos⟩
  | case4 ts arg t rest harg hcomma =>
    rw [readArgs_of_more harg, if_neg hcomma] at h
    cases h
    have hsuffix : t :: rest <:+ ts := by simpa [harg] using readArg_within stop ts
    exact ⟨t, List.mem_cons_of_mem _ (hsuffix.subset (List.mem_cons_self ..)), rfl⟩

/-- What is read stands where the statement begins, or at a token. -/
theorem readOperation_pos (st : Statement) (stop : Token) (ts : List Token) :
    resultPos (readOperation st stop ts) = st.pos ∨
      ∃ t ∈ stop :: ts, resultPos (readOperation st stop ts) = t.pos := by
  cases ts with
  | nil => exact .inl rfl
  | cons t ts =>
    by_cases hkind : t.kind = .ident ∨ t.kind = .directive
    · rw [readOperation_of_op hkind]
      split
      · exact .inl rfl
      · cases hargs : readArgs stop ts with
        | ok args => exact .inl rfl
        | error fault =>
          obtain ⟨u, hu, hpos⟩ := readArgs_fault hargs
          exact .inr ⟨u, List.cons_subset_cons stop (List.subset_cons_self t ts) hu, hpos⟩
    · obtain ⟨kind, literal, pos⟩ := t
      refine .inr ⟨_, List.mem_cons_of_mem _ (List.mem_cons_self ..), ?_⟩
      cases kind with
      | ident => exact absurd (.inl rfl) hkind
      | directive => exact absurd (.inr rfl) hkind
      | eof | bad | newline | number | character | label | labelRef | address | comma | bang => rfl

/-- **A line with tokens gives one result, which stands at one of them.** -/
theorem exists_readLine {body : List Token} (hbody : body ≠ []) (stop : Token) :
    ∃ result, readLine (body, stop) = some result ∧
      ∃ t ∈ stop :: body, resultPos result = t.pos := by
  obtain ⟨t, rest, rfl⟩ := List.exists_cons_of_ne_nil hbody
  rw [readLine_cons]
  split
  · refine ⟨_, rfl, ?_⟩
    rcases readOperation_pos { pos := t.pos, label? := some t.literal.read } stop rest with
      hpos | ⟨u, hu, hpos⟩
    · exact ⟨t, by simp, hpos⟩
    · exact ⟨u, List.cons_subset_cons stop (List.subset_cons_self t rest) hu, hpos⟩
  · refine ⟨_, rfl, ?_⟩
    rcases readOperation_pos { pos := t.pos } stop (t :: rest) with hpos | hpos
    · exact ⟨t, by simp, hpos⟩
    · exact hpos

/-! ### Texts -/

/-- What one line says, and what the others say. -/
theorem filterMap_readLine (line : TokenLine) (lines : List TokenLine) :
    (line :: lines).filterMap readLine = (readLine line).toList ++ lines.filterMap readLine := by
  cases hparsed : readLine line with
  | none => exact List.filterMap_cons_none hparsed
  | some result => exact List.filterMap_cons_some hparsed

/-- What a line says, at the head of what a text says. -/
theorem IsLine.readLines_followed {line : RawText} {pos stop : Position} {body : List Token}
    (h : IsLine line pos body stop) (more : RawText) :
    readLines (line ++ .char '\n' :: more) pos =
      (readLine (body, ⟨.newline, [.char '\n'], stop⟩)).toList ++
        readLines more ⟨pos.line + 1, 1⟩ := by
  have hnext : stop.after '\n' = ⟨pos.line + 1, 1⟩ := by
    rw [← h.place.1]
    rfl
  unfold readLines
  rw [h.followed, tokenLines_append h.inside rfl, hnext, filterMap_readLine]

/-- What a line says alone. -/
theorem IsLine.readLines_alone {line : RawText} {pos stop : Position} {body : List Token}
    (h : IsLine line pos body stop) :
    readLines line pos = (readLine (body, eofToken stop)).toList := by
  unfold readLines
  rw [h.alone, tokenLines_append h.inside rfl, filterMap_readLine]
  exact List.append_nil _

/-- An empty text says nothing. -/
theorem readLines_nil (pos : Position) : readLines [] pos = [] := by
  unfold readLines
  rw [tokensFrom_of_end rfl]
  rfl

/-- A text of whole lines. -/
structure WholeLines (text : RawText) : Prop where
  ended : text = [] ∨ text.getLast? = some (.char '\n')
  nul : .char '\x00' ∉ text
  backslash : .char '\\' ∉ text

/-- The first of whole lines. -/
theorem WholeLines.exists_first {text : RawText} (h : WholeLines text) (hne : text ≠ []) :
    ∃ line more, text = line ++ .char '\n' :: more ∧ Inline line ∧ WholeLines more := by
  have hlast : text.getLast? = some (.char '\n') := h.ended.resolve_left hne
  obtain ⟨line, more, rfl, hline⟩ := List.eq_append_cons_of_mem (List.mem_of_getLast? hlast)
  have hnul := h.nul
  have hback := h.backslash
  rw [List.mem_append, List.mem_cons, not_or, not_or] at hnul hback
  refine ⟨line, more, rfl, ⟨hline, hnul.1, hback.1⟩, ⟨?_, hnul.2.2, hback.2.2⟩⟩
  cases more with
  | nil => exact .inl rfl
  | cons g more =>
    rw [List.getLast?_append_of_ne_nil _ (List.cons_ne_nil _ _), List.getLast?_cons_cons] at hlast
    exact .inr hlast

/-- **Whole lines say what they say alone, whatever follows**, and what follows says what it says
that many lines further down. -/
theorem readLines_append {a : RawText} (h : WholeLines a) (b : RawText) (k : Nat) :
    readLines (a ++ b) ⟨k, 1⟩ =
      readLines a ⟨k, 1⟩ ++ readLines b ⟨k + a.count (.char '\n'), 1⟩ := by
  induction hlength : a.length using Nat.strong_induction_on generalizing a k with
  | h length ih =>
    by_cases hne : a = []
    · subst hne
      rw [readLines_nil]
      rfl
    · obtain ⟨line, more, rfl, hline, hmore⟩ := h.exists_first hne
      obtain ⟨body, stop, hisLine⟩ := exists_isLine hline ⟨k, 1⟩
      have hrest := ih more.length (by simp [← hlength]; omega) hmore (k + 1) rfl
      have hcount : (line ++ .char '\n' :: more).count (.char '\n') =
          1 + more.count (.char '\n') := by
        rw [List.count_append, List.count_eq_zero.mpr hline.line, List.count_cons_self]
        omega
      rw [List.append_assoc, List.cons_append, hisLine.readLines_followed,
        hisLine.readLines_followed, hrest, hcount, List.append_assoc, Nat.add_assoc]

/-! ### Statements and faults -/

/-- The statements and the faults of lines one after the other. -/
theorem collect_append (xs ys : List (Except PlacedFault Statement)) :
    collect (xs ++ ys) =
      ((collect xs).1 ++ (collect ys).1, (collect xs).2 ++ (collect ys).2) := by
  induction xs with
  | nil => rfl
  | cons x xs ih =>
    cases x with
    | ok st => simp [collect, ih]
    | error fault => simp [collect, ih]

/-- What is reported of a fault: its place and its message. -/
def PlacedFault.report (fault : PlacedFault) : Position × String := (fault.1, fault.2.message)

/-- What the parser finds in a source is what its lines say. -/
theorem parseLines_eq_readLines (source : RawText) :
    parseLines source = collect (readLines source ⟨1, 1⟩) := parseLines_eq source

/-- Statements and faults of whole lines, and of what follows. -/
theorem parseLines_append {a : RawText} (h : WholeLines a) (b : RawText) :
    parseLines (a ++ b) =
      ((parseLines a).1 ++ (parseLines b).1.map (Statement.down (a.count (.char '\n'))),
        (parseLines a).2 ++ (parseLines b).2.map (PlacedFault.down (a.count (.char '\n')))) := by
  have hlines : readLines (a ++ b) ⟨1, 1⟩ = readLines a ⟨1, 1⟩ ++
      readLines b (Position.down (a.count (.char '\n')) ⟨1, 1⟩) := readLines_append h b 1
  rw [parseLines_eq_readLines, hlines, readLines_down, collect_append, collect_down,
    ← parseLines_eq_readLines, ← parseLines_eq_readLines]

/-- A line that is blank, or a comment only, is nothing; any other line is one statement or one
fault, on that line. -/
theorem parseLines_line {line : RawText} (hline : Inline line) {ending : RawText}
    (hending : ending = [] ∨ ending = [.char '\n']) :
    (IsGap [] line → parseLines (line ++ ending) = ([], [])) ∧
      (¬IsGap [] line →
        (∃ st, parseLines (line ++ ending) = ([st], []) ∧ st.pos.line = 1) ∨
        ∃ fault, parseLines (line ++ ending) = ([], [fault]) ∧ fault.1.line = 1) := by
  obtain ⟨body, stop, h⟩ := exists_isLine hline ⟨1, 1⟩
  obtain ⟨last, hlast, hread⟩ : ∃ last : Token, last.pos = stop ∧
      readLines (line ++ ending) ⟨1, 1⟩ = (readLine (body, last)).toList := by
    rcases hending with rfl | rfl
    · exact ⟨eofToken stop, rfl, by rw [List.append_nil, h.readLines_alone]⟩
    · exact ⟨_, rfl, by rw [h.readLines_followed, readLines_nil, List.append_nil]⟩
  have hparse : parseLines (line ++ ending) = collect (readLine (body, last)).toList :=
    (parseLines_eq_readLines _).trans (congrArg collect hread)
  refine ⟨?_, ?_⟩
  · intro hblank
    rw [hparse, h.blank.mpr hblank]
    rfl
  · intro hblank
    obtain ⟨result, hresult, t, ht, hpos⟩ := exists_readLine (mt h.blank.mp hblank) last
    have hplace : (resultPos result).line = 1 := by
      rw [hpos]
      rcases List.mem_cons.mp ht with rfl | hbody
      · exact hlast ▸ h.place.1
      · exact h.place.2 t hbody
    rw [hparse, hresult]
    cases result with
    | ok st => exact .inl ⟨st, rfl, hplace⟩
    | error fault => exact .inr ⟨fault, rfl, hplace⟩

/-- **Sources are read line by line.** Whole lines without U+0000 and without backslash give the
same statements and the same faults whatever follows them, and what follows gives its own, as many
lines further down as there are lines before it; everything else about them stays. And one line is
nothing if it is blank or a comment only, and otherwise exactly one statement or exactly one fault,
which stands on that line. -/
theorem parseLines_line_by_line :
    (∀ a b : RawText, WholeLines a →
      (parseLines (a ++ b)).1 =
        (parseLines a).1 ++ (parseLines b).1.map (Statement.down (a.count (.char '\n'))) ∧
      (parseLines (a ++ b)).2.map PlacedFault.report =
        (parseLines a).2.map PlacedFault.report ++
          (parseLines b).2.map fun fault =>
            (fault.1.down (a.count (.char '\n')), fault.2.message)) ∧
    ∀ line ending : RawText, Inline line → ending = [] ∨ ending = [.char '\n'] →
      (IsGap [] line → parseLines (line ++ ending) = ([], [])) ∧
        (¬IsGap [] line →
          (∃ st, parseLines (line ++ ending) = ([st], []) ∧ st.pos.line = 1) ∨
          ∃ fault, parseLines (line ++ ending) = ([], [fault]) ∧ fault.1.line = 1) := by
  refine ⟨?_, fun line ending hline hending => parseLines_line hline hending⟩
  intro a b h
  rw [parseLines_append h b]
  refine ⟨rfl, ?_⟩
  rw [List.map_append, List.map_map]
  refine congrArg ((parseLines a).2.map PlacedFault.report ++ ·) (List.map_congr_left ?_)
  intro fault _
  exact congrArg (fault.1.down (a.count (.char '\n')), ·) (LineFault.message_down _ fault.2)

/-- Whole lines: a statement, a blank line and a fault. -/
def wholeLines : RawText := RawText.ofString "x: NOP\n\nRET 5,\n"

/-- Lines behind them: a fault and a statement. -/
def laterLines : RawText := RawText.ofString "HALT HALT HALT ; twice\n  JREL :x"

/-- Each line is read for itself, and a comment alone is nothing. -/
theorem parseLines_line_by_line_sample :
    (parseLines (wholeLines ++ laterLines)).1 =
      (parseLines wholeLines).1 ++ (parseLines laterLines).1.map (Statement.down 3) ∧
    (parseLines (wholeLines ++ laterLines)).2.map PlacedFault.report =
      [(⟨3, 7⟩, "expected operand, got NEWLINE"),
        (⟨4, 11⟩, "unexpected IDENT(\"HALT\") at end of statement")] ∧
    parseLines (RawText.ofString "\t; RET" ++ [.char '\n']) = ([], []) ∧
    ∃ fault, parseLines (RawText.ofString "RET 5," ++ []) = ([], [fault]) ∧ fault.1.line = 1 := by
  obtain ⟨happend, hline⟩ := parseLines_line_by_line
  obtain ⟨hstatements, hfaults⟩ := happend wholeLines laterLines
    ⟨.inr (by decide), by decide, by decide⟩
  refine ⟨hstatements, ?_, ?_, ?_⟩
  · rw [hfaults]
    decide +kernel
  · have hcomment : IsGap [] (RawText.ofString "\t; RET") :=
      (skipBlanks_nil_iff _ ⟨1, 1⟩).mp (by decide +kernel)
    exact (hline _ _ ⟨by decide, by decide, by decide⟩ (.inr rfl)).1 hcomment
  · have hshown : ¬IsGap [] (RawText.ofString "RET 5,") :=
      mt (skipBlanks_nil_iff _ ⟨1, 1⟩).mpr (by decide +kernel)
    have hnone : (parseLines (RawText.ofString "RET 5," ++ [])).1 = [] := by decide +kernel
    refine ((hline _ _ ⟨by decide, by decide, by decide⟩ (.inl rfl)).2 hshown).resolve_left ?_
    rintro ⟨st, hst, -⟩
    rw [hst] at hnone
    cases hnone

end CellMachine
