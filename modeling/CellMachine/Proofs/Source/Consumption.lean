import CellMachine.Proofs.Source.Spelling

/-!
# What the reader of tokens takes from the text

The text is read from the left, token by token. One call leaves out a gap, which is blanks and
perhaps a comment up to the end of its line, and then takes the text of one token. Nothing else is
left out, and the place of a token is that of its first piece.

* `Position.through` — the place after a text.
* `IsGap` — what may be left out before a given rest.
* `Cursor.Passes` — the text between two cursors. A backslash at the very end counts as two columns,
  so a place is right only where a text is left.
* `Token.Takes` — the text that a token takes up, in terms of its literal.
* `scanToken_madeOf` — **one token takes up its first piece and the text up to the next cursor.**
* `Cursor.next`, `Cursor.Reads` — one call, and what it reads: a gap and the text of its token.
* `Scan`, `scan_tokensFrom` — **so do all calls**, from the beginning of the text to its end or to a
  U+0000.
-/

namespace CellMachine

/-! ### Places -/

namespace Position

/-- The place after a text. -/
def through (p : Position) (text : RawText) : Position :=
  text.foldl (fun q g => q.after g.read) p

@[simp] theorem through_cons (p : Position) (g : Glyph) (text : RawText) :
    p.through (g :: text) = (p.after g.read).through text := rfl

/-- One text after the other. -/
theorem through_append (p : Position) (a b : RawText) :
    p.through (a ++ b) = (p.through a).through b :=
  List.foldl_append

/-- Any piece but the end of a line is one column. -/
theorem after_of_ne {g : Glyph} (h : g ≠ .char '\n') (p : Position) :
    p.after g.read = p.right 1 := by
  have hread : g.read ≠ '\n' := by
    cases g with
    | char c => exact fun hc => h (congrArg Glyph.char hc)
    | stray byte => exact fun hc => absurd (show '\uFFFD' = '\n' from hc) (by decide)
  exact if_neg hread

/-- A text within a line is as many columns as it has pieces. -/
theorem through_inline {text : RawText} (h : ∀ g ∈ text, g ≠ .char '\n') (p : Position) :
    p.through text = p.right text.length := by
  induction text generalizing p with
  | nil => rfl
  | cons g text ih =>
    rw [through_cons, after_of_ne (h g (List.mem_cons_self ..)),
      ih fun g' hg' => h g' (List.mem_cons_of_mem g hg')]
    simp only [right, List.length_cons, Nat.add_assoc, Nat.add_comm 1]

end Position

/-! ### Gaps -/

/-- A blank. -/
def Glyph.IsBlank (g : Glyph) : Prop := g = .char ' ' ∨ g = .char '\t' ∨ g = .char '\r'

/-- What a comment does not go on with. -/
def Glyph.EndsComment (g : Glyph) : Prop := g = .char '\n' ∨ g = .char '\x00'

instance (g : Glyph) : Decidable g.IsBlank := inferInstanceAs (Decidable (_ ∨ _))

instance (g : Glyph) : Decidable g.EndsComment := inferInstanceAs (Decidable (_ ∨ _))

/-- What separates tokens before `rest`: blanks, and perhaps a comment that runs to the end of its
line. -/
inductive IsGap (rest : RawText) : RawText → Prop
  | nothing : IsGap rest []
  | blank {g : Glyph} {gap : RawText} : g.IsBlank → IsGap rest gap → IsGap rest (g :: gap)
  | comment {body : RawText} : (∀ g ∈ body, ¬g.EndsComment) →
    (∀ g ∈ rest.head?, g.EndsComment) → IsGap rest (.char ';' :: body)

/-- A blank is not the end of a line. -/
theorem Glyph.IsBlank.ne_newline {g : Glyph} (h : g.IsBlank) : g ≠ .char '\n' := by
  rcases h with rfl | rfl | rfl <;> decide

/-- A comment is taken up to the end of its line. -/
theorem skipBlanks_comment (text : RawText) (pos : Position) :
    ∃ body, text = body ++ (skipBlanks true text pos).rest ∧
      (skipBlanks true text pos).pos = pos.through body ∧ (∀ g ∈ body, ¬g.EndsComment) ∧
      ∀ g ∈ (skipBlanks true text pos).rest.head?, g.EndsComment := by
  induction text generalizing pos with
  | nil => exact ⟨[], rfl, rfl, List.forall_mem_nil _, fun _ h => nomatch h⟩
  | cons g text ih =>
    by_cases hend : g.EndsComment
    · have hskip : skipBlanks true (g :: text) pos = ⟨g :: text, pos⟩ := by
        rw [skipBlanks]
        exact if_pos hend
      rw [hskip]
      refine ⟨[], rfl, rfl, List.forall_mem_nil _, ?_⟩
      intro g' hg'
      cases hg'
      exact hend
    · have hskip : skipBlanks true (g :: text) pos = skipBlanks true text (pos.right 1) := by
        rw [skipBlanks]
        exact if_neg hend
      obtain ⟨body, htext, hpos, hbody, hrest⟩ := ih (pos.right 1)
      rw [hskip]
      refine ⟨g :: body, congrArg (g :: ·) htext, ?_, List.forall_mem_cons.mpr ⟨hend, hbody⟩,
        hrest⟩
      rw [hpos, Position.through_cons, Position.after_of_ne fun hline => hend (.inl hline)]

/-- A blank is left out. -/
theorem skipBlanks_blank {g : Glyph} (h : g.IsBlank) (text : RawText) (pos : Position) :
    skipBlanks false (g :: text) pos = skipBlanks false text (pos.right 1) := by
  rw [skipBlanks]
  exact if_pos h

/-- **What is left out before a token is a gap.** -/
theorem skipBlanks_gap (text : RawText) (pos : Position) :
    ∃ gap, text = gap ++ (skipBlanks false text pos).rest ∧
      (skipBlanks false text pos).pos = pos.through gap ∧
      IsGap (skipBlanks false text pos).rest gap := by
  induction text generalizing pos with
  | nil => exact ⟨[], rfl, rfl, .nothing⟩
  | cons g text ih =>
    by_cases hblank : g.IsBlank
    · obtain ⟨gap, htext, hpos, hgap⟩ := ih (pos.right 1)
      rw [skipBlanks_blank hblank]
      refine ⟨g :: gap, congrArg (g :: ·) htext, ?_, .blank hblank hgap⟩
      rw [hpos, Position.through_cons, Position.after_of_ne hblank.ne_newline]
    · by_cases hcomment : g = .char ';'
      · subst hcomment
        obtain ⟨body, htext, hpos, hbody, hrest⟩ := skipBlanks_comment text (pos.right 1)
        exact ⟨.char ';' :: body, congrArg (.char ';' :: ·) htext, hpos, .comment hbody hrest⟩
      · have hskip : skipBlanks false (g :: text) pos = ⟨g :: text, pos⟩ := by
          rw [skipBlanks, if_neg hcomment]
          exact if_neg hblank
        rw [hskip]
        exact ⟨[], rfl, rfl, .nothing⟩

/-! ### The text between two cursors -/

/-- The text `taken` lies between two cursors. -/
structure Cursor.Passes (c : Cursor) (taken : RawText) (after : Cursor) : Prop where
  text : c.rest = taken ++ after.rest
  pos : after.rest ≠ [] → after.pos = c.pos.through taken

/-- One text after the other. -/
theorem Cursor.Passes.trans {c d e : Cursor} {a b : RawText} (h : c.Passes a d)
    (h' : d.Passes b e) : c.Passes (a ++ b) e := by
  refine ⟨?_, ?_⟩
  · rw [h.text, h'.text, List.append_assoc]
  · intro hrest
    have hmiddle : d.rest ≠ [] := by
      rw [h'.text]
      exact List.append_ne_nil_of_right_ne_nil b hrest
    rw [h'.pos hrest, h.pos hmiddle, Position.through_append]

/-- One piece within a line. -/
theorem Cursor.passes_one {g : Glyph} (h : g ≠ .char '\n') (rest : RawText) (pos : Position) :
    Cursor.Passes ⟨g :: rest, pos⟩ [g] ⟨rest, pos.right 1⟩ :=
  ⟨rfl, fun _ => (Position.after_of_ne h pos).symm⟩

/-- What is taken of a class lies within a line. -/
theorem takeClass_passes {p : Char → Bool} (hp : p '\n' = false) (text : RawText)
    (pos : Position) :
    Cursor.Passes ⟨text, pos⟩ (takeClass p text pos).1 (takeClass p text pos).2 := by
  refine ⟨(List.takeWhile_append_dropWhile ..).symm, fun _ => (Position.through_inline ?_ pos).symm⟩
  rintro g hg rfl
  have hline : p '\n' = true := of_mem_takeWhile hg
  rw [hp] at hline
  cases hline

/-- A character literal is the text that is taken, and so is what is none. -/
theorem takeCharacter_passes (text : RawText) (pos : Position) :
    ∃ taken, Cursor.Passes ⟨text, pos⟩ taken (takeCharacter text pos).2 ∧
      ∀ body ∈ (takeCharacter text pos).1, body = taken := by
  induction text, pos using takeCharacter_induction with
  | ended pos =>
    exact ⟨[], ⟨rfl, fun h => absurd rfl h⟩, fun _ h => absurd h (Option.not_mem_none _)⟩
  | alone pos =>
    exact ⟨[.char '\\'], ⟨rfl, fun h => absurd rfl h⟩, fun _ h => absurd h (Option.not_mem_none _)⟩
  | escaped g rest pos body? cursor ih =>
    obtain ⟨taken, hpasses, hbody⟩ := ih
    have hescape : Cursor.Passes ⟨.char '\\' :: g :: rest, pos⟩ [.char '\\', g]
        ⟨rest, (pos.right 1).after g.read⟩ := ⟨rfl, fun _ => rfl⟩
    refine ⟨.char '\\' :: g :: taken, hescape.trans hpasses, ?_⟩
    intro body h
    obtain ⟨inner, hinner, rfl⟩ := Option.map_eq_some_iff.mp h
    rw [hbody inner hinner]
  | close rest pos =>
    refine ⟨[.char '\''], Cursor.passes_one (by decide) rest pos, ?_⟩
    intro body h
    exact (Option.some.inj h).symm
  | stopped g rest pos hend =>
    exact ⟨[], ⟨rfl, fun _ => rfl⟩, fun _ h => absurd h (Option.not_mem_none _)⟩
  | plain g rest pos body? cursor hback hquote hend ih =>
    obtain ⟨taken, hpasses, hbody⟩ := ih
    have hline : g ≠ .char '\n' := fun hline => hend (.inl hline)
    refine ⟨g :: taken, (Cursor.passes_one hline rest pos).trans hpasses, ?_⟩
    intro body h
    obtain ⟨inner, hinner, rfl⟩ := Option.map_eq_some_iff.mp h
    rw [hbody inner hinner]

/-! ### The text of a token -/

/-- The text that a token takes up. Text that is no token is taken up as well: what it is depends on
what was expected. -/
def Token.Takes (t : Token) (word : RawText) : Prop :=
  match t.kind with
  | .eof => word = []
  | .bad => True
  | .label => word = t.literal ++ [.char ':']
  | .labelRef => word = .char ':' :: t.literal
  | .address => ∃ gap, (∀ g ∈ gap, g.IsBlank) ∧ word = .char '&' :: (gap ++ t.literal)
  | .newline | .number | .character | .ident | .directive | .comma | .bang => word = t.literal

/-- The token `t` was made of the piece `g` at `pos` and of what lies between `rest` and the next
cursor. -/
structure Token.MadeOf (t : Token) (g : Glyph) (rest : RawText) (pos : Position)
    (after : Cursor) : Prop where
  kind : t.kind ≠ .eof ∧ (t.kind = .newline → g = .char '\n')
  place : t.pos = pos
  text : ∃ more, Cursor.Passes ⟨rest, pos.after g.read⟩ more after ∧ t.Takes (g :: more)

/-- A token of one piece. -/
theorem Token.madeOf_one {t : Token} {g : Glyph}
    (hkind : t.kind ≠ .eof ∧ (t.kind = .newline → g = .char '\n')) (htakes : t.Takes [g])
    (rest : RawText) : t.MadeOf g rest t.pos ⟨rest, t.pos.after g.read⟩ :=
  ⟨hkind, rfl, [], ⟨rfl, fun _ => rfl⟩, htakes⟩

/-- A character literal, and what is none, behind its opening quote. -/
theorem scanCharacter_madeOf (rest : RawText) (pos : Position) :
    (scanCharacter rest pos).1.MadeOf (.char '\'') rest pos (scanCharacter rest pos).2 := by
  obtain ⟨taken, hpasses, hbody⟩ := takeCharacter_passes rest (pos.right 1)
  unfold scanCharacter
  split
  · next body cursor htaken =>
    rw [htaken] at hpasses hbody
    refine ⟨by simp, rfl, taken, hpasses, ?_⟩
    rw [← hbody body rfl]
    rfl
  · next cursor htaken =>
    rw [htaken] at hpasses
    exact ⟨by simp [Token.bad], rfl, taken, hpasses, trivial⟩

/-- The use of a label, behind its colon. -/
theorem scanLabelRef_madeOf (rest : RawText) (pos : Position) :
    (scanLabelRef rest pos).1.MadeOf (.char ':') rest pos (scanLabelRef rest pos).2 := by
  unfold scanLabelRef
  split
  · exact ⟨by simp, rfl, _, takeClass_passes (by decide) rest (pos.right 1), rfl⟩
  · exact Token.madeOf_one (t := .bad _ pos) (by simp [Token.bad]) trivial rest

/-- There is no comment in a gap behind which something else than the end of its line follows. -/
theorem IsGap.blanks_of_headIs {p : Char → Bool} (hline : p '\n' = false)
    (hnul : p '\x00' = false) {rest gap : RawText} (h : IsGap rest gap)
    (hrest : headIs p rest = true) : ∀ g ∈ gap, g.IsBlank := by
  induction h with
  | nothing => exact List.forall_mem_nil _
  | blank hblank _ ih => exact List.forall_mem_cons.mpr ⟨hblank, ih⟩
  | comment _ hend =>
    cases rest with
    | nil => cases hrest
    | cons g rest =>
      rcases hend g rfl with rfl | rfl
      · cases hline.symm.trans hrest
      · cases hnul.symm.trans hrest

/-- A location, behind its ampersand. -/
theorem scanTarget_madeOf (rest : RawText) (pos : Position) :
    (scanTarget (skipBlanks false rest (pos.right 1)) pos).1.MadeOf (.char '&') rest pos
      (scanTarget (skipBlanks false rest (pos.right 1)) pos).2 := by
  obtain ⟨gap, htext, hpos, hgap⟩ := skipBlanks_gap rest (pos.right 1)
  generalize skipBlanks false rest (pos.right 1) = target at htext hpos hgap ⊢
  have hpasses : Cursor.Passes ⟨rest, pos.right 1⟩ gap target := ⟨htext, fun _ => hpos⟩
  unfold scanTarget
  split
  · next hdigit =>
    exact ⟨by simp, rfl, _, hpasses.trans (takeClass_passes (by decide) target.rest target.pos),
      gap, hgap.blanks_of_headIs (by decide) (by decide) hdigit, rfl⟩
  · split
    · next hstarts =>
      exact ⟨by simp, rfl, _, hpasses.trans (takeClass_passes (by decide) target.rest target.pos),
        gap, hgap.blanks_of_headIs (by decide) (by decide) hstarts, rfl⟩
    · exact ⟨by simp [Token.bad], rfl, gap, hpasses, trivial⟩

/-- A name and the definition of a label, behind the first letter. -/
theorem scanWord_madeOf {g : Glyph} (hg : g ≠ .char '\n') (rest : RawText) (pos : Position) :
    (scanWord g rest pos).1.MadeOf g rest pos (scanWord g rest pos).2 := by
  have hpasses := takeClass_passes (p := continuesWord) (by decide) rest (pos.right 1)
  have hright : pos.after g.read = pos.right 1 := Position.after_of_ne hg pos
  simp only [scanWord]
  split
  · refine ⟨by simp, rfl, _, ?_, rfl⟩
    rw [hright]
    exact hpasses
  · next next after hafter =>
    split
    · next hcolon =>
      subst hcolon
      have hone := Cursor.passes_one (g := .char ':') (by decide) after
        (takeClass continuesWord rest (pos.right 1)).2.pos
      rw [← hafter] at hone
      refine ⟨by simp, rfl, _, ?_, rfl⟩
      rw [hright]
      exact hpasses.trans hone
    · refine ⟨by simp, rfl, _, ?_, rfl⟩
      rw [hright]
      exact hpasses

/-- **One token is made of its first piece and of what lies behind it up to the next cursor.** -/
theorem scanToken_madeOf (g : Glyph) (rest : RawText) (pos : Position) :
    (scanToken g rest pos).1.MadeOf g rest pos (scanToken g rest pos).2 := by
  have hright : g ≠ .char '\n' → pos.after g.read = pos.right 1 :=
    fun hline => Position.after_of_ne hline pos
  apply scanToken_cases (P := fun scanned => scanned.1.MadeOf g rest pos scanned.2)
  case newline =>
    rintro rfl
    exact Token.madeOf_one (t := ⟨.newline, [.char '\n'], pos⟩) (by simp) rfl rest
  case comma =>
    rintro rfl
    exact Token.madeOf_one (t := ⟨.comma, [.char ','], pos⟩) (by simp) rfl rest
  case bang =>
    rintro rfl
    exact Token.madeOf_one (t := ⟨.bang, [.char '!'], pos⟩) (by simp) rfl rest
  case quote =>
    rintro rfl
    exact scanCharacter_madeOf rest pos
  case colon =>
    rintro rfl
    exact scanLabelRef_madeOf rest pos
  case ampersand =>
    rintro rfl
    exact scanTarget_madeOf rest pos
  case dot =>
    rintro rfl -
    exact ⟨by simp [scanDirective], rfl, _, takeClass_passes (by decide) rest (pos.right 1), rfl⟩
  case number =>
    intro hline _
    refine ⟨by simp [scanNumber], rfl, _, ?_, rfl⟩
    rw [hright hline]
    exact takeClass_passes (by decide) rest (pos.right 1)
  case word => exact fun hline _ => scanWord_madeOf hline rest pos
  case other =>
    intro hline
    exact hright hline ▸ Token.madeOf_one (t := .bad _ pos) (by simp [Token.bad]) trivial rest

/-! ### Calls -/

/-- One call: the next token, and the cursor behind it. At the end of the source every call gives
the token that marks it. -/
def Cursor.next (c : Cursor) : Token × Cursor :=
  match skipBlanks false c.rest c.pos with
  | ⟨[], stop⟩ => (eofToken stop, ⟨[], stop⟩)
  | ⟨g :: rest, start⟩ =>
    if g = .char '\x00' then (eofToken start, ⟨g :: rest, start⟩) else scanToken g rest start

/-- A call reads a gap and the text of its token. Only the mark of the end takes up no text. -/
structure Cursor.Reads (c : Cursor) (t : Token) (after : Cursor) : Prop where
  call : c.next = (t, after)
  text : ∃ gap word, c.rest = gap ++ (word ++ after.rest) ∧ IsGap (word ++ after.rest) gap ∧
    t.Takes word ∧ (word = [] ↔ t.kind = .eof) ∧ t.pos = c.pos.through gap ∧
    (after.rest ≠ [] → after.pos = t.pos.through word)

/-- The calls from a cursor on, up to the first that marks the end. It is the end of the text or a
U+0000. -/
inductive Scan : Cursor → List Token → Cursor → Prop
  | stop {c stop : Cursor} {t : Token} : c.Reads t stop → t.kind = .eof →
    (∀ g ∈ stop.rest.head?, g = .char '\x00') → Scan c [t] stop
  | token {c after stop : Cursor} {t : Token} {ts : List Token} : c.Reads t after →
    t.kind ≠ .eof → Scan after ts stop → Scan c (t :: ts) stop

/-- A call at the end. -/
theorem Cursor.reads_eof {c stop : Cursor} (h : skipBlanks false c.rest c.pos = stop)
    (hstop : ∀ g ∈ stop.rest.head?, g = .char '\x00') : c.Reads (eofToken stop.pos) stop := by
  obtain ⟨gap, htext, hpos, hgap⟩ := skipBlanks_gap c.rest c.pos
  rw [h] at htext hpos hgap
  refine ⟨?_, gap, [], htext, hgap, rfl, by simp [eofToken], hpos, fun _ => rfl⟩
  obtain ⟨rest, place⟩ := stop
  unfold next
  rw [h]
  cases rest with
  | nil => rfl
  | cons g rest => exact if_pos (hstop g rfl)

/-- A call before the end. -/
theorem Cursor.reads_token {c : Cursor} {g : Glyph} {rest : RawText} {start : Position}
    (h : skipBlanks false c.rest c.pos = ⟨g :: rest, start⟩) (hg : g ≠ .char '\x00') :
    c.Reads (scanToken g rest start).1 (scanToken g rest start).2 := by
  obtain ⟨gap, htext, hpos, hgap⟩ := skipBlanks_gap c.rest c.pos
  obtain ⟨hkind, hplace, more, hpasses, htakes⟩ := scanToken_madeOf g rest start
  have hrest : g :: rest = (g :: more) ++ (scanToken g rest start).2.rest :=
    congrArg (g :: ·) hpasses.text
  rw [h] at htext hpos hgap
  refine ⟨?_, gap, g :: more, ?_, hrest ▸ hgap, htakes, ?_, ?_, ?_⟩
  · unfold next
    rw [h]
    exact if_neg hg
  · rw [htext, ← hrest]
  · simp [hkind.1]
  · exact hplace.trans hpos
  · intro hmore
    rw [hplace, Position.through_cons]
    exact hpasses.pos hmore

/-- **The tokens of a text are those of one call after the other.** -/
theorem scan_tokensFrom (text : RawText) (pos : Position) :
    ∃ stop, Scan ⟨text, pos⟩ (tokensFrom text pos) stop := by
  induction text, pos using tokensFrom.induct with
  | case1 text pos stop hskip =>
    rw [tokensFrom_of_end hskip]
    have hstop : ∀ g ∈ ([] : RawText).head?, g = .char '\x00' :=
      fun _ h => absurd h (Option.not_mem_none _)
    exact ⟨⟨[], stop⟩, .stop (Cursor.reads_eof (c := ⟨text, pos⟩) hskip hstop) rfl hstop⟩
  | case2 text pos rest start hskip =>
    rw [tokensFrom_of_nul hskip]
    have hstop : ∀ g ∈ (Glyph.char '\x00' :: rest).head?, g = .char '\x00' :=
      fun g hg => (Option.some.inj hg).symm
    exact ⟨⟨.char '\x00' :: rest, start⟩,
      .stop (Cursor.reads_eof (c := ⟨text, pos⟩) hskip hstop) rfl hstop⟩
  | case3 text pos g rest start hskip hg ih =>
    obtain ⟨stop, hscan⟩ := ih
    rw [tokensFrom_of_token hskip hg]
    exact ⟨stop, .token (Cursor.reads_token (c := ⟨text, pos⟩) hskip hg)
      (scanToken_madeOf g rest start).kind.1 hscan⟩

end CellMachine
