import CellMachine.Proofs.Source.Consumption
import CellMachine.Proofs.Source.Listing

/-!
# How much of a source is read

Between the tokens of a source stand blanks and comments only, and every token takes up text. But
the character U+0000 is taken for the end of the text. It is part of a token only behind a backslash
in a character literal; anywhere else it ends the source, and what stands behind it is left unread,
even in a source that is accepted.

* `Zone` — where a piece of text stands: in code, in a comment, in a character literal or behind a
  backslash in one. This is told from the pieces alone.
* `NulsEscaped` — every U+0000 stands behind a backslash in a character literal.
* `Scan.nulsEscaped_iff` — the calls leave this as it is, one after the other.
* `tokens_cover` — **the tokens of a source and the gaps between them make up the source, up to a
  U+0000 that stands anywhere else.**
-/

namespace CellMachine

/-! ### Zones -/

/-- Where a piece of text stands. -/
inductive Zone
  | code
  | comment
  | literal
  /-- Behind a backslash in a character literal. -/
  | escaped
  deriving DecidableEq, Repr

/-- The zone behind a piece. -/
def Zone.next (z : Zone) (g : Glyph) : Zone :=
  match z with
  | .code => if g = .char '\'' then .literal else if g = .char ';' then .comment else .code
  | .comment => if g = .char '\n' then .code else .comment
  | .literal =>
    if g = .char '\\' then .escaped
    else if g = .char '\'' ∨ g = .char '\n' then .code
    else .literal
  | .escaped => .literal

/-- Every U+0000 stands behind a backslash in a character literal, in a text that begins in a given
zone. -/
def NulsEscaped (z : Zone) (text : RawText) : Prop :=
  ∀ front back, text = front ++ .char '\x00' :: back → front.foldl Zone.next z = .escaped

/-- In an empty text there is none. -/
theorem nulsEscaped_nil (z : Zone) : NulsEscaped z [] := fun front _ h => by
  cases front <;> cases h

/-- The first piece, and the text behind it. -/
theorem nulsEscaped_cons {z : Zone} {g : Glyph} {text : RawText} :
    NulsEscaped z (g :: text) ↔
      (g = .char '\x00' → z = .escaped) ∧ NulsEscaped (z.next g) text := by
  constructor
  · intro h
    refine ⟨?_, ?_⟩
    · rintro rfl
      exact h [] text rfl
    · intro front back htext
      exact h (g :: front) back (congrArg (g :: ·) htext)
  · rintro ⟨hfirst, hrest⟩ front back htext
    cases front with
    | nil =>
      cases htext
      exact hfirst rfl
    | cons g' front =>
      cases htext
      exact hrest front back rfl

/-- A piece behind which the zone is another one. -/
theorem nulsEscaped_step {z : Zone} {g : Glyph} (hg : g ≠ .char '\x00') {y : Zone}
    (hz : z.next g = y) (text : RawText) : NulsEscaped z (g :: text) ↔ NulsEscaped y text := by
  rw [nulsEscaped_cons, hz]
  exact and_iff_right fun h => absurd h hg

/-- Where a text begins with a U+0000, only the zone behind a backslash will do. -/
theorem not_nulsEscaped {z : Zone} (hz : z ≠ .escaped) (text : RawText) :
    ¬NulsEscaped z (.char '\x00' :: text) := fun h => hz (h [] text rfl)

/-- Pieces that begin neither a comment nor a literal are code. -/
theorem nulsEscaped_code {text : RawText}
    (h : ∀ g ∈ text, g ≠ .char '\x00' ∧ g ≠ .char '\'' ∧ g ≠ .char ';') (rest : RawText) :
    NulsEscaped .code (text ++ rest) ↔ NulsEscaped .code rest := by
  induction text with
  | nil => rfl
  | cons g text ih =>
    obtain ⟨hnul, hquote, hcomment⟩ := h g (List.mem_cons_self ..)
    have hnext : Zone.code.next g = .code := by
      simp [Zone.next, hquote, hcomment]
    rw [List.cons_append, nulsEscaped_step hnul hnext,
      ih fun g' hg' => h g' (List.mem_cons_of_mem g hg')]

/-- A comment is one up to the end of its line. -/
theorem nulsEscaped_comment {body rest : RawText} (hbody : ∀ g ∈ body, ¬g.EndsComment)
    (hrest : ∀ g ∈ rest.head?, g.EndsComment) :
    NulsEscaped .comment (body ++ rest) ↔ NulsEscaped .code rest := by
  induction body with
  | nil =>
    cases rest with
    | nil => exact iff_of_true (nulsEscaped_nil _) (nulsEscaped_nil _)
    | cons g rest =>
      rcases hrest g rfl with rfl | rfl
      · rw [List.nil_append, nulsEscaped_step (y := .code) (by decide) rfl,
          nulsEscaped_step (y := .code) (by decide) rfl]
      · exact iff_of_false (not_nulsEscaped (by decide) rest) (not_nulsEscaped (by decide) rest)
  | cons g body ih =>
    have hg : ¬g.EndsComment := hbody g (List.mem_cons_self ..)
    have hnext : Zone.comment.next g = .comment := if_neg fun hline => hg (.inl hline)
    rw [List.cons_append, nulsEscaped_step (fun hnul => hg (.inr hnul)) hnext,
      ih fun g' hg' => hbody g' (List.mem_cons_of_mem g hg')]

/-- A gap leaves code behind. -/
theorem IsGap.nulsEscaped_iff {gap rest : RawText} (h : IsGap rest gap) :
    NulsEscaped .code (gap ++ rest) ↔ NulsEscaped .code rest := by
  induction h with
  | nothing => rfl
  | @blank g gap hblank _ ih =>
    have hone : ∀ g' ∈ [g], g' ≠ .char '\x00' ∧ g' ≠ .char '\'' ∧ g' ≠ .char ';' := by
      rw [List.forall_mem_singleton]
      rcases hblank with rfl | rfl | rfl <;> decide
    exact (nulsEscaped_code hone (gap ++ rest)).trans ih
  | comment hbody hend =>
    rw [List.cons_append, nulsEscaped_step (y := .comment) (by decide) rfl]
    exact nulsEscaped_comment hbody hend

/-- What is taken of a class without quotes and comments is code. -/
theorem takeClass_nulsEscaped {p : Char → Bool}
    (hp : p '\x00' = false ∧ p '\'' = false ∧ p ';' = false) (text : RawText) (pos : Position) :
    NulsEscaped .code (takeClass p text pos).2.rest ↔ NulsEscaped .code text := by
  have htext : (takeClass p text pos).1 ++ (takeClass p text pos).2.rest = text :=
    List.takeWhile_append_dropWhile ..
  have hclass : ∀ g ∈ (takeClass p text pos).1,
      g ≠ .char '\x00' ∧ g ≠ .char '\'' ∧ g ≠ .char ';' := by
    intro g hg
    have hread : p g.read = true := of_mem_takeWhile hg
    refine ⟨?_, ?_, ?_⟩
    · rintro rfl
      cases hp.1.symm.trans hread
    · rintro rfl
      cases hp.2.1.symm.trans hread
    · rintro rfl
      cases hp.2.2.symm.trans hread
  rw [← nulsEscaped_code hclass, htext]

/-- A character literal, and what is none, leaves code behind. -/
theorem takeCharacter_nulsEscaped (text : RawText) (pos : Position) :
    NulsEscaped .code (takeCharacter text pos).2.rest ↔ NulsEscaped .literal text := by
  induction text, pos using takeCharacter_induction with
  | ended pos => exact iff_of_true (nulsEscaped_nil _) (nulsEscaped_nil _)
  | alone pos =>
    rw [nulsEscaped_step (y := .escaped) (by decide) rfl]
    exact iff_of_true (nulsEscaped_nil _) (nulsEscaped_nil _)
  | escaped g rest pos body? cursor ih =>
    rw [nulsEscaped_step (y := .escaped) (by decide) rfl, nulsEscaped_cons,
      and_iff_right fun _ => rfl]
    exact ih
  | close rest pos => rw [nulsEscaped_step (y := .code) (by decide) rfl]
  | stopped g rest pos hend =>
    rcases hend with rfl | rfl
    · rw [nulsEscaped_step (y := .code) (by decide) rfl,
        nulsEscaped_step (y := .code) (by decide) rfl]
    · exact iff_of_false (not_nulsEscaped (by decide) rest) (not_nulsEscaped (by decide) rest)
  | plain g rest pos body? cursor hback hquote hend ih =>
    have hnext : Zone.literal.next g = .literal := by
      simp [Zone.next, hback, hquote, show g ≠ .char '\n' from fun hline => hend (.inl hline)]
    rw [nulsEscaped_step (fun hnul => hend (.inr hnul)) hnext]
    exact ih

/-! ### Tokens -/

/-- A piece that begins neither a comment nor a literal is code. -/
theorem nulsEscaped_one {g : Glyph} (hnul : g ≠ .char '\x00') (hquote : g ≠ .char '\'')
    (hcomment : g ≠ .char ';') (rest : RawText) :
    NulsEscaped .code (g :: rest) ↔ NulsEscaped .code rest :=
  nulsEscaped_code (List.forall_mem_singleton.mpr ⟨hnul, hquote, hcomment⟩) rest

/-- A character literal, behind its opening quote. -/
theorem scanCharacter_nulsEscaped (rest : RawText) (pos : Position) :
    NulsEscaped .code (scanCharacter rest pos).2.rest ↔ NulsEscaped .literal rest := by
  rw [← takeCharacter_nulsEscaped rest (pos.right 1)]
  unfold scanCharacter
  split
  · next htaken => rw [htaken]
  · next htaken => rw [htaken]

/-- The use of a label, behind its colon. -/
theorem scanLabelRef_nulsEscaped (rest : RawText) (pos : Position) :
    NulsEscaped .code (scanLabelRef rest pos).2.rest ↔ NulsEscaped .code rest := by
  unfold scanLabelRef
  split
  · exact takeClass_nulsEscaped (by decide) rest (pos.right 1)
  · rfl

/-- A location, behind its ampersand. -/
theorem scanTarget_nulsEscaped (rest : RawText) (pos : Position) :
    NulsEscaped .code (scanTarget (skipBlanks false rest (pos.right 1)) pos).2.rest ↔
      NulsEscaped .code rest := by
  obtain ⟨gap, htext, -, hgap⟩ := skipBlanks_gap rest (pos.right 1)
  generalize skipBlanks false rest (pos.right 1) = target at htext hgap ⊢
  rw [htext, hgap.nulsEscaped_iff]
  unfold scanTarget
  split
  · exact takeClass_nulsEscaped (by decide) target.rest target.pos
  · split
    · exact takeClass_nulsEscaped (by decide) target.rest target.pos
    · rfl

/-- A name and the definition of a label, behind the first letter. -/
theorem scanWord_nulsEscaped (g : Glyph) (rest : RawText) (pos : Position) :
    NulsEscaped .code (scanWord g rest pos).2.rest ↔ NulsEscaped .code rest := by
  rw [← takeClass_nulsEscaped (p := continuesWord) (by decide) rest (pos.right 1)]
  simp only [scanWord]
  split
  · rfl
  · next next after hafter =>
    split
    · next hcolon =>
      rw [hafter, hcolon]
      exact (nulsEscaped_one (by decide) (by decide) (by decide) after).symm
    · rfl

/-- One token leaves code behind. -/
theorem scanToken_nulsEscaped {g : Glyph} (hnul : g ≠ .char '\x00') (hcomment : g ≠ .char ';')
    (rest : RawText) (pos : Position) :
    NulsEscaped .code (scanToken g rest pos).2.rest ↔ NulsEscaped .code (g :: rest) := by
  by_cases hquote : g = .char '\''
  · subst hquote
    rw [nulsEscaped_step (y := .literal) (by decide) rfl]
    exact scanCharacter_nulsEscaped rest pos
  rw [nulsEscaped_one hnul hquote hcomment]
  apply scanToken_cases
    (P := fun scanned => NulsEscaped .code scanned.2.rest ↔ NulsEscaped .code rest)
  case newline | comma | bang => exact fun _ => Iff.rfl
  case quote => exact fun h => absurd h hquote
  case colon => exact fun _ => scanLabelRef_nulsEscaped rest pos
  case ampersand => exact fun _ => scanTarget_nulsEscaped rest pos
  case dot => exact fun _ _ => takeClass_nulsEscaped (by decide) rest (pos.right 1)
  case number => exact fun _ _ => takeClass_nulsEscaped (by decide) rest (pos.right 1)
  case word => exact fun _ _ => scanWord_nulsEscaped g rest pos
  case other => exact fun _ => Iff.rfl

/-! ### Calls -/

/-- No comment is left behind a gap. -/
theorem skipBlanks_ne_comment (text : RawText) (pos : Position) :
    ∀ g ∈ (skipBlanks false text pos).rest.head?, g ≠ .char ';' := by
  induction text generalizing pos with
  | nil => exact fun _ h => nomatch h
  | cons g text ih =>
    rw [skipBlanks]
    split
    · exact ih (pos.right 1)
    split
    · obtain ⟨-, -, -, -, hend⟩ := skipBlanks_comment text (pos.right 1)
      rintro g' hg' rfl
      exact absurd (hend _ hg') (by decide)
    · next hcomment =>
      intro g' hg'
      cases hg'
      exact hcomment

/-- One call leaves every U+0000 as it is. -/
theorem Cursor.next_nulsEscaped (c : Cursor) :
    NulsEscaped .code c.next.2.rest ↔ NulsEscaped .code c.rest := by
  obtain ⟨gap, htext, -, hgap⟩ := skipBlanks_gap c.rest c.pos
  rw [htext, hgap.nulsEscaped_iff]
  unfold next
  split
  · next hskip => rw [hskip]
  · next g rest start hskip =>
    rw [hskip]
    split
    · rfl
    · next hnul =>
      have hcomment : g ≠ .char ';' := skipBlanks_ne_comment c.rest c.pos g (by rw [hskip]; rfl)
      exact scanToken_nulsEscaped hnul hcomment rest start

/-- **The whole text is read if and only if every U+0000 stands behind a backslash in a character
literal.** -/
theorem Scan.nulsEscaped_iff {c stop : Cursor} {ts : List Token} (h : Scan c ts stop) :
    stop.rest = [] ↔ NulsEscaped .code c.rest := by
  induction h with
  | @stop c stop t hreads _ hstop =>
    rw [← c.next_nulsEscaped, hreads.call]
    obtain ⟨rest, place⟩ := stop
    cases rest with
    | nil => exact iff_of_true rfl (nulsEscaped_nil _)
    | cons g rest =>
      obtain rfl : g = .char '\x00' := hstop g rfl
      exact iff_of_false (List.cons_ne_nil _ _) (not_nulsEscaped (by decide) rest)
  | @token c after stop t ts hreads _ _ ih =>
    rw [ih, ← c.next_nulsEscaped, hreads.call]

/-! ### Sources that are accepted -/

/-- The last token ends a line, so every token that ends none stands in one. -/
theorem Scan.mem_tokenLines {c stop : Cursor} {ts : List Token} (h : Scan c ts stop) :
    tokenLines ts ≠ [] ∧
      ∀ t ∈ ts, t.endsLine = false → ∃ line ∈ tokenLines ts, t ∈ line.1 := by
  induction h with
  | @stop c stop t _ heof _ =>
    have hends : t.endsLine = true := by simp [Token.endsLine, heof]
    refine ⟨by simp [tokenLines, hends], ?_⟩
    intro u hu hinside
    obtain rfl := List.mem_singleton.mp hu
    cases hends.symm.trans hinside
  | @token c after stop t ts _ _ _ ih =>
    obtain ⟨hsome, hlines⟩ := ih
    obtain ⟨⟨body, last⟩, lines, hcons⟩ := List.exists_cons_of_ne_nil hsome
    by_cases hends : t.endsLine = true
    · have htokens : tokenLines (t :: ts) = ([], t) :: tokenLines ts := by
        rw [tokenLines, if_pos hends]
      rw [htokens]
      refine ⟨List.cons_ne_nil _ _, ?_⟩
      intro u hu hinside
      rcases List.mem_cons.mp hu with rfl | hrest
      · cases hends.symm.trans hinside
      · obtain ⟨line, hline, hmem⟩ := hlines u hrest hinside
        exact ⟨line, List.mem_cons_of_mem _ hline, hmem⟩
    · have htokens : tokenLines (t :: ts) = (t :: body, last) :: lines := by
        rw [tokenLines, if_neg hends, hcons]
      rw [htokens]
      refine ⟨List.cons_ne_nil _ _, ?_⟩
      intro u hu hinside
      rcases List.mem_cons.mp hu with rfl | hrest
      · exact ⟨_, List.mem_cons_self .., List.mem_cons_self ..⟩
      · obtain ⟨line, hline, hmem⟩ := hlines u hrest hinside
        rw [hcons] at hline
        rcases List.mem_cons.mp hline with rfl | hlater
        · exact ⟨_, List.mem_cons_self .., List.mem_cons_of_mem t hmem⟩
        · exact ⟨line, List.mem_cons_of_mem _ hlater, hmem⟩

/-- A source that is accepted has no bad token. -/
theorem not_bad_of_parseSource {source : RawText} {sts : List Statement}
    (h : parseSource source = .ok sts) : ∀ t ∈ tokens source, t.kind ≠ .bad := by
  intro t ht hbad
  obtain ⟨stop, hscan⟩ := scan_tokensFrom source ⟨1, 1⟩
  have hinside : t.endsLine = false := by simp [Token.endsLine, hbad]
  obtain ⟨⟨body, last⟩, hline, hmem⟩ := hscan.mem_tokenLines.2 t ht hinside
  -- the line of the token is not blank, so it was read
  obtain ⟨u, rest, rfl⟩ := List.exists_cons_of_ne_nil (List.ne_nil_of_mem hmem)
  obtain ⟨result, hparsed⟩ : ∃ result, readLine (u :: rest, last) = some result := by
    rw [readLine_cons]
    split
    · exact ⟨_, rfl⟩
    · exact ⟨_, rfl⟩
  have hresult : result ∈ sts.map Except.ok := by
    rw [← lines_of_parseSource h]
    exact List.mem_filterMap.mpr ⟨_, hline, hparsed⟩
  obtain ⟨st, -, rfl⟩ := List.mem_map.mp hresult
  have hspelled : ∀ v ∈ u :: rest, v.Spelled := fun v hv =>
    tokensFrom_spelled source ⟨1, 1⟩ v (mem_of_mem_tokenLines hline v hv)
  have hreadable := (lineTokens_of_readLine hspelled hparsed).readable t.lexeme
    (List.mem_map_of_mem hmem)
  exact hreadable.2 hbad

/-- **The tokens of a source and the gaps between them make up the source**, up to where the reader
stops: every call but the last takes up text, nothing but blanks and comments is left out, and every
token stands where its text begins. The reader stops at the end of the source if and only if every
U+0000 stands behind a backslash in a character literal; where one stands anywhere else, what is
behind it is left unread. That a source is accepted means only that the tokens which were read are
good ones. -/
theorem tokens_cover (source : RawText) :
    ∃ stop, Scan ⟨source, ⟨1, 1⟩⟩ (tokens source) stop ∧
      (stop.rest = [] ↔ NulsEscaped .code source) ∧
      ∀ sts, parseSource source = .ok sts → ∀ t ∈ tokens source, t.kind ≠ .bad := by
  obtain ⟨stop, hscan⟩ := scan_tokensFrom source ⟨1, 1⟩
  exact ⟨stop, hscan, hscan.nulsEscaped_iff, fun _ => not_bad_of_parseSource⟩

/-- A source with a line that is no statement behind a U+0000. -/
def truncatedSource : RawText := RawText.ofString "NOP\n\x00\n! RET\n"

/-- The source is accepted, though it was not read to its end. -/
theorem tokens_cover_truncated :
    (parseSource truncatedSource).toOption.map List.length = some 1 ∧
      ∃ stop, Scan ⟨truncatedSource, ⟨1, 1⟩⟩ (tokens truncatedSource) stop ∧ stop.rest ≠ [] ∧
        ∀ t ∈ tokens truncatedSource, t.kind ≠ .bad := by
  have haccepted : (parseSource truncatedSource).toOption.map List.length = some 1 := by
    decide +kernel
  obtain ⟨sts, hsts, -⟩ := Option.map_eq_some_iff.mp haccepted
  obtain ⟨stop, hscan, hend, hgood⟩ := tokens_cover truncatedSource
  refine ⟨haccepted, stop, hscan, ?_, hgood sts (Action.ok_of_toOption hsts)⟩
  intro hread
  have hzone := hend.mp hread (RawText.ofString "NOP\n") (RawText.ofString "\n! RET\n") rfl
  exact absurd hzone (by decide)

end CellMachine
