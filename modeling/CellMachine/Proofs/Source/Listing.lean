import CellMachine.Proofs.Assembly.Places
import CellMachine.Proofs.Source.Lexing

/-!
# A listing says what the source said

A listing of statements has each of them in writing, on a line of its own. Read again, it gives
statements with the same labels, operations and arguments in the same order; only the places are
those of the listing. So it assembles as the source does.

* `Statement.listing` — statements line by line.
* `lineTokens_of_parseSource` — every statement of a source has the tokens of a line.
* `filterMap_tokenLines` — one line of tokens is read as a statement that says the same.
* `lines_of_listing` — so all statements are read from their listing, line after line.
* `parseSource_listing` — **a source and the listing of its statements say the same** and give the
  same image.
-/

namespace CellMachine

/-- Statements in writing, each on a line of its own. -/
def Statement.listing (sts : List Statement) : RawText :=
  List.intercalate [.char '\n'] (sts.map Statement.text)

/-! ### Lines of tokens -/

/-- The tokens of a line are among the tokens that were cut. -/
theorem mem_of_mem_tokenLines {ts : List Token} {line : TokenLine} (h : line ∈ tokenLines ts) :
    ∀ t ∈ line.1, t ∈ ts := by
  induction ts generalizing line with
  | nil => cases h
  | cons u ts ih =>
    intro t ht
    unfold tokenLines at h
    split at h
    · rcases List.mem_cons.mp h with rfl | hline
      · cases ht
      · exact List.mem_cons_of_mem u (ih hline t ht)
    · split at h
      · cases h
      · next body stop lines hlines =>
        rcases List.mem_cons.mp h with rfl | hline
        · rcases List.mem_cons.mp ht with rfl | hbody
          · exact List.mem_cons_self ..
          · exact List.mem_cons_of_mem u (ih (hlines ▸ List.mem_cons_self ..) t hbody)
        · exact List.mem_cons_of_mem u (ih (hlines ▸ List.mem_cons_of_mem _ hline) t ht)

/-! ### Sources that are accepted -/

/-- The statements of lines without faults. -/
theorem collect_ok {results : List (Except PlacedFault Statement)}
    (h : (collect results).2 = []) : results = (collect results).1.map .ok := by
  induction results with
  | nil => rfl
  | cons result rest ih =>
    cases result with
    | error fault => cases h
    | ok st => exact congrArg (Except.ok st :: ·) (ih h)

/-- Lines without faults give all their statements. -/
theorem collect_map_ok (sts : List Statement) : collect (sts.map .ok) = (sts, []) := by
  induction sts with
  | nil => rfl
  | cons st rest ih => simp [collect, ih]

/-- The statements of a source that is accepted are those of its lines. -/
theorem lines_of_parseSource {source : RawText} {sts : List Statement}
    (h : parseSource source = .ok sts) :
    (tokenLines (tokens source)).filterMap readLine = sts.map .ok := by
  simp only [parseSource, parseLines_eq] at h
  split at h
  · next hfaults =>
    cases h
    exact collect_ok (List.isEmpty_iff.mp hfaults)
  · cases h

/-- A source is accepted if all its lines are. -/
theorem parseSource_of_lines {source : RawText} {sts : List Statement}
    (h : (tokenLines (tokens source)).filterMap readLine = sts.map .ok) :
    parseSource source = .ok sts := by
  unfold parseSource
  rw [parseLines_eq, h, collect_map_ok]
  rfl

/-- **Every statement of a source has the tokens of a line.** -/
theorem lineTokens_of_parseSource {source : RawText} {sts : List Statement}
    (h : parseSource source = .ok sts) {st : Statement} (hst : st ∈ sts) :
    ∃ ps, LineTokens ps st.label? st.op? (st.args.map Arg.text) := by
  have hmem : Except.ok st ∈ (tokenLines (tokens source)).filterMap readLine := by
    rw [lines_of_parseSource h]
    exact List.mem_map_of_mem hst
  obtain ⟨⟨body, stop⟩, hline, hparsed⟩ := List.mem_filterMap.mp hmem
  have hspelled : ∀ t ∈ body, t.Spelled := fun t ht =>
    tokensFrom_spelled source ⟨1, 1⟩ t (mem_of_mem_tokenLines hline t ht)
  exact ⟨_, lineTokens_of_readLine hspelled hparsed⟩

/-! ### Listings -/

/-- **One line is read back**: the tokens of a line, up to a token that ends it, are read as a
statement that says the same. -/
theorem filterMap_tokenLines {ps : List Lexeme} {st : Statement}
    (h : LineTokens ps st.label? st.op? (st.args.map Arg.text)) {body : List Token}
    (hbody : body.map Token.lexeme = ps) (stop : Token) (hstop : stop.endsLine = true)
    (rest : List Token) :
    ∃ again : Statement, again.unplaced = st.unplaced ∧
      (tokenLines (body ++ stop :: rest)).filterMap readLine =
        .ok again :: (tokenLines rest).filterMap readLine := by
  have hinside : ∀ t ∈ body, t.endsLine = false := by
    intro t ht
    obtain ⟨hline, hend⟩ := h.inside t.lexeme (hbody ▸ List.mem_map_of_mem ht)
    simpa [Token.endsLine, Token.lexeme] using And.intro hline hend
  obtain ⟨again, hparsed, hlabel, hop, hargs⟩ := readLine_of_lineTokens h hbody stop
  refine ⟨again, Statement.unplaced_eq hlabel hop hargs, ?_⟩
  rw [tokenLines_append hinside hstop, List.filterMap_cons_some hparsed]

/-- The end of a line is a token. -/
theorem tokensFrom_newline (rest : RawText) (pos : Position) :
    tokensFrom (.char '\n' :: rest) pos =
      ⟨.newline, [.char '\n'], pos⟩ :: tokensFrom rest (pos.after '\n') :=
  tokensFrom_of_token (g := .char '\n') rfl (by decide)

/-- **Statements whose lines have tokens are read from their listing.** -/
theorem lines_of_listing {sts : List Statement}
    (h : ∀ st ∈ sts, ∃ ps, LineTokens ps st.label? st.op? (st.args.map Arg.text))
    (pos : Position) :
    ∃ again : List Statement, again.map Statement.unplaced = sts.map Statement.unplaced ∧
      (tokenLines (tokensFrom (Statement.listing sts) pos)).filterMap readLine =
        again.map .ok := by
  induction sts generalizing pos with
  | nil =>
    refine ⟨[], rfl, ?_⟩
    rw [show Statement.listing [] = [] from rfl, tokensFrom_of_end rfl]
    rfl
  | cons st rest ih =>
    obtain ⟨ps, hline⟩ := h st (List.mem_cons_self ..)
    -- the last line ends where the text does, every other one before the next statement
    cases rest with
    | nil =>
      have hlisting : Statement.listing [st] = st.text ++ [] := by
        simp [Statement.listing]
      obtain ⟨body, place, hbody, htokens⟩ := lexes_text hline breaks_nil pos
      obtain ⟨again, hagain, hlines⟩ :=
        filterMap_tokenLines hline hbody (eofToken place) rfl []
      refine ⟨[again], congrArg (fun st => [st]) hagain, ?_⟩
      rw [hlisting, htokens, tokensFrom_of_end rfl, hlines]
      rfl
    | cons next rest =>
      have hlisting : Statement.listing (st :: next :: rest) =
          st.text ++ .char '\n' :: Statement.listing (next :: rest) := by
        simp [Statement.listing, List.intercalate_cons_cons]
      obtain ⟨body, place, hbody, htokens⟩ :=
        lexes_text hline (breaks_cons (.inr (.inr rfl)) (Statement.listing (next :: rest))) pos
      obtain ⟨others, hothers, hrest⟩ :=
        ih (fun st hst => h st (List.mem_cons_of_mem _ hst)) (place.after '\n')
      obtain ⟨again, hagain, hlines⟩ := filterMap_tokenLines hline hbody
        ⟨.newline, [.char '\n'], place⟩ rfl
        (tokensFrom (Statement.listing (next :: rest)) (place.after '\n'))
      refine ⟨again :: others, ?_, ?_⟩
      · rw [List.map_cons, hagain, hothers]
        rfl
      · rw [hlisting, htokens, tokensFrom_newline, hlines, hrest, List.map_cons]

/-- **A source and the listing of its statements say the same**: the listing is accepted, and it
gives statements with the same labels, operations and arguments, in the same order. So both give the
same image, or neither gives one. -/
theorem parseSource_listing {source : RawText} {sts : List Statement}
    (h : parseSource source = .ok sts) :
    (∃ again, parseSource (Statement.listing sts) = .ok again ∧
      again.map Statement.unplaced = sts.map Statement.unplaced) ∧
    ∀ options, (assemble (Statement.listing sts) options).toOption =
      (assemble source options).toOption := by
  obtain ⟨again, hagain, hlines⟩ :=
    lines_of_listing (fun _ hst => lineTokens_of_parseSource h hst) ⟨1, 1⟩
  have hlisting : parseSource (Statement.listing sts) = .ok again := parseSource_of_lines hlines
  refine ⟨⟨again, hlisting, hagain⟩, ?_⟩
  intro options
  calc (assemble (Statement.listing sts) options).toOption
      = (assembleStatements again options).toOption := by
        unfold assemble
        rw [hlisting]
        rfl
    _ = (assembleStatements (again.map Statement.unplaced) options).toOption :=
        (assembleStatements_unplaced again options).symm
    _ = (assembleStatements sts options).toOption := by
        rw [hagain, assembleStatements_unplaced]
    _ = (assemble source options).toOption := by
        unfold assemble
        rw [h]
        rfl

/-- A source with blanks, comments and operands of all kinds. -/
def looseSource : RawText :=
  RawText.ofString
    "\n.global  x , -5;five\n.routine r\nl:  jmp :l\n\tset & x, ';'\n.if ! x\n.endif\n.end"

/-- The statements of the source are read from their listing. -/
theorem parseSource_listing_sample :
    ∃ sts again, parseSource looseSource = .ok sts ∧
      Statement.listing sts = RawText.ofString
        ".global x, -5\n.routine r\nl: jmp :l\nset &x, ';'\n.if !x\n.endif\n.end" ∧
      parseSource (Statement.listing sts) = .ok again ∧
      again.map Statement.unplaced = sts.map Statement.unplaced := by
  have hlisting : (parseSource looseSource).toOption.map Statement.listing = some (RawText.ofString
      ".global x, -5\n.routine r\nl: jmp :l\nset &x, ';'\n.if !x\n.endif\n.end") := by
    decide +kernel
  obtain ⟨sts, hsts, hlisting⟩ := Option.map_eq_some_iff.mp hlisting
  have hsource := Action.ok_of_toOption hsts
  obtain ⟨⟨again, hagain, hsame⟩, -⟩ := parseSource_listing hsource
  exact ⟨sts, again, hsource, hlisting, hagain, hsame⟩

end CellMachine
