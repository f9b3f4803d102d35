import CellMachine.Proofs.Source.Grammar

/-!
# The same text further down

The reader of tokens and the reader of lines put places into tokens, statements and faults, and look
at none of them. So a text that begins some lines further down gives the same tokens, statements and
faults, as many lines further down: columns, texts and messages stay.

* `Position.down` and what is moved with it: `Cursor.down`, `Token.down`, `Arg.down`,
  `Statement.down`, `PlacedFault.down`.
* `tokensFrom_down` — the tokens of the text are moved.
* `readLine_down` — what is read from a line of tokens is moved.
* `LineFault.message_down` — messages show no places.
* `readLines` — what the lines of a text say, in order; `readLines_down` — **all of it is moved.**
-/

namespace CellMachine

/-! ### What is moved -/

/-- The place `n` lines further down. -/
def Position.down (n : Nat) (p : Position) : Position := { p with line := p.line + n }

/-- The same text further down. -/
def Cursor.down (n : Nat) (c : Cursor) : Cursor := { c with pos := c.pos.down n }

/-- The same token further down. -/
def Token.down (n : Nat) (t : Token) : Token := { t with pos := t.pos.down n }

/-- The same argument further down. -/
def Arg.down (n : Nat) (arg : Arg) : Arg := { arg with pos := arg.pos.down n }

/-- The same statement further down. -/
def Statement.down (n : Nat) (st : Statement) : Statement :=
  { st with pos := st.pos.down n, args := st.args.map (Arg.down n) }

/-- The same fault, with its token further down. -/
def LineFault.down (n : Nat) : LineFault → LineFault
  | .badToken reason => .badToken reason
  | .noInstruction found => .noInstruction (found.down n)
  | .noOperand found => .noOperand (found.down n)
  | .nothingNegated found => .nothingNegated (found.down n)
  | .trailing found => .trailing (found.down n)

/-- The same fault further down. -/
def PlacedFault.down (n : Nat) (fault : PlacedFault) : PlacedFault :=
  (fault.1.down n, fault.2.down n)

/-- What was read, with `f` applied to it, or the same fault further down. -/
def resultDown {α β : Type} (n : Nat) (f : α → β) :
    Except PlacedFault α → Except PlacedFault β
  | .ok a => .ok (f a)
  | .error fault => .error (PlacedFault.down n fault)

variable (n : Nat)

/-- **Messages show no places.** -/
theorem LineFault.message_down (fault : LineFault) : (fault.down n).message = fault.message := by
  cases fault <;> rfl

@[simp] theorem Position.right_down (p : Position) (k : Nat) :
    (p.down n).right k = (p.right k).down n := rfl

@[simp] theorem Position.after_down (p : Position) (c : Char) :
    (p.down n).after c = (p.after c).down n := by
  unfold after
  split
  · simp only [down, Nat.add_right_comm]
  · rfl

/-! ### Tokens -/

/-- A choice between two values of a function is the value of the choice. -/
theorem ite_eq_map {α β : Type} {c : Prop} [Decidable c] {f : α → β} {a b : α} {x y : β}
    (hx : x = f a) (hy : y = f b) : (if c then x else y) = f (if c then a else b) := by
  rw [hx, hy, apply_ite f]

theorem skipBlanks_down (inComment : Bool) (text : RawText) (pos : Position) :
    skipBlanks inComment text (pos.down n) = (skipBlanks inComment text pos).down n := by
  induction text generalizing inComment pos with
  | nil => cases inComment <;> rfl
  | cons g text ih =>
    cases inComment with
    | true =>
      rw [skipBlanks, skipBlanks]
      split
      · rfl
      · exact ih true (pos.right 1)
    | false =>
      rw [skipBlanks, skipBlanks]
      split; · exact ih false (pos.right 1)
      split; · exact ih true (pos.right 1)
      rfl

theorem takeClass_down (p : Char → Bool) (text : RawText) (pos : Position) :
    takeClass p text (pos.down n) = ((takeClass p text pos).1, (takeClass p text pos).2.down n) :=
  rfl

theorem takeCharacter_down (text : RawText) (pos : Position) :
    takeCharacter text (pos.down n) =
      ((takeCharacter text pos).1, (takeCharacter text pos).2.down n) := by
  induction text, pos using takeCharacter_induction with
  | ended pos | alone pos => rfl
  | escaped g rest pos body? cursor ih =>
    rw [takeCharacter_escaped, Position.right_down, Position.after_down, ih]
  | close rest pos =>
    rw [takeCharacter_close]
    rfl
  | stopped g rest pos hend =>
    have hback : g ≠ .char '\\' := by rcases hend with rfl | rfl <;> decide
    have hquote : g ≠ .char '\'' := by rcases hend with rfl | rfl <;> decide
    rw [takeCharacter_plain hback hquote, if_pos hend]
    rfl
  | plain g rest pos body? cursor hback hquote hend ih =>
    rw [takeCharacter_plain hback hquote, if_neg hend, Position.right_down, ih]

theorem scanCharacter_down (rest : RawText) (pos : Position) :
    scanCharacter rest (pos.down n) =
      Prod.map (Token.down n) (Cursor.down n) (scanCharacter rest pos) := by
  unfold scanCharacter
  rw [Position.right_down, takeCharacter_down]
  rcases takeCharacter rest (pos.right 1) with ⟨_ | body, cursor⟩
  · rfl
  · rfl

theorem scanLabelRef_down (rest : RawText) (pos : Position) :
    scanLabelRef rest (pos.down n) =
      Prod.map (Token.down n) (Cursor.down n) (scanLabelRef rest pos) := by
  unfold scanLabelRef
  split
  · rfl
  · rfl

theorem scanTarget_down (target : Cursor) (pos : Position) :
    scanTarget (target.down n) (pos.down n) =
      Prod.map (Token.down n) (Cursor.down n) (scanTarget target pos) := by
  unfold scanTarget
  show (if headIs Char.isDigit target.rest = true then _ else
    if headIs startsWord target.rest = true then _ else _) = _
  split
  · rfl
  · split
    · rfl
    · rfl

theorem scanWord_down (g : Glyph) (rest : RawText) (pos : Position) :
    scanWord g rest (pos.down n) =
      Prod.map (Token.down n) (Cursor.down n) (scanWord g rest pos) := by
  simp only [scanWord, Position.right_down, takeClass_down]
  rcases takeClass continuesWord rest (pos.right 1) with ⟨name, ⟨text, place⟩⟩
  cases text with
  | nil => rfl
  | cons next after =>
    simp only [Cursor.down]
    split
    · rfl
    · rfl

/-- One token is moved. -/
theorem scanToken_down (g : Glyph) (rest : RawText) (pos : Position) :
    scanToken g rest (pos.down n) =
      Prod.map (Token.down n) (Cursor.down n) (scanToken g rest pos) := by
  unfold scanToken
  rw [Position.after_down, Position.right_down, skipBlanks_down]
  refine ite_eq_map rfl ?_
  refine ite_eq_map rfl ?_
  refine ite_eq_map rfl ?_
  refine ite_eq_map (scanCharacter_down n rest pos) ?_
  refine ite_eq_map (scanLabelRef_down n rest pos) ?_
  refine ite_eq_map (scanTarget_down n _ pos) ?_
  refine ite_eq_map rfl ?_
  refine ite_eq_map rfl ?_
  exact ite_eq_map (scanWord_down n g rest pos) rfl

/-- **The tokens of a text that begins further down are moved.** -/
theorem tokensFrom_down (text : RawText) (pos : Position) :
    tokensFrom text (pos.down n) = (tokensFrom text pos).map (Token.down n) := by
  induction text, pos using tokensFrom.induct with
  | case1 text pos stop hskip =>
    have hmoved := (skipBlanks_down n false text pos).trans (congrArg (Cursor.down n) hskip)
    rw [tokensFrom_of_end hskip, tokensFrom_of_end hmoved]
    rfl
  | case2 text pos rest start hskip =>
    have hmoved := (skipBlanks_down n false text pos).trans (congrArg (Cursor.down n) hskip)
    rw [tokensFrom_of_nul hskip, tokensFrom_of_nul hmoved]
    rfl
  | case3 text pos g rest start hskip hg ih =>
    have hmoved := (skipBlanks_down n false text pos).trans (congrArg (Cursor.down n) hskip)
    rw [tokensFrom_of_token hskip hg, tokensFrom_of_token hmoved hg, scanToken_down, List.map_cons,
      ← ih]
    rfl

/-! ### Lines -/

/-- A line of tokens, further down. -/
def TokenLine.down (line : TokenLine) : TokenLine := (line.1.map (Token.down n), line.2.down n)

theorem tokenLines_down (ts : List Token) :
    tokenLines (ts.map (Token.down n)) = (tokenLines ts).map (TokenLine.down n) := by
  induction ts with
  | nil => rfl
  | cons t ts ih =>
    rw [List.map_cons, tokenLines, tokenLines, ih]
    show (if t.endsLine = true then _ else _) = _
    split
    · rfl
    · cases tokenLines ts with
      | nil => rfl
      | cons line lines => rfl

theorem readArg_down (stop : Token) (ts : List Token) :
    readArg (stop.down n) (ts.map (Token.down n)) =
      resultDown n (Prod.map (Arg.down n) (List.map (Token.down n))) (readArg stop ts) := by
  cases ts with
  | nil => rfl
  | cons t ts =>
    obtain ⟨kind, literal, pos⟩ := t
    cases kind with
    -- what is negated is the next token, if there is one
    | bang =>
      cases ts with
      | nil => rfl
      | cons u ts =>
        simp only [List.map_cons, readArg, Token.down]
        split
        · rfl
        · rfl
    | eof | bad | newline | number | character | ident | directive | label | labelRef | address
    | comma => rfl

theorem readArgs_down (stop : Token) (ts : List Token) :
    readArgs (stop.down n) (ts.map (Token.down n)) =
      resultDown n (List.map (Arg.down n)) (readArgs stop ts) := by
  induction ts using readArgs.induct stop with
  | case1 ts fault harg =>
    have hmoved := (readArg_down n stop ts).trans (congrArg (resultDown n _) harg)
    rw [readArgs_of_fault harg, readArgs_of_fault hmoved]
    rfl
  | case2 ts arg harg =>
    have hmoved := (readArg_down n stop ts).trans (congrArg (resultDown n _) harg)
    rw [readArgs_of_last harg, readArgs_of_last hmoved]
    rfl
  | case3 ts arg t rest harg hcomma ih =>
    have hmoved := (readArg_down n stop ts).trans (congrArg (resultDown n _) harg)
    have hcomma' : (t.down n).kind = .comma := hcomma
    rw [readArgs_of_more harg, readArgs_of_more hmoved, if_pos hcomma, if_pos hcomma', ih]
    cases readArgs stop rest with
    | error fault => rfl
    | ok args => rfl
  | case4 ts arg t rest harg hcomma =>
    have hmoved := (readArg_down n stop ts).trans (congrArg (resultDown n _) harg)
    have hcomma' : ¬(t.down n).kind = .comma := hcomma
    rw [readArgs_of_more harg, readArgs_of_more hmoved, if_neg hcomma, if_neg hcomma']
    rfl

theorem readOperation_down (st : Statement) (stop : Token) (ts : List Token) :
    readOperation (st.down n) (stop.down n) (ts.map (Token.down n)) =
      resultDown n (Statement.down n) (readOperation st stop ts) := by
  cases ts with
  | nil => rfl
  | cons t ts =>
    by_cases hkind : t.kind = .ident ∨ t.kind = .directive
    · have hkind' : (t.down n).kind = .ident ∨ (t.down n).kind = .directive := hkind
      rw [List.map_cons, readOperation_of_op hkind, readOperation_of_op hkind']
      cases ts with
      | nil => rfl
      | cons u ts =>
        show (readArgs (stop.down n) ((u :: ts).map (Token.down n))).map _ =
          resultDown n _ ((readArgs stop (u :: ts)).map _)
        rw [readArgs_down]
        cases readArgs stop (u :: ts) with
        | error fault => rfl
        | ok args => rfl
    · obtain ⟨kind, literal, pos⟩ := t
      cases kind with
      | ident => exact absurd (.inl rfl) hkind
      | directive => exact absurd (.inr rfl) hkind
      | eof | bad | newline | number | character | label | labelRef | address | comma | bang => rfl

/-- **What is read from a line of tokens is moved.** -/
theorem readLine_down (line : TokenLine) :
    readLine (line.down n) = (readLine line).map (resultDown n (Statement.down n)) := by
  obtain ⟨body, stop⟩ := line
  cases body with
  | nil => rfl
  | cons t rest =>
    show readLine (t.down n :: rest.map (Token.down n), stop.down n) = _
    rw [readLine_cons, readLine_cons]
    by_cases hlabel : t.kind = .label
    · have hlabel' : (t.down n).kind = .label := hlabel
      rw [if_pos hlabel, if_pos hlabel']
      exact congrArg some
        (readOperation_down n { pos := t.pos, label? := some t.literal.read } stop rest)
    · have hlabel' : ¬(t.down n).kind = .label := hlabel
      rw [if_neg hlabel, if_neg hlabel']
      exact congrArg some (readOperation_down n { pos := t.pos } stop (t :: rest))

/-! ### Texts -/

/-- What the lines of a text say, one after the other: a statement or a fault for each line that is
not blank. -/
def readLines (text : RawText) (pos : Position) : List (Except PlacedFault Statement) :=
  (tokenLines (tokensFrom text pos)).filterMap readLine

/-- **What the lines of a text say that begins further down** is moved. -/
theorem readLines_down (text : RawText) (pos : Position) :
    readLines text (pos.down n) =
      (readLines text pos).map (resultDown n (Statement.down n)) := by
  have hline : readLine ∘ TokenLine.down n =
      fun line => (readLine line).map (resultDown n (Statement.down n)) :=
    funext (readLine_down n)
  unfold readLines
  rw [tokensFrom_down, tokenLines_down, List.filterMap_map, hline, List.map_filterMap]

/-- Statements and faults are moved with the lines. -/
theorem collect_down (results : List (Except PlacedFault Statement)) :
    collect (results.map (resultDown n (Statement.down n))) =
      ((collect results).1.map (Statement.down n),
        (collect results).2.map (PlacedFault.down n)) := by
  induction results with
  | nil => rfl
  | cons result rest ih =>
    cases result with
    | ok st => simp [resultDown, collect, ih]
    | error fault => simp [resultDown, collect, ih]

end CellMachine
