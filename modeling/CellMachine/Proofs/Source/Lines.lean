import CellMachine.Proofs.Source.Consumption
import CellMachine.Source.Parse

/-!
# Reading line by line

The parser goes along the tokens with one of them in view, and after a fault it skips what is left
of the line. A simpler reading cuts the tokens into lines first and reads every line for itself: a
line without tokens is nothing, and any other line is one statement or one fault. This module shows
that the parser does the same.

* `readLine` — one line, read for itself.
* `Parsing.Ends` — a part of the parser ends its line as the reading of the line says: in front of
  the next line, or with its fault, which is noted somewhere in the line.
* `Parsing.parseStatement_ends` — a statement ends its line.
* `Parsing.skipLine_append` — from wherever in a line, skipping leads to the next line.
* `parseLines_eq` — **the parser finds the statements and the faults of the lines**, each once and
  in their order.
-/

namespace CellMachine

/-! ### Lines -/

/-- A line of tokens: its body and the token that ends it. -/
abbrev TokenLine := List Token × Token

/-- Cuts tokens into lines. Tokens after the last end of a line are dropped; there are none in the
tokens of a source, whose last token ends a line. -/
def tokenLines : List Token → List TokenLine
  | [] => []
  | t :: rest =>
    if t.endsLine then ([], t) :: tokenLines rest
    else match tokenLines rest with
      | [] => []
      | (body, stop) :: lines => (t :: body, stop) :: lines

/-- A fault at a token. -/
def faultAt {α : Type} (t : Token) (fault : LineFault) : Except PlacedFault α :=
  .error (t.pos, fault)

/-- Reads one argument, and returns the tokens after it. `stop` ends the line. -/
def readArg (stop : Token) : List Token → Except PlacedFault (Arg × List Token)
  | [] => faultAt stop (.noOperand stop)
  | t :: rest =>
    match t.kind with
    | .number | .character | .ident => .ok (⟨t.pos, t.literal⟩, rest)
    | .labelRef => .ok (⟨t.pos, .char ':' :: t.literal⟩, rest)
    | .address => .ok (⟨t.pos, .char '&' :: t.literal⟩, rest)
    | .bang =>
      match rest with
      | [] => faultAt stop (.nothingNegated stop)
      | u :: rest =>
        if u.kind = .ident ∨ u.kind = .number then .ok (⟨t.pos, .char '!' :: u.literal⟩, rest)
        else faultAt u (.nothingNegated u)
    | .bad => faultAt t (.badToken t.literal.read)
    | _ => faultAt t (.noOperand t)

theorem length_readArg_lt {stop : Token} {ts rest : List Token} {arg : Arg}
    (h : readArg stop ts = .ok (arg, rest)) : rest.length < ts.length := by
  unfold readArg faultAt at h
  repeat' split at h
  all_goals grind

/-- Reads arguments between commas, up to the end of the line. -/
def readArgs (stop : Token) (ts : List Token) : Except PlacedFault (List Arg) :=
  match _h : readArg stop ts with
  | .error fault => .error fault
  | .ok (arg, []) => .ok [arg]
  | .ok (arg, t :: rest) =>
    if t.kind = .comma then (readArgs stop rest).map (arg :: ·)
    else faultAt t (.trailing t)
termination_by ts.length
decreasing_by
  have := length_readArg_lt _h
  simp at this
  omega

/-- Reads an instruction or directive with its arguments into a statement that has its place and
its label. -/
def readOperation (st : Statement) (stop : Token) : List Token → Except PlacedFault Statement
  | [] => .ok st
  | t :: rest =>
    match t.kind with
    | .ident | .directive =>
      if rest.isEmpty then .ok { st with op? := some t.literal.read }
      else (readArgs stop rest).map fun args => { st with op? := some t.literal.read, args }
    | .bad => faultAt t (.badToken t.literal.read)
    | _ => faultAt t (.noInstruction t)

/-- Reads one line. A line without tokens is nothing. -/
def readLine : TokenLine → Option (Except PlacedFault Statement)
  | ([], _) => none
  | (t :: rest, stop) =>
    if t.kind = .label then
      some (readOperation { pos := t.pos, label? := some t.literal.read } stop rest)
    else some (readOperation { pos := t.pos } stop (t :: rest))

/-- The statements and the faults of a list of line results, each in their order. -/
def collect : List (Except PlacedFault Statement) → List Statement × List PlacedFault
  | [] => ([], [])
  | .ok st :: rest => ((st :: (collect rest).1), (collect rest).2)
  | .error fault :: rest => ((collect rest).1, (fault :: (collect rest).2))

/-- A line of tokens, up to the token that ends it. -/
theorem tokenLines_append {body : List Token} (hbody : ∀ t ∈ body, t.endsLine = false)
    {stop : Token} (hstop : stop.endsLine = true) (rest : List Token) :
    tokenLines (body ++ stop :: rest) = (body, stop) :: tokenLines rest := by
  induction body with
  | nil => simp [tokenLines, hstop]
  | cons t body ih =>
    have ht : ¬t.endsLine = true := by simp [hbody t]
    rw [List.cons_append, tokenLines, if_neg ht,
      ih fun u hu => hbody u (List.mem_cons_of_mem t hu)]

namespace Parsing

variable {α β : Type} {stop : Token} {rest : List Token}

/-! ### The parser in a line -/

theorem view_bind (f : Token → Parsing β) (ts : List Token) :
    (view >>= f) ts = f (current ts) ts := rfl

theorem advance_bind (f : Unit → Parsing β) (ts : List Token) :
    (advance >>= f) ts = f () ts.tail := rfl

theorem pure_apply (a : α) (ts : List Token) : (pure a : Parsing α) ts = .ok a ts := rfl

theorem failAt_apply (t : Token) (fault : LineFault) (ts : List Token) :
    (failAt t fault : Parsing α) ts = .error (t.pos, fault) ts := rfl

/-- After a first part that ends well the second part goes on. -/
theorem bind_of_ok {x : Parsing α} {f : α → Parsing β} {a : α} {ts ts' : List Token}
    (h : x ts = .ok a ts') : (x >>= f) ts = f a ts' := by
  show EStateM.bind x f ts = f a ts'
  unfold EStateM.bind
  rw [h]

/-- A fault of the first part is the fault of the sequence. -/
theorem bind_of_error {x : Parsing α} {f : α → Parsing β} {fault : PlacedFault}
    {ts ts' : List Token} (h : x ts = .error fault ts') : (x >>= f) ts = .error fault ts' := by
  show EStateM.bind x f ts = .error fault ts'
  unfold EStateM.bind
  rw [h]

/-- An argument is read in the tokens of a line as it is read in the parser. Some tokens of the line
are left. -/
inductive Agrees (stop : Token) (rest : List Token) :
    Except PlacedFault (α × List Token) → EStateM.Result PlacedFault (List Token) α → Prop
  | ok (a : α) {us : List Token} : (∀ u ∈ us, u.endsLine = false) →
    Agrees stop rest (.ok (a, us)) (.ok a (us ++ stop :: rest))
  | error (fault : PlacedFault) {us : List Token} : (∀ u ∈ us, u.endsLine = false) →
    Agrees stop rest (.error fault) (.error fault (us ++ stop :: rest))

/-- **An argument is read alike.** -/
theorem parseArg_agrees {us : List Token} (hus : ∀ u ∈ us, u.endsLine = false)
    (hstop : stop.endsLine = true) :
    Agrees stop rest (readArg stop us) (parseArg (us ++ stop :: rest)) := by
  have hend : stop.kind = .newline ∨ stop.kind = .eof := by simpa [Token.endsLine] using hstop
  cases us with
  | nil =>
    have hparse : parseArg ([] ++ stop :: rest) =
        .error (stop.pos, .noOperand stop) (stop :: rest) := by
      unfold parseArg
      rw [view_bind]
      rcases hend with hkind | hkind <;> simp [current, hkind, failAt_apply]
    rw [hparse]
    exact .error _ hus
  | cons t us =>
    have hrest : ∀ u ∈ us, u.endsLine = false := fun u hu => hus u (List.mem_cons_of_mem t hu)
    have hcurrent : current (t :: us ++ stop :: rest) = t := rfl
    unfold parseArg
    rw [view_bind, hcurrent]
    cases hkind : t.kind with
    | number | character | ident | labelRef | address =>
      simp only [readArg, hkind]
      exact .ok _ hrest
    | bad | eof | newline | directive | label | comma =>
      simp only [readArg, hkind]
      exact .error _ hus
    | bang =>
      simp only [readArg, hkind]
      rw [advance_bind, view_bind]
      cases us with
      | nil =>
        have hname : ¬(stop.kind = .ident ∨ stop.kind = .number) := by
          rcases hend with hkind | hkind <;> simp [hkind]
        show Agrees stop rest _
          ((ite (stop.kind = .ident ∨ stop.kind = .number) _ _ : Parsing Arg) _)
        rw [if_neg hname]
        exact .error _ hrest
      | cons u us =>
        show Agrees stop rest (ite (u.kind = .ident ∨ u.kind = .number) _ _)
          ((ite (u.kind = .ident ∨ u.kind = .number) _ _ : Parsing Arg) _)
        by_cases hname : u.kind = .ident ∨ u.kind = .number
        · rw [if_pos hname, if_pos hname]
          exact .ok _ fun v hv => hrest v (List.mem_cons_of_mem u hv)
        · rw [if_neg hname, if_neg hname]
          exact .error _ hrest

/-- An argument that is read leaves the other tokens of the line, and those behind it. -/
theorem parseArg_of_ok {us left : List Token} {arg : Arg}
    (hus : ∀ u ∈ us, u.endsLine = false) (hstop : stop.endsLine = true) (rest : List Token)
    (h : readArg stop us = .ok (arg, left)) :
    parseArg (us ++ stop :: rest) = .ok arg (left ++ stop :: rest) ∧
      ∀ u ∈ left, u.endsLine = false := by
  have hagrees : Agrees stop rest _ (parseArg (us ++ stop :: rest)) := parseArg_agrees hus hstop
  rw [h] at hagrees
  generalize parseArg (us ++ stop :: rest) = result at hagrees
  cases hagrees with
  | ok arg hleft => exact ⟨rfl, hleft⟩

/-- A fault in an argument leaves some tokens of the line, and those behind it. -/
theorem parseArg_of_error {us : List Token} {fault : PlacedFault}
    (hus : ∀ u ∈ us, u.endsLine = false) (hstop : stop.endsLine = true) (rest : List Token)
    (h : readArg stop us = .error fault) :
    ∃ left, parseArg (us ++ stop :: rest) = .error fault (left ++ stop :: rest) ∧
      ∀ u ∈ left, u.endsLine = false := by
  have hagrees : Agrees stop rest _ (parseArg (us ++ stop :: rest)) := parseArg_agrees hus hstop
  rw [h] at hagrees
  generalize parseArg (us ++ stop :: rest) = result at hagrees
  cases hagrees with
  | error fault hleft => exact ⟨_, rfl, hleft⟩

/-! ### The end of a line -/

/-- The tokens in front of which a line leaves the parser. The end of the source stays in view. -/
def behind (stop : Token) (rest : List Token) : List Token :=
  if stop.kind = .newline then rest else stop :: rest

/-- A part of the parser ends its line as the reading of the line says. If that is a fault then some
tokens of the line are left. -/
inductive Ends (stop : Token) (rest : List Token) :
    Except PlacedFault α → EStateM.Result PlacedFault (List Token) α → Prop
  | ok (a : α) : Ends stop rest (.ok a) (.ok a (behind stop rest))
  | error (fault : PlacedFault) {us : List Token} : (∀ u ∈ us, u.endsLine = false) →
    Ends stop rest (.error fault) (.error fault (us ++ stop :: rest))

/-- Reads something, and the end of its line. -/
def closing (x : Parsing α) : Parsing α := do
  let a ← x
  endOfLine
  return a

/-- A line whose tokens are all read is ended. -/
theorem endOfLine_stop (hstop : stop.endsLine = true) :
    endOfLine (stop :: rest) = .ok () (behind stop rest) := by
  have hend : stop.kind = .newline ∨ stop.kind = .eof := by simpa [Token.endsLine] using hstop
  unfold behind
  show (ite (stop.kind = .newline) _ _ : Parsing Unit) _ = _
  by_cases hnewline : stop.kind = .newline
  · rw [if_pos hnewline, if_pos hnewline]
    rfl
  · rw [if_neg hnewline, if_neg hnewline]
    show (ite (stop.kind = .eof) _ _ : Parsing Unit) _ = _
    rw [if_pos (hend.resolve_left hnewline)]
    rfl

/-- A line with a token too many is not ended. -/
theorem endOfLine_trailing {t : Token} (ht : t.endsLine = false) (ts : List Token) :
    endOfLine (t :: ts) = .error (t.pos, .trailing t) (t :: ts) := by
  have hnot : t.kind ≠ .newline ∧ t.kind ≠ .eof := by simpa [Token.endsLine] using ht
  show (ite (t.kind = .newline) _ _ : Parsing Unit) _ = _
  rw [if_neg hnot.1]
  show (ite (t.kind = .eof) _ _ : Parsing Unit) _ = _
  rw [if_neg hnot.2]
  rfl

/-- What succeeds and has read all tokens of the line ends it. -/
theorem closing_of_stop {x : Parsing α} {a : α} {ts : List Token} (hstop : stop.endsLine = true)
    (h : x ts = .ok a (stop :: rest)) : closing x ts = .ok a (behind stop rest) :=
  (bind_of_ok h).trans (bind_of_ok (endOfLine_stop hstop))

/-- What succeeds and has left a token of the line is a fault. -/
theorem closing_of_trailing {x : Parsing α} {a : α} {ts ts' : List Token} {t : Token}
    (ht : t.endsLine = false) (h : x ts = .ok a (t :: ts')) :
    closing x ts = .error (t.pos, .trailing t) (t :: ts') :=
  (bind_of_ok h).trans (bind_of_error (endOfLine_trailing ht ts'))

/-- A fault ends no line. -/
theorem closing_of_error {x : Parsing α} {fault : PlacedFault} {ts ts' : List Token}
    (h : x ts = .error fault ts') : closing x ts = .error fault ts' := bind_of_error h

/-- A line is ended alike where the same is read before. -/
theorem closing_congr {x y : Parsing α} {ts us : List Token} (h : x ts = y us) :
    closing x ts = closing y us := by
  show EStateM.bind x _ ts = EStateM.bind y _ us
  unfold EStateM.bind
  rw [h]

/-- What is made of a result changes neither whether nor where its line ends. -/
theorem Ends.map {x : Parsing α} {y : Parsing β} {result : Except PlacedFault α}
    {ts us : List Token} {f : α → β} (hy : y us = (do return f (← x) : Parsing β) ts)
    (h : Ends stop rest result (closing x ts)) :
    Ends stop rest (result.map f) (closing y us) := by
  cases hrun : x ts with
  | error fault left =>
    rw [closing_of_error hrun] at h
    rw [closing_of_error (hy.trans (bind_of_error hrun))]
    cases h with
    | error fault hleft => exact .error fault hleft
  | ok a left =>
    have hmapped : y us = .ok (f a) left := hy.trans (bind_of_ok hrun)
    have hfirst : closing x ts = (endOfLine >>= fun _ => pure a) left := bind_of_ok hrun
    have hsecond : closing y us = (endOfLine >>= fun _ => pure (f a)) left := bind_of_ok hmapped
    rw [hfirst] at h
    rw [hsecond]
    cases hended : endOfLine left with
    | error fault left' =>
      rw [bind_of_error hended] at h ⊢
      cases h with
      | error fault hleft => exact .error fault hleft
    | ok u left' =>
      rw [bind_of_ok hended] at h ⊢
      cases h
      exact .ok (f a)

/-! ### Statements -/

/-- Arguments of which the first one is a fault. -/
theorem parseArgs_of_error {fault : PlacedFault} {ts ts' : List Token}
    (h : parseArg ts = .error fault ts') : parseArgs ts = .error fault ts' := by
  unfold parseArgs
  split
  · next h' =>
    rw [h] at h'
    cases h'
    rfl
  · next h' =>
    rw [h] at h'
    cases h'

/-- A single argument. -/
theorem parseArgs_of_last {arg : Arg} {ts ts' : List Token} (h : parseArg ts = .ok arg ts')
    (hlast : (current ts').kind ≠ .comma) : parseArgs ts = .ok [arg] ts' := by
  unfold parseArgs
  split
  · next h' =>
    rw [h] at h'
    cases h'
  · next h' =>
    rw [h] at h'
    cases h'
    exact dif_neg hlast

/-- An argument and the others after a comma. -/
theorem parseArgs_of_comma {arg : Arg} {ts ts' : List Token} (h : parseArg ts = .ok arg ts')
    (hcomma : (current ts').kind = .comma) :
    parseArgs ts = (do return arg :: (← parseArgs) : Parsing (List Arg)) ts'.tail := by
  conv => lhs; unfold parseArgs
  split
  · next h' =>
    rw [h] at h'
    cases h'
  · next h' =>
    rw [h] at h'
    cases h'
    rw [dif_pos hcomma]
    show _ = EStateM.bind parseArgs _ ts'.tail
    unfold EStateM.bind
    cases parseArgs ts'.tail with
    | ok args left => rfl
    | error fault left => rfl

/-- **Arguments end their line.** -/
theorem parseArgs_ends {us : List Token} (hus : ∀ u ∈ us, u.endsLine = false)
    (hstop : stop.endsLine = true) :
    Ends stop rest (readArgs stop us) (closing parseArgs (us ++ stop :: rest)) := by
  fun_induction readArgs stop us with
  | case1 us fault harg =>
    obtain ⟨left, hparse, hleft⟩ := parseArg_of_error hus hstop rest harg
    rw [closing_of_error (parseArgs_of_error hparse)]
    exact .error fault hleft
  | case2 us arg harg =>
    obtain ⟨hparse, -⟩ := parseArg_of_ok hus hstop rest harg
    have hlast : (current ([] ++ stop :: rest)).kind ≠ .comma := by
      intro hcomma
      change stop.kind = .comma at hcomma
      simp [Token.endsLine, hcomma] at hstop
    rw [closing_of_stop hstop (parseArgs_of_last hparse hlast)]
    exact .ok _
  | case3 us arg t left harg hcomma ih =>
    obtain ⟨hparse, hleft⟩ := parseArg_of_ok hus hstop rest harg
    exact (ih fun u hu => hleft u (List.mem_cons_of_mem t hu)).map
      (parseArgs_of_comma hparse hcomma)
  | case4 us arg t left harg hcomma =>
    obtain ⟨hparse, hleft⟩ := parseArg_of_ok hus hstop rest harg
    rw [closing_of_trailing (hleft t List.mem_cons_self) (parseArgs_of_last hparse hcomma)]
    exact .error _ hleft

/-- **Arguments that are left in a line end it**, if there are any or none. -/
theorem parseRest_ends {us : List Token} (hus : ∀ u ∈ us, u.endsLine = false)
    (hstop : stop.endsLine = true) :
    Ends stop rest (if us.isEmpty then .ok [] else readArgs stop us)
      (closing parseRest (us ++ stop :: rest)) := by
  cases us with
  | nil =>
    have hparse : parseRest (stop :: rest) = .ok [] (stop :: rest) := by
      show (ite (stop.endsLine = true) _ _ : Parsing (List Arg)) _ = _
      rw [if_pos hstop]
      rfl
    rw [List.nil_append, closing_of_stop hstop hparse]
    exact .ok []
  | cons u us =>
    have hparse : parseRest (u :: us ++ stop :: rest) = parseArgs (u :: us ++ stop :: rest) := by
      show (ite (u.endsLine = true) _ _ : Parsing (List Arg)) _ = _
      rw [if_neg (Bool.eq_false_iff.mp (hus u List.mem_cons_self))]
    rw [closing_congr hparse]
    exact parseArgs_ends hus hstop

/-- **An operation ends its line.** -/
theorem parseOperation_ends {us : List Token} (hus : ∀ u ∈ us, u.endsLine = false)
    (hstop : stop.endsLine = true) {st : Statement} (hst : st.args = []) :
    Ends stop rest (readOperation st stop us)
      (closing (parseOperation st) (us ++ stop :: rest)) := by
  have hend : stop.kind = .newline ∨ stop.kind = .eof := by simpa [Token.endsLine] using hstop
  cases us with
  | nil =>
    have hparse : parseOperation st (stop :: rest) = .ok st (stop :: rest) := by
      unfold parseOperation
      rw [view_bind]
      rcases hend with hkind | hkind <;> simp [current, hkind, pure_apply]
    rw [List.nil_append, closing_of_stop hstop hparse]
    exact .ok st
  | cons t us =>
    have hrest : ∀ u ∈ us, u.endsLine = false := fun u hu => hus u (List.mem_cons_of_mem t hu)
    have hcurrent : current (t :: us ++ stop :: rest) = t := rfl
    have hkinds := hus t List.mem_cons_self
    cases hkind : t.kind with
    | newline | eof => simp [Token.endsLine, hkind] at hkinds
    | ident | directive =>
      have hparse : parseOperation st (t :: us ++ stop :: rest) =
          (do return { st with op? := some t.literal.read, args := ← parseRest } :
            Parsing Statement) (us ++ stop :: rest) := by
        unfold parseOperation
        rw [view_bind, hcurrent]
        simp only [hkind]
        rfl
      have hread : readOperation st stop (t :: us) =
          (if us.isEmpty then .ok [] else readArgs stop us).map fun args =>
            { st with op? := some t.literal.read, args } := by
        simp only [readOperation, hkind]
        split
        · rw [Except.map, ← hst]
        · rfl
      rw [hread]
      exact (parseRest_ends hrest hstop).map hparse
    | bad | number | character | label | labelRef | address | comma | bang =>
      have hparse : ∃ fault, readOperation st stop (t :: us) = .error fault ∧
          parseOperation st (t :: us ++ stop :: rest) = .error fault (t :: us ++ stop :: rest) := by
        unfold parseOperation
        rw [view_bind, hcurrent]
        simp only [readOperation, hkind]
        exact ⟨_, rfl, rfl⟩
      obtain ⟨fault, hread, hparse⟩ := hparse
      rw [hread, closing_of_error hparse]
      exact .error fault hus

/-- **A statement ends its line.** -/
theorem parseStatement_ends (rest : List Token) {t : Token} {us : List Token}
    (hus : ∀ u ∈ t :: us, u.endsLine = false) (hstop : stop.endsLine = true) :
    ∃ result, readLine (t :: us, stop) = some result ∧
      Ends stop rest result (parseStatement (t :: us ++ stop :: rest)) := by
  have hrest : ∀ u ∈ us, u.endsLine = false := fun u hu => hus u (List.mem_cons_of_mem t hu)
  by_cases hlabel : t.kind = .label
  · have hread : parseLabel (t :: us ++ stop :: rest) =
        .ok (some t.literal.read) (us ++ stop :: rest) := by
      show (ite (t.kind = .label) _ _ : Parsing (Option String)) _ = _
      rw [if_pos hlabel]
      rfl
    have hparse : parseStatement (t :: us ++ stop :: rest) =
        closing (parseOperation { pos := t.pos, label? := some t.literal.read })
          (us ++ stop :: rest) := bind_of_ok hread
    rw [hparse]
    exact ⟨_, if_pos hlabel, parseOperation_ends hrest hstop rfl⟩
  · have hread : parseLabel (t :: us ++ stop :: rest) =
        .ok none (t :: us ++ stop :: rest) := by
      show (ite (t.kind = .label) _ _ : Parsing (Option String)) _ = _
      rw [if_neg hlabel]
      rfl
    have hparse : parseStatement (t :: us ++ stop :: rest) =
        closing (parseOperation { pos := t.pos }) (t :: us ++ stop :: rest) := bind_of_ok hread
    rw [hparse]
    exact ⟨_, if_neg hlabel, parseOperation_ends hus hstop rfl⟩

/-! ### The loop -/

/-- From wherever in a line, skipping leads to the next line. -/
theorem skipLine_append {us : List Token} (hus : ∀ u ∈ us, u.endsLine = false)
    (hstop : stop.endsLine = true) : skipLine (us ++ stop :: rest) = behind stop rest := by
  have hend : stop.kind = .newline ∨ stop.kind = .eof := by simpa [Token.endsLine] using hstop
  induction us with
  | nil =>
    rw [List.nil_append]
    unfold skipLine behind
    rcases hend with hkind | hkind <;> simp [hkind]
  | cons t us ih =>
    have ht : t.kind ≠ .newline ∧ t.kind ≠ .eof := by
      simpa [Token.endsLine] using hus t List.mem_cons_self
    have hskip : skipLine (t :: (us ++ stop :: rest)) = skipLine (us ++ stop :: rest) := by
      rw [skipLine]
      split
      · next hkind => exact absurd hkind ht.1
      · next hkind => exact absurd hkind ht.2
      · rfl
    rw [List.cons_append, hskip]
    exact ih fun u hu => hus u (List.mem_cons_of_mem t hu)

/-- At the end of the source there is nothing to read. -/
theorem parseProgram_of_eof {ts : List Token} (h : (current ts).kind = .eof) :
    parseProgram ts = ([], []) := by
  unfold parseProgram
  exact if_pos h

/-- The end of a line before any statement is nothing. -/
theorem parseProgram_of_newline {t : Token} (h : t.kind = .newline) (ts : List Token) :
    parseProgram (t :: ts) = parseProgram ts := by
  have heof : (current (t :: ts)).kind ≠ .eof := by simp [current, h]
  conv => lhs; unfold parseProgram
  rw [dif_neg heof]
  exact if_pos h

/-- A round of the loop that finds a statement, or a fault in its place. -/
theorem parseProgram_of_token {t : Token} (ht : t.endsLine = false) (ts : List Token) :
    parseProgram (t :: ts) = match parseStatement (t :: ts) with
      | .ok st rest => (st :: (parseProgram rest).1, (parseProgram rest).2)
      | .error fault rest =>
        ((parseProgram (skipLine rest)).1, fault :: (parseProgram (skipLine rest)).2) := by
  have hnot : t.kind ≠ .newline ∧ t.kind ≠ .eof := by simpa [Token.endsLine] using ht
  have hnewline : (current (t :: ts)).kind ≠ .newline := hnot.1
  have heof : (current (t :: ts)).kind ≠ .eof := hnot.2
  conv => lhs; unfold parseProgram
  rw [dif_neg heof, if_neg hnewline]
  split
  · next hrun => rw [hrun]
  · next hrun => rw [hrun]

/-- **One line is read as it is for itself**, and what is behind it after that. -/
theorem parseProgram_line {us : List Token} (hus : ∀ u ∈ us, u.endsLine = false)
    (hstop : stop.endsLine = true) {results : List (Except PlacedFault Statement)}
    (h : parseProgram (behind stop rest) = collect results) :
    parseProgram (us ++ stop :: rest) = collect ((readLine (us, stop)).toList ++ results) := by
  have hend : stop.kind = .newline ∨ stop.kind = .eof := by simpa [Token.endsLine] using hstop
  cases us with
  | nil =>
    show parseProgram (stop :: rest) = collect results
    rw [← h]
    unfold behind
    split
    · next hnewline => exact parseProgram_of_newline hnewline rest
    · rfl
  | cons t us =>
    obtain ⟨result, hread, hends⟩ := parseStatement_ends rest hus hstop
    have ht := hus t List.mem_cons_self
    rw [hread]
    generalize hrun : parseStatement (t :: us ++ stop :: rest) = outcome at hends
    cases hends with
    | ok st =>
      rw [List.cons_append, parseProgram_of_token ht, ← List.cons_append, hrun]
      dsimp only
      rw [h]
      rfl
    | error fault hleft =>
      rw [List.cons_append, parseProgram_of_token ht, ← List.cons_append, hrun]
      dsimp only
      rw [skipLine_append hleft hstop, h]
      rfl

/-- **All lines up to the end of the source**, from within a line on. -/
theorem parseProgram_lines {ts : List Token} (hts : ∀ t ∈ ts, t.kind ≠ .eof)
    (hstop : stop.kind = .eof) {us : List Token} (hus : ∀ u ∈ us, u.endsLine = false) :
    parseProgram (us ++ (ts ++ [stop])) =
      collect ((tokenLines (us ++ (ts ++ [stop]))).filterMap readLine) := by
  have hlast : stop.endsLine = true := by simp [Token.endsLine, hstop]
  induction ts generalizing us with
  | nil =>
    have hbehind : behind stop [] = [stop] := if_neg (by simp [hstop])
    have hnothing : parseProgram (behind stop []) = collect [] := by
      rw [hbehind]
      exact parseProgram_of_eof hstop
    rw [List.nil_append, parseProgram_line hus hlast hnothing, tokenLines_append hus hlast]
    cases hread : readLine (us, stop) <;> simp [hread, tokenLines]
  | cons t ts ih =>
    have hmore : ∀ u ∈ ts, u.kind ≠ .eof := fun u hu => hts u (List.mem_cons_of_mem t hu)
    by_cases ht : t.endsLine = true
    · have hnewline : t.kind = .newline := by
        have hend : t.kind = .newline ∨ t.kind = .eof := by simpa [Token.endsLine] using ht
        exact hend.resolve_right (hts t List.mem_cons_self)
      have hbehind : parseProgram (behind t (ts ++ [stop])) =
          collect ((tokenLines (ts ++ [stop])).filterMap readLine) := by
        rw [show behind t (ts ++ [stop]) = ts ++ [stop] from if_pos hnewline]
        exact ih hmore (List.forall_mem_nil _)
      rw [List.cons_append, parseProgram_line hus ht hbehind, tokenLines_append hus ht]
      cases hread : readLine (us, t) <;> simp [hread]
    · -- `t` belongs to the line that is being read
      have hinside : ∀ u ∈ us ++ [t], u.endsLine = false := by
        intro u hu
        rcases List.mem_append.mp hu with hu | hu
        · exact hus u hu
        · rw [List.mem_singleton.mp hu]
          exact Bool.eq_false_iff.mpr ht
      have hline := ih hmore hinside
      rwa [List.append_assoc, List.singleton_append, ← List.cons_append] at hline

end Parsing

/-- A scan ends with the mark of the end, and has no other. -/
theorem Scan.exists_init {c stop : Cursor} {ts : List Token} (h : Scan c ts stop) :
    ∃ init last, ts = init ++ [last] ∧ (∀ t ∈ init, t.kind ≠ .eof) ∧ last.kind = .eof := by
  induction h with
  | stop _ heof _ => exact ⟨[], _, rfl, List.forall_mem_nil _, heof⟩
  | token _ hne _ ih =>
    obtain ⟨init, last, rfl, hinit, hlast⟩ := ih
    exact ⟨_ :: init, last, rfl, List.forall_mem_cons.mpr ⟨hne, hinit⟩, hlast⟩

/-- **The parser finds the statements and the faults of the lines**, each once and in their
order. -/
theorem parseLines_eq (source : RawText) :
    parseLines source = collect ((tokenLines (tokens source)).filterMap readLine) := by
  obtain ⟨_, hscan⟩ := scan_tokensFrom source ⟨1, 1⟩
  obtain ⟨init, last, htokens, hinit, hlast⟩ := hscan.exists_init
  have hparse := Parsing.parseProgram_lines hinit hlast (List.forall_mem_nil _)
  rwa [List.nil_append, ← htokens] at hparse

end CellMachine
