import CellMachine.Proofs.Source.Lines

/-!
# Lines of tokens and their statements

A statement is read from the kinds and the texts of its tokens; the places of the tokens only become
places in the statement. The relations here say which tokens make up an argument, a list of
arguments, an operation and a line, and what they say. The reader of lines finds them, and it
accepts all of them.

* `ArgTokens`, `ArgsTokens`, `OpTokens`, `LineTokens` — the tokens of the parts of a line.
* `lineTokens_of_readLine` — **a line that is read has such tokens**, if they are spelled well.
* `readLine_of_lineTokens` — **a line of such tokens is read**, wherever they stand.
-/

namespace CellMachine

/-- A token without its place: its kind and its text. -/
abbrev Lexeme := TokenKind × RawText

/-- The token without its place. -/
def Token.lexeme (t : Token) : Lexeme := (t.kind, t.literal)

/-! ### The relations -/

/-- The tokens of an argument and its text. -/
inductive ArgTokens : List Lexeme → RawText → Prop
  | number {w : RawText} : w.IsNumber → ArgTokens [(.number, w)] w
  | character {body : RawText} : body.IsLiteralRest →
    ArgTokens [(.character, .char '\'' :: body)] (.char '\'' :: body)
  | word {w : RawText} : w.IsWord → ArgTokens [(.ident, w)] w
  | label {w : RawText} : w.IsWord → ArgTokens [(.labelRef, w)] (.char ':' :: w)
  | location {w : RawText} : w.IsWord ∨ w.IsDigits → ArgTokens [(.address, w)] (.char '&' :: w)
  | notWord {w : RawText} : w.IsWord →
    ArgTokens [(.bang, [.char '!']), (.ident, w)] (.char '!' :: w)
  | notNumber {w : RawText} : w.IsNumber →
    ArgTokens [(.bang, [.char '!']), (.number, w)] (.char '!' :: w)

/-- The tokens of arguments between commas, and the texts of the arguments. -/
inductive ArgsTokens : List Lexeme → List RawText → Prop
  | last {ps : List Lexeme} {text : RawText} : ArgTokens ps text → ArgsTokens ps [text]
  | more {ps qs : List Lexeme} {text : RawText} {texts : List RawText} : ArgTokens ps text →
    ArgsTokens qs texts → ArgsTokens (ps ++ (.comma, [.char ',']) :: qs) (text :: texts)

/-- The token of an instruction or directive. -/
inductive IsOp : TokenKind → RawText → Prop
  | word {w : RawText} : w.IsWord → IsOp .ident w
  | directive {name : RawText} : name.IsWord → IsOp .directive (.char '.' :: name)

/-- The tokens of an instruction or directive with its arguments. -/
inductive OpTokens : List Lexeme → String → List RawText → Prop
  | bare {kind : TokenKind} {w : RawText} : IsOp kind w → OpTokens [(kind, w)] w.read []
  | applied {kind : TokenKind} {w : RawText} {ps : List Lexeme} {texts : List RawText} :
    IsOp kind w → ArgsTokens ps texts → OpTokens ((kind, w) :: ps) w.read texts

/-- The tokens of a line, with its label, its operation and the texts of its arguments. -/
inductive LineTokens : List Lexeme → Option String → Option String → List RawText → Prop
  | label {w : RawText} : w.IsWord → LineTokens [(.label, w)] (some w.read) none []
  | plain {ps : List Lexeme} {op : String} {texts : List RawText} :
    OpTokens ps op texts → LineTokens ps none (some op) texts
  | labelled {w : RawText} {ps : List Lexeme} {op : String} {texts : List RawText} : w.IsWord →
    OpTokens ps op texts → LineTokens ((.label, w) :: ps) (some w.read) (some op) texts

/-! ### No token of a line ends it or is bad -/

/-- A token that does not end a line. -/
def Lexeme.Inside (p : Lexeme) : Prop := p.1 ≠ .newline ∧ p.1 ≠ .eof

/-- A token that can be part of a statement. -/
def Lexeme.Readable (p : Lexeme) : Prop := p.Inside ∧ p.1 ≠ .bad

/-- The tokens of an argument can be part of a statement. -/
theorem ArgTokens.readable {ps : List Lexeme} {text : RawText} (h : ArgTokens ps text) :
    ∀ p ∈ ps, p.Readable := by
  cases h <;> simp [Lexeme.Readable, Lexeme.Inside]

/-- The tokens of arguments can be part of a statement. -/
theorem ArgsTokens.readable {ps : List Lexeme} {texts : List RawText} (h : ArgsTokens ps texts) :
    ∀ p ∈ ps, p.Readable := by
  induction h with
  | last harg => exact harg.readable
  | more harg _ ih =>
    rw [List.forall_mem_append, List.forall_mem_cons]
    exact ⟨harg.readable, by simp [Lexeme.Readable, Lexeme.Inside], ih⟩

/-- The tokens of an operation can be part of a statement. -/
theorem OpTokens.readable {ps : List Lexeme} {op : String} {texts : List RawText}
    (h : OpTokens ps op texts) : ∀ p ∈ ps, p.Readable := by
  have hfirst : ∀ {kind : TokenKind} {w : RawText}, IsOp kind w → Lexeme.Readable (kind, w) := by
    intro kind w hop
    cases hop <;> simp [Lexeme.Readable, Lexeme.Inside]
  cases h with
  | bare hop => exact List.forall_mem_singleton.mpr (hfirst hop)
  | applied hop hargs => exact List.forall_mem_cons.mpr ⟨hfirst hop, hargs.readable⟩

/-- The tokens of a line can be part of a statement. -/
theorem LineTokens.readable {ps : List Lexeme} {label? op? : Option String} {texts : List RawText}
    (h : LineTokens ps label? op? texts) : ∀ p ∈ ps, p.Readable := by
  cases h with
  | label => simp [Lexeme.Readable, Lexeme.Inside]
  | plain hop => exact hop.readable
  | labelled _ hop =>
    exact List.forall_mem_cons.mpr ⟨by simp [Lexeme.Readable, Lexeme.Inside], hop.readable⟩

/-- The tokens of a line stand inside it. -/
theorem LineTokens.inside {ps : List Lexeme} {label? op? : Option String} {texts : List RawText}
    (h : LineTokens ps label? op? texts) : ∀ p ∈ ps, p.Inside := fun p hp => (h.readable p hp).1

/-! ### Reading arguments one after the other -/

variable {stop : Token} {ts rest : List Token} {arg : Arg}

/-- A faulty argument spoils the list. -/
theorem readArgs_of_fault {fault : PlacedFault} (h : readArg stop ts = .error fault) :
    readArgs stop ts = .error fault := by
  rw [readArgs]
  split <;> simp_all

/-- The last argument of a list. -/
theorem readArgs_of_last (h : readArg stop ts = .ok (arg, [])) :
    readArgs stop ts = .ok [arg] := by
  rw [readArgs]
  split <;> simp_all

/-- An argument that is not the last one. -/
theorem readArgs_of_more {t : Token} (h : readArg stop ts = .ok (arg, t :: rest)) :
    readArgs stop ts =
      if t.kind = .comma then (readArgs stop rest).map (arg :: ·)
      else faultAt t (.trailing t) := by
  rw [readArgs]
  split <;> simp_all

/-! ### What is read has such tokens -/

/-- An argument that is read has the tokens of one. -/
theorem argTokens_of_readArg (hspelled : ∀ t ∈ ts, t.Spelled)
    (h : readArg stop ts = .ok (arg, rest)) :
    ∃ used, ts = used ++ rest ∧ ArgTokens (used.map Token.lexeme) arg.text := by
  cases ts with
  | nil => cases h
  | cons t ts =>
    have ht := hspelled t (List.mem_cons_self ..)
    obtain ⟨kind, literal, pos⟩ := t
    cases kind with
    | number =>
      cases h
      exact ⟨[_], rfl, .number ht⟩
    | character =>
      cases h
      obtain ⟨body, hliteral, hbody⟩ := ht
      refine ⟨[_], rfl, ?_⟩
      cases hliteral
      exact .character hbody
    | ident =>
      cases h
      exact ⟨[_], rfl, .word ht⟩
    | labelRef =>
      cases h
      exact ⟨[_], rfl, .label ht⟩
    | address =>
      cases h
      exact ⟨[_], rfl, .location ht⟩
    -- what is negated is the next token, of which the reader asks no more than its kind
    | bang =>
      cases ts with
      | nil => cases h
      | cons u ts =>
        have hu := hspelled u (List.mem_cons_of_mem _ (List.mem_cons_self ..))
        have hbang : literal = [.char '!'] := ht
        subst hbang
        unfold readArg at h
        simp only [] at h
        split at h
        · next hkind =>
          cases h
          refine ⟨[_, u], rfl, ?_⟩
          obtain ⟨kind, literal, place⟩ := u
          rcases hkind with hkind | hkind
          · cases hkind
            exact .notWord hu
          · cases hkind
            exact .notNumber hu
        · cases h
    | eof | bad | newline | directive | label | comma => cases h

/-- Arguments that are read have the tokens of some. -/
theorem argsTokens_of_readArgs {args : List Arg} (hspelled : ∀ t ∈ ts, t.Spelled)
    (h : readArgs stop ts = .ok args) :
    ArgsTokens (ts.map Token.lexeme) (args.map Arg.text) := by
  induction ts using readArgs.induct stop generalizing args with
  | case1 ts fault harg =>
    rw [readArgs_of_fault harg] at h
    cases h
  | case2 ts arg harg =>
    rw [readArgs_of_last harg] at h
    cases h
    obtain ⟨used, hts, harg⟩ := argTokens_of_readArg hspelled harg
    rw [hts, List.append_nil]
    exact .last harg
  | case3 ts arg t rest harg hcomma ih =>
    rw [readArgs_of_more harg, if_pos hcomma] at h
    obtain ⟨used, hts, hused⟩ := argTokens_of_readArg hspelled harg
    have hrest : ∀ u ∈ t :: rest, u.Spelled := by
      intro u hu
      exact hspelled u (hts ▸ List.mem_append_right used hu)
    have ht : t.lexeme = (.comma, [.char ',']) := by
      have hspelled := hrest t (List.mem_cons_self ..)
      obtain ⟨kind, literal, pos⟩ := t
      cases hcomma
      exact congrArg (Prod.mk TokenKind.comma) hspelled
    cases hargs : readArgs stop rest with
    | error fault =>
      rw [hargs] at h
      cases h
    | ok others =>
      rw [hargs] at h
      cases h
      rw [hts, List.map_append, List.map_cons, ht]
      exact .more hused (ih (fun u hu => hrest u (List.mem_cons_of_mem t hu)) hargs)
  | case4 ts arg t rest harg hcomma =>
    rw [readArgs_of_more harg, if_neg hcomma] at h
    cases h

/-- The token with which an operation begins. -/
theorem isOp_of_spelled {t : Token} (hspelled : t.Spelled)
    (h : t.kind = .ident ∨ t.kind = .directive) : IsOp t.kind t.literal := by
  obtain ⟨kind, literal, pos⟩ := t
  rcases h with h | h
  · cases h
    exact .word hspelled
  · cases h
    obtain ⟨name, hliteral, hname⟩ := hspelled
    cases hliteral
    exact .directive hname

/-- An operation that begins with its token. -/
theorem readOperation_of_op {t : Token} (h : t.kind = .ident ∨ t.kind = .directive)
    (st : Statement) (rest : List Token) :
    readOperation st stop (t :: rest) =
      if rest.isEmpty then .ok { st with op? := some t.literal.read }
      else (readArgs stop rest).map fun args => { st with op? := some t.literal.read, args } := by
  obtain ⟨kind, literal, pos⟩ := t
  rcases h with h | h
  · cases h
    rfl
  · cases h
    rfl

/-- Whatever else begins a line is no operation. -/
theorem op_of_readOperation {t : Token} {st st' : Statement} {rest : List Token}
    (h : readOperation st stop (t :: rest) = .ok st') :
    t.kind = .ident ∨ t.kind = .directive := by
  obtain ⟨kind, literal, pos⟩ := t
  cases kind with
  | ident => exact .inl rfl
  | directive => exact .inr rfl
  | eof | bad | newline | number | character | label | labelRef | address | comma | bang => cases h

/-- An operation that is read has the tokens of one. The label of its statement is left alone. -/
theorem opTokens_of_readOperation {t : Token} {st st' : Statement} (hargs : st.args = [])
    (hspelled : ∀ u ∈ t :: ts, u.Spelled) (h : readOperation st stop (t :: ts) = .ok st') :
    ∃ op, st'.label? = st.label? ∧ st'.op? = some op ∧
      OpTokens ((t :: ts).map Token.lexeme) op (st'.args.map Arg.text) := by
  have hkind := op_of_readOperation h
  have hop := isOp_of_spelled (hspelled t (List.mem_cons_self ..)) hkind
  rw [readOperation_of_op hkind] at h
  cases ts with
  | nil =>
    cases h
    refine ⟨t.literal.read, rfl, rfl, ?_⟩
    rw [hargs]
    exact .bare hop
  | cons u rest =>
    cases hparsed : readArgs stop (u :: rest) with
    | error fault =>
      rw [hparsed] at h
      cases h
    | ok args =>
      rw [hparsed] at h
      cases h
      refine ⟨t.literal.read, rfl, rfl, .applied hop ?_⟩
      exact argsTokens_of_readArgs (fun v hv => hspelled v (List.mem_cons_of_mem t hv)) hparsed

/-- A line with tokens is read by its first one. -/
theorem readLine_cons (t : Token) (rest : List Token) (stop : Token) :
    readLine (t :: rest, stop) =
      if t.kind = .label then
        some (readOperation { pos := t.pos, label? := some t.literal.read } stop rest)
      else some (readOperation { pos := t.pos } stop (t :: rest)) := rfl

/-- **A line that is read has the tokens of one.** -/
theorem lineTokens_of_readLine {body : List Token} {st : Statement}
    (hspelled : ∀ t ∈ body, t.Spelled) (h : readLine (body, stop) = some (.ok st)) :
    LineTokens (body.map Token.lexeme) st.label? st.op? (st.args.map Arg.text) := by
  cases body with
  | nil => cases h
  | cons t rest =>
    rw [readLine_cons] at h
    by_cases hlabel : t.kind = .label
    · rw [if_pos hlabel] at h
      have ht : t.literal.IsWord := by
        have hspelled := hspelled t (List.mem_cons_self ..)
        obtain ⟨kind, literal, pos⟩ := t
        cases hlabel
        exact hspelled
      have hlexeme : t.lexeme = (.label, t.literal) := congrArg (·, t.literal) hlabel
      rw [List.map_cons, hlexeme]
      cases rest with
      | nil =>
        cases h
        exact .label ht
      | cons u rest =>
        obtain ⟨op, hlabel?, hop?, htokens⟩ := opTokens_of_readOperation rfl
          (fun v hv => hspelled v (List.mem_cons_of_mem t hv)) (Option.some.inj h)
        rw [hlabel?, hop?]
        exact .labelled ht htokens
    · rw [if_neg hlabel] at h
      obtain ⟨op, hlabel?, hop?, htokens⟩ :=
        opTokens_of_readOperation rfl hspelled (Option.some.inj h)
      rw [hlabel?, hop?]
      exact .plain htokens

/-! ### Such tokens are read -/

/-- One token with a given kind and text. -/
theorem eq_singleton_of_lexeme {ts : List Token} {kind : TokenKind} {literal : RawText}
    (h : ts.map Token.lexeme = [(kind, literal)]) : ∃ pos, ts = [⟨kind, literal, pos⟩] := by
  obtain ⟨t, rfl, ht⟩ := List.map_eq_singleton_iff.mp h
  cases ht
  exact ⟨t.pos, rfl⟩

/-- A first token with a given kind and text. -/
theorem eq_cons_of_lexeme {ts : List Token} {kind : TokenKind} {literal : RawText}
    {ps : List Lexeme} (h : ts.map Token.lexeme = (kind, literal) :: ps) :
    ∃ pos rest, ts = ⟨kind, literal, pos⟩ :: rest ∧ rest.map Token.lexeme = ps := by
  obtain ⟨t, rest, rfl, ht, hrest⟩ := List.map_eq_cons_iff.mp h
  cases ht
  exact ⟨t.pos, rest, rfl, hrest⟩

/-- The tokens of an argument are read as it. -/
theorem readArg_of_argTokens {ps : List Lexeme} {text : RawText} (h : ArgTokens ps text)
    {used : List Token} (hused : used.map Token.lexeme = ps) (stop : Token) (rest : List Token) :
    ∃ arg, readArg stop (used ++ rest) = .ok (arg, rest) ∧ arg.text = text := by
  cases h with
  | number | character | word | label | location =>
    obtain ⟨pos, rfl⟩ := eq_singleton_of_lexeme hused
    exact ⟨_, rfl, rfl⟩
  | notWord | notNumber =>
    obtain ⟨pos, others, rfl, hothers⟩ := eq_cons_of_lexeme hused
    obtain ⟨place, rfl⟩ := eq_singleton_of_lexeme hothers
    exact ⟨_, rfl, rfl⟩

/-- The tokens of arguments are read as them. -/
theorem readArgs_of_argsTokens {ps : List Lexeme} {texts : List RawText} (h : ArgsTokens ps texts)
    (stop : Token) : ∀ {ts : List Token}, ts.map Token.lexeme = ps →
      ∃ args, readArgs stop ts = .ok args ∧ args.map Arg.text = texts := by
  induction h with
  | last harg =>
    intro ts hts
    obtain ⟨arg, hparsed, htext⟩ := readArg_of_argTokens harg hts stop []
    rw [List.append_nil] at hparsed
    exact ⟨[arg], readArgs_of_last hparsed, congrArg (fun text => [text]) htext⟩
  | more harg _ ih =>
    intro ts hts
    obtain ⟨used, others, rfl, hused, hothers⟩ := List.map_eq_append_iff.mp hts
    obtain ⟨pos, rest, rfl, hrest⟩ := eq_cons_of_lexeme hothers
    obtain ⟨arg, hparsed, htext⟩ := readArg_of_argTokens harg hused stop (_ :: rest)
    obtain ⟨args, hargs, htexts⟩ := ih hrest
    refine ⟨arg :: args, ?_, ?_⟩
    · rw [readArgs_of_more hparsed, if_pos rfl, hargs]
      rfl
    · rw [List.map_cons, htext, htexts]

/-- An operation begins with a name or a directive. -/
theorem IsOp.kind {kind : TokenKind} {w : RawText} (h : IsOp kind w) :
    kind = .ident ∨ kind = .directive := by
  cases h with
  | word => exact .inl rfl
  | directive => exact .inr rfl

/-- The tokens of an operation are read as it. -/
theorem readOperation_of_opTokens {ps : List Lexeme} {op : String} {texts : List RawText}
    (h : OpTokens ps op texts) {ts : List Token} (hts : ts.map Token.lexeme = ps) {st : Statement}
    (hargs : st.args = []) (stop : Token) :
    ∃ args, readOperation st stop ts = .ok { st with op? := some op, args } ∧
      args.map Arg.text = texts := by
  cases h with
  | bare hop =>
    obtain ⟨pos, rfl⟩ := eq_singleton_of_lexeme hts
    refine ⟨[], ?_, rfl⟩
    rw [readOperation_of_op hop.kind, ← hargs]
    rfl
  | applied hop htokens =>
    obtain ⟨pos, rest, rfl, hrest⟩ := eq_cons_of_lexeme hts
    obtain ⟨args, hparsed, htexts⟩ := readArgs_of_argsTokens htokens stop hrest
    refine ⟨args, ?_, htexts⟩
    rw [readOperation_of_op hop.kind, hparsed]
    cases rest with
    | nil =>
      rw [readArgs_of_fault rfl] at hparsed
      cases hparsed
    | cons u rest => rfl

/-- **A line of such tokens is read**, wherever they stand. -/
theorem readLine_of_lineTokens {ps : List Lexeme} {label? op? : Option String}
    {texts : List RawText} (h : LineTokens ps label? op? texts) {body : List Token}
    (hbody : body.map Token.lexeme = ps) (stop : Token) :
    ∃ st, readLine (body, stop) = some (.ok st) ∧ st.label? = label? ∧ st.op? = op? ∧
      st.args.map Arg.text = texts := by
  cases h with
  | label =>
    obtain ⟨pos, rfl⟩ := eq_singleton_of_lexeme hbody
    exact ⟨_, rfl, rfl, rfl, rfl⟩
  | @plain _ op _ htokens =>
    cases body with
    | nil => cases hbody ▸ htokens
    | cons t rest =>
      obtain ⟨args, hparsed, htexts⟩ := readOperation_of_opTokens htokens hbody
        (show Statement.args { pos := t.pos } = [] from rfl) stop
      refine ⟨{ pos := t.pos, op? := some op, args }, ?_, rfl, rfl, htexts⟩
      have hlabel : t.kind ≠ .label := by
        rcases op_of_readOperation hparsed with hkind | hkind
        · simp [hkind]
        · simp [hkind]
      rw [readLine_cons, if_neg hlabel, hparsed]
  | @labelled w _ op _ _ htokens =>
    obtain ⟨pos, rest, rfl, hrest⟩ := eq_cons_of_lexeme hbody
    obtain ⟨args, hparsed, htexts⟩ := readOperation_of_opTokens htokens hrest
      (show Statement.args { pos, label? := some w.read } = [] from rfl) stop
    refine ⟨{ pos, label? := some w.read, op? := some op, args }, ?_, rfl, rfl, htexts⟩
    rw [readLine_cons, if_pos rfl, hparsed]

end CellMachine
