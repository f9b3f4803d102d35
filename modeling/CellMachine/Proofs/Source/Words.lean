import CellMachine.Proofs.Operand.Spelling
import CellMachine.Proofs.Source.Listing

/-!
# Words are names

Names are told twice: while a source is split into tokens, and when the text of an argument is read
as an operand. The two readers have classes of characters of their own. A word of a source goes on
with ASCII digits, a name with the digits of every script; a dot may begin a name, but no word; and
the text of an operand is freed of blanks first. What matters is that the one notion is contained in
the other: what a source takes for a word is a name to every reader after.

* `RawText.IsWord.isName` — a word is a name.
* `Token.BearsName` — the tokens whose literals are to be names.
* `BuiltFrom`, `exists_builtFrom` — the token from which an argument is built.
* `BuiltFrom.parseOperand_text` — **an argument built from a name is read as its operand.**
* `BuiltFrom.negated` — what stands behind a `!`.
-/

namespace CellMachine

/-! ### Words and names -/

/-- What starts a word starts a name. -/
theorem startsName_of_startsWord {c : Char} (h : startsWord c = true) :
    Text.startsName c = true := by
  simp only [startsWord, Bool.or_eq_true] at h
  simp only [Text.startsName, Bool.or_eq_true]
  tauto

/-- What goes on with a word goes on with a name. -/
theorem continuesName_of_continuesWord {c : Char} (h : continuesWord c = true) :
    Text.continuesName c = true := by
  simp only [continuesWord, Bool.or_eq_true, beq_iff_eq] at h
  rcases h with (hstarts | hdigit) | rfl
  · rw [Text.continuesName, startsName_of_startsWord hstarts, Bool.true_or]
  · exact Text.continuesName_of_isDigit hdigit
  · decide

/-- **A word of a source is a name.** -/
theorem RawText.IsWord.isName {w : RawText} (h : w.IsWord) : Text.isName w.read = true := by
  obtain ⟨g, more, rfl, hg⟩ := h.exists_cons
  simp only [Text.isName, RawText.read, String.toList_ofList, List.map_cons, Text.isNameChars,
    Bool.and_eq_true, List.all_eq_true]
  refine ⟨startsName_of_startsWord hg, ?_⟩
  intro c hc
  obtain ⟨g', hg', rfl⟩ := List.mem_map.mp hc
  exact continuesName_of_continuesWord (h.goesOn g' (List.mem_cons_of_mem g hg'))

/-! ### Tokens with names -/

/-- The literal of a token is to be a name: the token is a name, the definition or the use of a
label, or a location that does not start with a digit. -/
def Token.BearsName (t : Token) : Prop :=
  t.kind = .ident ∨ t.kind = .label ∨ t.kind = .labelRef ∨
    (t.kind = .address ∧ headIs Char.isDigit t.literal = false)

/-- The operand of a name, by the kind of the token that bears it. -/
def TokenKind.operand? (name : String) : TokenKind → Option Operand
  | .ident => some (.contents (.named name))
  | .labelRef => some (.label name)
  | .address => some (.location (.named name))
  | _ => none

/-- The literal of such a token is a word. -/
theorem Token.BearsName.isWord {t : Token} (h : t.BearsName) (hspelled : t.Spelled) :
    t.literal.IsWord := by
  obtain ⟨kind, literal, pos⟩ := t
  rcases h with h | h | h | ⟨h, hdigit⟩ <;> cases h
  · exact hspelled
  · exact hspelled
  · exact hspelled
  · rcases hspelled with hword | hdigits
    · exact hword
    · exact absurd hdigits.starts (by simp [hdigit])

/-- Only the definition of a label bears a name that is no operand. -/
theorem Token.BearsName.exists_operand {t : Token} (h : t.BearsName) (hlabel : t.kind ≠ .label)
    (name : String) : ∃ operand, t.kind.operand? name = some operand := by
  rcases h with h | h | h | ⟨h, -⟩
  · exact ⟨_, by rw [h]; rfl⟩
  · exact absurd h hlabel
  · exact ⟨_, by rw [h]; rfl⟩
  · exact ⟨_, by rw [h]; rfl⟩

/-- The operand of a name has that name. -/
theorem TokenKind.named_of_operand? {kind : TokenKind} {name : String} {operand : Operand}
    (h : kind.operand? name = some operand) (hname : Text.isName name = true) :
    operand.Named := by
  cases kind <;> cases h <;> exact hname

/-! ### Arguments and their tokens -/

section Building

variable {stop : Token} {ts : List Token} {arg : Arg}

/-- Among some tokens one begins an argument. -/
def Begins (stop : Token) (ts : List Token) (arg : Arg) : Prop :=
  ∃ before t rest after, ts = before ++ t :: rest ∧ readArg stop (t :: rest) = .ok (arg, after)

/-- What begins among some tokens begins among more. -/
theorem Begins.append_left (h : Begins stop ts arg) (front : List Token) :
    Begins stop (front ++ ts) arg := by
  obtain ⟨before, t, rest, after, rfl, harg⟩ := h
  exact ⟨front ++ before, t, rest, after, (List.append_assoc ..).symm, harg⟩

/-- An argument that is read begins at the first token. -/
theorem begins_of_readArg {rest : List Token} (h : readArg stop ts = .ok (arg, rest)) :
    Begins stop ts arg := by
  cases ts with
  | nil => cases h
  | cons t ts => exact ⟨[], t, ts, rest, rfl, h⟩

/-- Each argument of a list begins at one of the tokens. -/
theorem begins_of_readArgs {args : List Arg} (hspelled : ∀ t ∈ ts, t.Spelled)
    (h : readArgs stop ts = .ok args) (harg : arg ∈ args) : Begins stop ts arg := by
  induction ts using readArgs.induct stop generalizing args with
  | case1 ts fault hfirst =>
    rw [readArgs_of_fault hfirst] at h
    cases h
  | case2 ts first hfirst =>
    rw [readArgs_of_last hfirst] at h
    cases h
    obtain rfl := List.mem_singleton.mp harg
    exact begins_of_readArg hfirst
  | case3 ts first t rest hfirst hcomma ih =>
    rw [readArgs_of_more hfirst, if_pos hcomma] at h
    obtain ⟨used, hts, -⟩ := argTokens_of_readArg hspelled hfirst
    cases hothers : readArgs stop rest with
    | error fault =>
      rw [hothers] at h
      cases h
    | ok others =>
      rw [hothers] at h
      cases h
      rcases List.mem_cons.mp harg with rfl | hother
      · exact begins_of_readArg hfirst
      · have hrest : Begins stop rest arg := ih
          (fun u hu => hspelled u (hts ▸ List.mem_append_right used (List.mem_cons_of_mem t hu)))
          hothers hother
        rw [hts, List.append_cons]
        exact hrest.append_left (used ++ [t])
  | case4 ts first t rest hfirst hcomma =>
    rw [readArgs_of_more hfirst, if_neg hcomma] at h
    cases h

/-- Each argument of an operation begins at one of its tokens. -/
theorem begins_of_readOperation {st st' : Statement} (hargs : st.args = [])
    (hspelled : ∀ t ∈ ts, t.Spelled) (h : readOperation st stop ts = .ok st')
    (harg : arg ∈ st'.args) : Begins stop ts arg := by
  cases ts with
  | nil =>
    cases h
    rw [hargs] at harg
    cases harg
  | cons t rest =>
    rw [readOperation_of_op (op_of_readOperation h)] at h
    split at h
    · cases h
      rw [hargs] at harg
      cases harg
    · cases hparsed : readArgs stop rest with
      | error fault =>
        rw [hparsed] at h
        cases h
      | ok args =>
        rw [hparsed] at h
        cases h
        have hrest := begins_of_readArgs (fun u hu => hspelled u (List.mem_cons_of_mem t hu))
          hparsed harg
        exact hrest.append_left [t]

/-- Each argument of a line begins at one of its tokens. -/
theorem begins_of_readLine {st : Statement} (hspelled : ∀ t ∈ ts, t.Spelled)
    (h : readLine (ts, stop) = some (.ok st)) (harg : arg ∈ st.args) : Begins stop ts arg := by
  cases ts with
  | nil => cases h
  | cons t rest =>
    rw [readLine_cons] at h
    split at h
    · have hrest := begins_of_readOperation rfl
        (fun u hu => hspelled u (List.mem_cons_of_mem t hu)) (Option.some.inj h) harg
      exact hrest.append_left [t]
    · exact begins_of_readOperation rfl hspelled (Option.some.inj h) harg

end Building

/-- The argument that is read when a token of the source is where it begins. -/
def BuiltFrom (source : RawText) (t : Token) (arg : Arg) : Prop :=
  ∃ line ∈ tokenLines (tokens source), ∃ before rest after,
    line.1 = before ++ t :: rest ∧ readArg line.2 (t :: rest) = .ok (arg, after)

variable {source : RawText}

/-- The statements that are collected are read from lines. -/
theorem mem_of_mem_collect {results : List (Except PlacedFault Statement)} {st : Statement}
    (h : st ∈ (collect results).1) : .ok st ∈ results := by
  induction results with
  | nil => cases h
  | cons result rest ih =>
    cases result with
    | error fault => exact List.mem_cons_of_mem _ (ih h)
    | ok first =>
      rcases List.mem_cons.mp h with rfl | hrest
      · exact List.mem_cons_self ..
      · exact List.mem_cons_of_mem _ (ih hrest)

/-- The tokens of a line are spelled as their kinds demand. -/
theorem spelled_of_mem_tokenLines {line : TokenLine} (h : line ∈ tokenLines (tokens source)) :
    ∀ t ∈ line.1, t.Spelled := fun t ht =>
  tokensFrom_spelled source ⟨1, 1⟩ t (mem_of_mem_tokenLines h t ht)

/-- **Every argument of a statement is built from a token of the source.** -/
theorem exists_builtFrom {st : Statement} (hst : st ∈ (parseLines source).1) {arg : Arg}
    (harg : arg ∈ st.args) : ∃ t ∈ tokens source, BuiltFrom source t arg := by
  rw [parseLines_eq] at hst
  obtain ⟨⟨body, stop⟩, hline, hparsed⟩ := List.mem_filterMap.mp (mem_of_mem_collect hst)
  obtain ⟨before, t, rest, after, hbody, hbuilt⟩ :=
    begins_of_readLine (spelled_of_mem_tokenLines hline) hparsed harg
  have ht : t ∈ body := by
    rw [show body = before ++ t :: rest from hbody]
    exact List.mem_append_right before (List.mem_cons_self ..)
  exact ⟨t, mem_of_mem_tokenLines hline t ht, _, hline, before, rest, after, hbody, hbuilt⟩

/-- The token from which an argument is built is spelled as its kind demands. -/
theorem BuiltFrom.spelled {t : Token} {arg : Arg} (h : BuiltFrom source t arg) : t.Spelled := by
  obtain ⟨line, hline, before, rest, after, hbody, -⟩ := h
  exact spelled_of_mem_tokenLines hline t (by simp [hbody])

/-- A mark before a text. -/
theorem RawText.read_mark (mark : Char) (w : RawText) :
    read (.char mark :: w) = String.singleton mark ++ w.read := by
  rw [← String.toList_inj]
  simp [read, Glyph.read]

/-- An argument that is built from a name is written as the operand of that name. -/
theorem BuiltFrom.text_eq {t : Token} {arg : Arg} (h : BuiltFrom source t arg) {operand : Operand}
    (hoperand : t.kind.operand? t.literal.read = some operand) :
    arg.text.read = operand.text := by
  obtain ⟨line, -, before, rest, after, -, hbuilt⟩ := h
  obtain ⟨kind, literal, pos⟩ := t
  cases kind <;> cases hoperand
  · cases hbuilt
    rfl
  · cases hbuilt
    exact RawText.read_mark ':' literal
  · cases hbuilt
    exact RawText.read_mark '&' literal

/-- No argument begins with the definition of a label. -/
theorem BuiltFrom.kind_ne_label {t : Token} {arg : Arg} (h : BuiltFrom source t arg) :
    t.kind ≠ .label := by
  intro hkind
  obtain ⟨line, -, before, rest, after, -, hbuilt⟩ := h
  simp [readArg, hkind, faultAt] at hbuilt

/-- **An argument built from a name is read as the operand of that name.** -/
theorem BuiltFrom.parseOperand_text {t : Token} {arg : Arg} (h : BuiltFrom source t arg)
    (hname : t.BearsName) : ∃ operand, t.kind.operand? t.literal.read = some operand ∧
      parseOperand arg.text.read = .ok operand := by
  obtain ⟨operand, hoperand⟩ := hname.exists_operand h.kind_ne_label t.literal.read
  have hnamed : operand.Named :=
    TokenKind.named_of_operand? hoperand (hname.isWord h.spelled).isName
  refine ⟨operand, hoperand, ?_⟩
  rw [h.text_eq hoperand]
  exact hnamed.parseOperand_text

/-- **Behind a `!` there stands a number or a name**, and the name is read as a variable. -/
theorem BuiltFrom.negated {t : Token} {arg : Arg} (h : BuiltFrom source t arg)
    (hbang : t.kind = .bang) : ∃ u ∈ tokens source, arg.text = .char '!' :: u.literal ∧
      (u.kind = .number ∨
        u.kind = .ident ∧
          parseOperand u.literal.read = .ok (.contents (.named u.literal.read))) := by
  obtain ⟨line, hline, before, rest, after, hbody, hbuilt⟩ := h
  cases rest with
  | nil => simp [readArg, hbang, faultAt] at hbuilt
  | cons u rest =>
    have hu : u ∈ line.1 := by simp [hbody]
    simp only [readArg, hbang] at hbuilt
    split at hbuilt
    · next hkind =>
      cases hbuilt
      refine ⟨u, mem_of_mem_tokenLines hline u hu, rfl, ?_⟩
      rcases hkind with hident | hnumber
      · have hname : u.BearsName := .inl hident
        have hnamed : (Operand.contents (.named u.literal.read)).Named :=
          (hname.isWord (spelled_of_mem_tokenLines hline u hu)).isName
        exact .inr ⟨hident, hnamed.parseOperand_text⟩
      · exact .inl hnumber
    · cases hbuilt

end CellMachine
