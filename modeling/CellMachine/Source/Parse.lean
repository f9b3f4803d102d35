import CellMachine.Failure
import CellMachine.Source.Lexer
import CellMachine.Source.Statement

/-!
# Reading statements

The parser goes along the tokens of a source with one of them in view. It reads a statement up to
the end of its line. Where the tokens are no statement it finds a fault and skips what is left of
the line, from wherever it has got to, and goes on with the next one. So all faults of a source are
found at once.

No part of the parser goes back (`Forward`), and each round of its loop uses up a token
(`length_lt_of_parseStatement`, `length_skipLine_lt`).
-/

namespace CellMachine

/-- A fault and the place of the token at which it was found. -/
abbrev PlacedFault := Position × LineFault

/-- What reads tokens. The first token that is left is the one in view. A fault leaves the tokens
from there on. -/
abbrev Parsing := EStateM PlacedFault (List Token)

namespace Parsing

variable {α β : Type}

/-- The token in view. After all others comes the end of the source. -/
def current : List Token → Token
  | [] => eofToken ⟨1, 1⟩
  | t :: _ => t

/-- Looks at the token in view. -/
def view : Parsing Token := fun ts => .ok (current ts) ts

/-- Goes on by one token. -/
def advance : Parsing Unit := fun ts => .ok () ts.tail

/-- Finds a fault at a token. -/
def failAt (t : Token) (fault : LineFault) : Parsing α := fun ts => .error (t.pos, fault) ts

/-- The tokens that are left. -/
def left : EStateM.Result PlacedFault (List Token) α → List Token
  | .ok _ ts => ts
  | .error _ ts => ts

/-- Nothing is read twice: what is left was there before. -/
def Forward (x : Parsing α) : Prop := ∀ ts, left (x ts) <:+ ts

theorem Forward.length_le {x : Parsing α} (hx : Forward x) {ts rest : List Token} {a : α}
    (h : x ts = .ok a rest) : rest.length ≤ ts.length := by
  have hleft := hx ts
  rw [h] at hleft
  exact hleft.length_le

theorem forward_pure (a : α) : Forward (pure a) := fun _ => List.suffix_rfl

theorem forward_view : Forward view := fun _ => List.suffix_rfl

theorem forward_advance : Forward advance := List.tail_suffix

theorem forward_failAt (t : Token) (fault : LineFault) : Forward (failAt t fault : Parsing α) :=
  fun _ => List.suffix_rfl

/-- One part after the other. -/
theorem Forward.bind {x : Parsing α} {f : α → Parsing β} (hx : Forward x)
    (hf : ∀ a, Forward (f a)) : Forward (x >>= f) := by
  intro ts
  have hfirst := hx ts
  show left (EStateM.bind x f ts) <:+ ts
  unfold EStateM.bind
  cases hrun : x ts with
  | ok a rest =>
    rw [hrun] at hfirst
    exact (hf a rest).trans hfirst
  | error fault rest =>
    rw [hrun] at hfirst
    exact hfirst

/-- A sequence that ends well has two parts that do. -/
theorem ok_of_bind {x : Parsing α} {f : α → Parsing β} {ts rest : List Token} {b : β}
    (h : (x >>= f) ts = .ok b rest) : ∃ a ts', x ts = .ok a ts' ∧ f a ts' = .ok b rest := by
  change EStateM.bind x f ts = .ok b rest at h
  unfold EStateM.bind at h
  cases hrun : x ts with
  | ok a ts' =>
    rw [hrun] at h
    exact ⟨a, ts', rfl, h⟩
  | error fault ts' =>
    rw [hrun] at h
    cases h

/-! ### Statements -/

/-- Reads one argument. -/
def parseArg : Parsing Arg := do
  let t ← view
  match t.kind with
  | .number | .character | .ident =>
    advance
    return ⟨t.pos, t.literal⟩
  | .labelRef =>
    advance
    return ⟨t.pos, .char ':' :: t.literal⟩
  | .address =>
    advance
    return ⟨t.pos, .char '&' :: t.literal⟩
  | .bang =>
    advance
    let u ← view
    if u.kind = .ident ∨ u.kind = .number then
      advance
      return ⟨t.pos, .char '!' :: u.literal⟩
    else failAt u (.nothingNegated u)
  | .bad => failAt t (.badToken t.literal.read)
  | _ => failAt t (.noOperand t)

theorem forward_parseArg : Forward parseArg := by
  refine forward_view.bind fun t => ?_
  split
  case h_6 =>
    refine forward_advance.bind fun _ => forward_view.bind fun u => ?_
    split
    · exact forward_advance.bind fun _ => forward_pure _
    · exact forward_failAt u _
  all_goals first
    | exact forward_advance.bind fun _ => forward_pure _
    | exact forward_failAt t _

/-- A token in view that does not end the source is used up by going on. -/
theorem length_tail_lt {ts : List Token} (h : (current ts).kind ≠ .eof) :
    ts.tail.length < ts.length := by
  cases ts with
  | nil => exact absurd rfl h
  | cons t rest => exact Nat.lt_succ_self _

/-- Reads arguments between commas. -/
def parseArgs : Parsing (List Arg) := fun ts =>
  match _h : parseArg ts with
  | .error fault rest => .error fault rest
  | .ok arg rest =>
    if _hcomma : (current rest).kind = .comma then
      match parseArgs rest.tail with
      | .error fault rest => .error fault rest
      | .ok args rest => .ok (arg :: args) rest
    else .ok [arg] rest
termination_by ts => ts.length
decreasing_by
  exact Nat.lt_of_lt_of_le (length_tail_lt (by simp [_hcomma])) (forward_parseArg.length_le _h)

theorem forward_parseArgs (ts : List Token) : left (parseArgs ts) <:+ ts := by
  have hleft := forward_parseArg ts
  unfold parseArgs
  split
  · next harg => rwa [harg] at hleft
  · next arg rest harg =>
    rw [harg] at hleft
    split
    · next hcomma =>
      have hless : rest.tail.length < ts.length :=
        Nat.lt_of_lt_of_le (length_tail_lt (by simp [hcomma])) hleft.length_le
      have hmore := (forward_parseArgs rest.tail).trans ((List.tail_suffix rest).trans hleft)
      split
      · next hargs => rwa [hargs] at hmore
      · next hargs => rwa [hargs] at hmore
    · exact hleft
termination_by ts.length
decreasing_by exact hless

/-- Reads the label of a statement, if there is one. -/
def parseLabel : Parsing (Option String) := do
  let t ← view
  if t.kind = .label then
    advance
    return some t.literal.read
  else return none

theorem forward_parseLabel : Forward parseLabel := by
  refine forward_view.bind fun t => ?_
  split
  · exact forward_advance.bind fun _ => forward_pure _
  · exact forward_pure _

/-- Reads the arguments that are left in the line, if there are any. -/
def parseRest : Parsing (List Arg) := do
  let t ← view
  if t.endsLine then return [] else parseArgs

theorem forward_parseRest : Forward parseRest := by
  refine forward_view.bind fun t => ?_
  split
  · exact forward_pure []
  · exact forward_parseArgs

/-- Reads an instruction or directive with its arguments into a statement. -/
def parseOperation (st : Statement) : Parsing Statement := do
  let t ← view
  match t.kind with
  | .newline | .eof => return st
  | .ident | .directive =>
    advance
    let args ← parseRest
    return { st with op? := some t.literal.read, args }
  | .bad => failAt t (.badToken t.literal.read)
  | _ => failAt t (.noInstruction t)

theorem forward_parseOperation (st : Statement) : Forward (parseOperation st) := by
  refine forward_view.bind fun t => ?_
  split
  case h_1 | h_2 => exact forward_pure st
  case h_3 | h_4 =>
    exact forward_advance.bind fun _ => forward_parseRest.bind fun _ => forward_pure _
  all_goals exact forward_failAt t _

/-- Goes on to the next line. The end of the source stays in view. -/
def endOfLine : Parsing Unit := do
  let t ← view
  if t.kind = .newline then advance
  else if t.kind = .eof then pure ()
  else failAt t (.trailing t)

/-- Reads a statement and the end of its line. -/
def parseStatement : Parsing Statement := do
  let first ← view
  let label? ← parseLabel
  let st ← parseOperation { pos := first.pos, label? }
  endOfLine
  return st

theorem forward_endOfLine : Forward endOfLine := by
  refine forward_view.bind fun t => ?_
  split
  · exact forward_advance
  · split
    · exact forward_pure ()
    · exact forward_failAt t _

theorem forward_parseStatement : Forward parseStatement :=
  forward_view.bind fun _ => forward_parseLabel.bind fun _ =>
    (forward_parseOperation _).bind fun _ => forward_endOfLine.bind fun _ => forward_pure _

/-- Skips tokens up to the end of the line, and that too. The end of the source is not skipped. -/
def skipLine : List Token → List Token
  | [] => []
  | t :: rest =>
    match t.kind with
    | .newline => rest
    | .eof => t :: rest
    | _ => skipLine rest

theorem length_skipLine_le (ts : List Token) : (skipLine ts).length ≤ ts.length := by
  fun_induction skipLine ts <;> simp_all <;> omega

/-- If a statement fails then skipping the rest of its line uses up a token. -/
theorem length_skipLine_lt {ts rest : List Token} (h : rest <:+ ts)
    (hts : (current ts).kind ≠ .eof) : (skipLine rest).length < ts.length := by
  rcases Nat.lt_or_eq_of_le h.length_le with hless | hsame
  · exact Nat.lt_of_le_of_lt (length_skipLine_le rest) hless
  · obtain rfl := h.eq_of_length hsame
    cases rest with
    | nil => exact absurd rfl hts
    | cons t rest =>
      have hrest := length_skipLine_le rest
      unfold skipLine
      split
      · exact Nat.lt_succ_self _
      · next heof => exact absurd heof hts
      · exact Nat.lt_succ_of_le hrest

/-- A line is ended by going on, or by the end of the source. -/
theorem endOfLine_ok {ts rest : List Token} (h : endOfLine ts = .ok () rest) :
    rest.length < ts.length ∨ rest = ts ∧ (current ts).kind = .eof := by
  obtain ⟨t, ts', hview, h⟩ := ok_of_bind h
  cases hview
  by_cases hnewline : (current ts).kind = .newline
  · rw [if_pos hnewline] at h
    cases h
    exact .inl (length_tail_lt (by simp [hnewline]))
  rw [if_neg hnewline] at h
  by_cases heof : (current ts).kind = .eof
  · rw [if_pos heof] at h
    cases h
    exact .inr ⟨rfl, heof⟩
  · rw [if_neg heof] at h
    cases h

/-- A statement that is read uses up a token. -/
theorem length_lt_of_parseStatement {ts rest : List Token} {st : Statement}
    (h : parseStatement ts = .ok st rest) (hts : (current ts).kind ≠ .eof) :
    rest.length < ts.length := by
  obtain ⟨first, _, hview, h⟩ := ok_of_bind h
  cases hview
  obtain ⟨label?, ts₁, hlabel, h⟩ := ok_of_bind h
  obtain ⟨st', ts₂, hoperation, h⟩ := ok_of_bind h
  obtain ⟨⟨⟩, _, hend, h⟩ := ok_of_bind h
  cases h
  have hfirst := forward_parseLabel ts
  have hsecond := forward_parseOperation { pos := (current ts).pos, label? } ts₁
  rw [hlabel] at hfirst
  rw [hoperation] at hsecond
  have hleft : ts₂ <:+ ts := hsecond.trans hfirst
  rcases endOfLine_ok hend with hless | ⟨rfl, heof⟩
  · exact Nat.lt_of_lt_of_le hless hleft.length_le
  · refine Nat.lt_of_le_of_ne hleft.length_le fun hsame => hts ?_
    rwa [← hleft.eq_of_length hsame]

/-- Reads the statements of a source, and finds the faults of the lines that are none. -/
def parseProgram (ts : List Token) : List Statement × List PlacedFault :=
  if _heof : (current ts).kind = .eof then ([], [])
  else if (current ts).kind = .newline then parseProgram ts.tail
  else match _h : parseStatement ts with
    | .ok st rest =>
      let (statements, faults) := parseProgram rest
      (st :: statements, faults)
    | .error fault rest =>
      let (statements, faults) := parseProgram (skipLine rest)
      (statements, fault :: faults)
termination_by ts.length
decreasing_by
  · exact length_tail_lt _heof
  · exact length_lt_of_parseStatement _h _heof
  · have hleft := forward_parseStatement ts
    rw [_h] at hleft
    exact length_skipLine_lt hleft _heof

end Parsing

/-- The statements of a source and the faults of its other lines. -/
def parseLines (source : RawText) : List Statement × List PlacedFault :=
  Parsing.parseProgram (tokens source)

/-- The statements of a source. It fails with every faulty line. -/
def parseSource (source : RawText) : Except Failure (List Statement) :=
  let (statements, faults) := parseLines source
  if faults.isEmpty then .ok statements else .error (.malformedSource faults)

end CellMachine
