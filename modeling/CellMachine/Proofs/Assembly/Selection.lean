import CellMachine.Assembly.Basic

/-!
# Statements with conditionals

The statements of a source, seen as a tree: plain statements, and groups of branches between `.if`
and `.endif`. Of each group one branch is selected at most: the first one whose condition is true,
or else the branch of `.else`. A condition is a number or the initial contents of a global.

The label of a line belongs to what the line ends: that of an `.elseif`, `.else` or `.endif` to the
branch before it, that of an `.if` to the statements around the group.

* `Code`, `Branches` — statements with conditionals, and what follows the body of a branch.
* `Code.source` — the statements as they stand in the source.
* `Code.select` — the statements that are selected, with what is left of branches that are not.
* `Code.dropped` — what stands in branches that are not selected.
-/

namespace CellMachine

/-! ### Conditions -/

/-- The global that a statement declares, with its initial contents. -/
def Statement.global? (st : Statement) : Option (String × Cell) :=
  if st.op? = some ".global" then
    match Assembler.firstName st, Assembler.secondNumber st with
    | .ok name, .ok init => some (name, init)
    | _, _ => none
  else none

/-- The globals that statements declare. -/
def globalsOf (sts : List Statement) : List (String × Cell) := sts.filterMap Statement.global?

/-- Whether a condition is negated, and the operand that is tested. -/
def Arg.tested (arg : Arg) : Bool × String :=
  match arg.text with
  | .char '!' :: rest => (true, RawText.read rest)
  | text => (false, text.read)

/-- The value of an operand that can be tested, among globals. -/
def operandValue? (globals : List (String × Cell)) (text : String) : Option Cell :=
  match parseOperand text with
  | .ok (.immediate value) => some value
  | .ok (.contents (.named name)) => globals.lookup name
  | _ => none

/-- The truth of a condition among globals. -/
def Arg.truth? (globals : List (String × Cell)) (arg : Arg) : Option Bool :=
  (operandValue? globals arg.tested.2).map fun value => (value != 0) != arg.tested.1

namespace Statement

/-- The condition of a directive is true. -/
def holds (globals : List (String × Cell)) (st : Statement) : Bool :=
  match st.args with
  | [arg] => arg.truth? globals == some true
  | _ => false

/-- The statement opens or closes a group of branches, or stands between two of them. -/
def IsConditional (st : Statement) : Prop :=
  ∃ op ∈ [".if", ".elseif", ".else", ".endif"], st.op? = some op

instance (st : Statement) : Decidable st.IsConditional :=
  inferInstanceAs (Decidable (∃ op ∈ [".if", ".elseif", ".else", ".endif"], st.op? = some op))

/-- The label of a statement, as a line of its own. -/
def labelLine (st : Statement) : List Statement :=
  match st.label? with
  | none => []
  | some label => [{ pos := st.pos, label? := some label }]

/-- The local that a statement declares, as a line without a label. -/
def localLine (st : Statement) : List Statement :=
  if st.op? = some ".local" then [{ st with label? := none }] else []

end Statement

/-- The locals that statements declare. -/
def localLines (sts : List Statement) : List Statement := sts.flatMap Statement.localLine

/-! ### Groups of branches -/

mutual

/-- Statements with conditionals. -/
inductive Code
  | done
  | line (st : Statement) (plain : ¬st.IsConditional) (rest : Code)
  /-- A group of branches, with the body of its first branch. -/
  | group (start : Statement) (opens : start.op? = some ".if") (body : Code) (tail : Branches)
    (rest : Code)

/-- What follows the body of a branch in its group. -/
inductive Branches
  | close (stop : Statement) (closes : stop.op? = some ".endif")
  /-- The last branch, and the end of the group. -/
  | otherwise (st : Statement) (turns : st.op? = some ".else") (body : Code) (stop : Statement)
    (closes : stop.op? = some ".endif")
  /-- One more branch with a condition. -/
  | next (st : Statement) (turns : st.op? = some ".elseif") (body : Code) (tail : Branches)

end

/-- The line that ends the branch before. -/
def Branches.first : Branches → Statement
  | .close stop _ => stop
  | .otherwise st _ _ _ _ => st
  | .next st _ _ _ => st

mutual

/-- The statements in the order of the source. -/
def Code.source : Code → List Statement
  | .done => []
  | .line st _ rest => st :: rest.source
  | .group start _ body tail rest => start :: (body.source ++ tail.source ++ rest.source)

/-- The statements in the order of the source. -/
def Branches.source : Branches → List Statement
  | .close stop _ => [stop]
  | .otherwise st _ body stop _ => st :: (body.source ++ [stop])
  | .next st _ body tail => st :: (body.source ++ tail.source)

end

section

variable (holds : Statement → Bool) (left : List Statement → List Statement)

mutual

/-- Replaces each group by the statements of its selected branch. `left` gives what is left of the
branches that are not selected. -/
def Code.select : Code → List Statement
  | .done => []
  | .line st _ rest => st :: rest.select
  | .group start _ body tail rest =>
    start.labelLine ++
      (if holds start then body.select ++ tail.first.labelLine ++ left tail.source
        else left body.source ++ tail.select) ++
      rest.select

/-- The selected one of the branches that follow, if no branch before them is selected. -/
def Branches.select : Branches → List Statement
  | .close _ _ => []
  | .otherwise _ _ body stop _ => body.select ++ stop.labelLine
  | .next st _ body tail =>
    if holds st then body.select ++ tail.first.labelLine ++ left tail.source
    else left body.source ++ tail.select

end

mutual

/-- What stands in branches that are not selected, with the lines between them. -/
def Code.dropped : Code → List Statement
  | .done => []
  | .line _ _ rest => rest.dropped
  | .group start _ body tail rest =>
    (if holds start then body.dropped ++ tail.source else body.source ++ tail.dropped) ++
      rest.dropped

/-- What stands in branches that are not selected, if no branch before them is selected. -/
def Branches.dropped : Branches → List Statement
  | .close _ _ => []
  | .otherwise _ _ body _ _ => body.dropped
  | .next st _ body tail =>
    if holds st then body.dropped ++ tail.source else body.source ++ tail.dropped

end

end

/-! ### Locals that are dropped -/

section dropped

variable {holds : Statement → Bool}

/-- Statements without locals leave no locals. -/
theorem localLines_eq_nil {sts : List Statement} (h : ∀ st ∈ sts, st.op? ≠ some ".local") :
    localLines sts = [] := by
  rw [localLines, List.flatMap_eq_nil_iff]
  intro st hst
  exact if_neg (h st hst)

mutual

/-- If no locals are dropped, keeping those that are makes no difference. -/
theorem Code.select_localLines : (code : Code) →
    (∀ st ∈ code.dropped holds, st.op? ≠ some ".local") →
      code.select holds localLines = code.select holds fun _ => []
  | .done, _ => rfl
  | .line st _ rest, h => congrArg (st :: ·) (rest.select_localLines h)
  | .group start _ body tail rest, h => by
    unfold Code.dropped at h
    unfold Code.select
    rw [rest.select_localLines fun st hst => h st (List.mem_append_right _ hst)]
    by_cases hstart : holds start
    · simp only [if_pos hstart, List.mem_append] at h ⊢
      rw [body.select_localLines fun st hst => h st (.inl (.inl hst)),
        localLines_eq_nil fun st hst => h st (.inl (.inr hst))]
    · simp only [if_neg hstart, List.mem_append] at h ⊢
      rw [tail.select_localLines fun st hst => h st (.inl (.inr hst)),
        localLines_eq_nil fun st hst => h st (.inl (.inl hst))]

/-- If no locals are dropped, keeping those that are makes no difference. -/
theorem Branches.select_localLines : (tail : Branches) →
    (∀ st ∈ tail.dropped holds, st.op? ≠ some ".local") →
      tail.select holds localLines = tail.select holds fun _ => []
  | .close _ _, _ => rfl
  | .otherwise _ _ body stop _, h => congrArg (· ++ stop.labelLine) (body.select_localLines h)
  | .next st _ body tail, h => by
    unfold Branches.dropped at h
    unfold Branches.select
    by_cases hst : holds st
    · simp only [if_pos hst, List.mem_append] at h ⊢
      rw [body.select_localLines fun st hst => h st (.inl hst),
        localLines_eq_nil fun st hst => h st (.inr hst)]
    · simp only [if_neg hst, List.mem_append] at h ⊢
      rw [tail.select_localLines fun st hst => h st (.inr hst),
        localLines_eq_nil fun st hst => h st (.inl hst)]

end

end dropped

end CellMachine
