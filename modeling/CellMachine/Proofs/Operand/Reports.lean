import CellMachine.Proofs.Operand.Resolve
import CellMachine.Proofs.Reports
import CellMachine.Source.Argument

/-!
# What is reported about operands

Operands are read from texts, an instruction is chosen for them, and they are resolved. All of this
can fail in many ways, but every failure is a report to the author of the source; none is a crash.
And the name of a label is blamed for one reason only: it stands behind a colon, or in an operand,
and is no name.

* `Failure.Report` — a report, and the only reason for it to blame the name of a label.
* `parseOperand_reports`, `label_of_parseOperand` — reading one operand.
* `Statement.operands_reports`, `Statement.labelsNamed_of_operands` — reading those of a statement.
* `Statement.WellNamed` — a statement whose labels have names.
* `Resolver.chooseOp_reports`, `Resolver.resolveAll_reports` — resolving them.
-/

namespace CellMachine

/-- A report: it is no crash, and it blames the name of a label only if something is `bad`. -/
structure Failure.Report (bad : Prop) (failure : Failure) : Prop where
  uncrashed : failure.crashed = false
  blame : failure.blamesLabel = true → bad

namespace Failure.Report

variable {bad : Prop} {failure : Failure}

/-- A report about something else than the name of a label. -/
theorem other (hcrash : failure.crashed = false) (hlabel : failure.blamesLabel = false) :
    failure.Report bad :=
  ⟨hcrash, fun h => absurd h (by simp [hlabel])⟩

/-- A report with a weaker reason. -/
theorem mono {bad' : Prop} (h : failure.Report bad) (hbad : bad → bad') : failure.Report bad' :=
  ⟨h.uncrashed, fun hlabel => hbad (h.blame hlabel)⟩

/-- Where there is no reason to, no report blames the name of a label. -/
theorem blamesLabel (h : failure.Report bad) (hbad : ¬bad) : failure.blamesLabel = false := by
  cases hlabel : failure.blamesLabel with
  | false => rfl
  | true => exact absurd (h.blame hlabel) hbad

end Failure.Report

open Failure (Report)

/-! ### Reading -/

/-- Text that begins with a colon behind which there is no name. -/
def BadLabel (text : String) : Prop :=
  ∃ name, Text.trimBlanks text.toList = ':' :: name ∧ Text.isNameChars name = false

/-- What is reported about an integer. -/
theorem parseCell_reports (text : String) {bad : Prop} :
    Reports (Report bad) (parseCell text) := by
  unfold parseCell
  split
  split
  · next fault _ => cases fault <;> exact .error (.other rfl rfl)
  · exact .ite (fun _ => .ite (fun _ => .error (.other rfl rfl)) fun _ => .ok _) fun _ => .ok _

/-- What is reported about a character. -/
theorem parseCharacter_reports (text : List Char) {bad : Prop} :
    Reports (Report bad) (parseCharacter text) := by
  unfold parseCharacter
  split
  · split
    · exact .ok _
    · exact .error (.other rfl rfl)
  · exact .error (.other rfl rfl)

/-- **What is reported about an operand.** -/
theorem parseOperand_reports (text : String) :
    Reports (Report (BadLabel text)) (parseOperand text) := by
  unfold parseOperand
  cases htext : Text.trimBlanks text.toList with
  | nil => exact .error (.other rfl rfl)
  | cons c rest =>
    unfold parseTrimmed
    split
    · next h => cases h
    · next name h =>
      refine .ite (fun _ => .ok _) fun hname => .error ⟨rfl, fun _ => ⟨name, ?_, ?_⟩⟩
      · exact htext.trans h
      · simpa using hname
    · exact .ite (fun _ => .error (.other rfl rfl)) fun _ =>
        .ite (fun _ => .map (parseCell_reports _) _) fun _ =>
          .ite (fun _ => .ok _) fun _ => .error (.other rfl rfl)
    · exact .map (parseCharacter_reports _) _
    · exact .ite (fun _ => .map (parseCell_reports _) _) fun _ =>
        .ite (fun _ => .ok _) fun _ => .error (.other rfl rfl)

/-- An argument that is no name. -/
theorem Arg.name_unblaming (arg : Arg) : Unblaming arg.name :=
  .ite (fun _ => .ok _) fun _ => .error rfl

/-- An argument that is no number. -/
theorem Arg.number_unblaming {arg : Arg} (h : ¬BadLabel arg.text.read) : Unblaming arg.number := by
  unfold Arg.number
  split
  · next failure hread =>
    have hfailure := (parseOperand_reports _ failure hread).blamesLabel h
    exact .error hfailure
  · exact .ok _
  · exact .error rfl

/-- The labels among some operands have names. -/
def LabelsNamed (operands : List Operand) : Prop :=
  ∀ name, .label name ∈ operands → Text.isName name = true

/-- A label that is read as an operand has a name. -/
theorem label_of_parseOperand {text name : String} (h : parseOperand text = .ok (.label name)) :
    Text.isName name = true := by
  -- what is turned into a literal or a raw location is no label
  have hmap : ∀ {α : Type} {r : Except Failure α} {f : α → Operand}, (∀ a, f a ≠ .label name) →
      r.map f ≠ .ok (.label name) := by
    intro α r f hf hr
    cases r with
    | error failure => cases hr
    | ok a => exact hf a (Except.ok.inj hr)
  unfold parseOperand parseTrimmed at h
  split at h
  · cases h
  · split at h
    · next hname =>
      cases h
      simpa [Text.isName] using hname
    · cases h
  · dsimp only at h
    split at h
    · cases h
    · split at h
      · exact absurd h (hmap fun _ hv => nomatch hv)
      · split at h <;> cases h
  · exact absurd h (hmap fun _ hv => nomatch hv)
  · split at h
    · exact absurd h (hmap fun _ hv => nomatch hv)
    · split at h <;> cases h

/-- **What is reported about the operands of a statement.** -/
theorem Statement.operands_reports (st : Statement) :
    Reports (Report (∃ arg ∈ st.args, BadLabel arg.text.read)) st.operands := by
  refine .mapM fun text htext => ?_
  obtain ⟨arg, harg, rfl⟩ := List.mem_map.mp htext
  exact (parseOperand_reports _).mono fun _ h => h.mono fun hbad => ⟨arg, harg, hbad⟩

/-- Each value of results one after the other is the value of one of them. -/
theorem exists_of_mem_mapM {α β : Type} {f : α → Except Failure β} {as : List α} {bs : List β}
    (h : as.mapM f = .ok bs) {b : β} (hb : b ∈ bs) : ∃ a ∈ as, f a = .ok b := by
  induction as generalizing bs with
  | nil =>
    cases h
    cases hb
  | cons a rest ih =>
    rw [List.mapM_cons] at h
    obtain ⟨b', hfirst, h⟩ := Resolver.ok_of_bind h
    obtain ⟨bs', hrest, h⟩ := Resolver.ok_of_bind h
    cases h
    rcases List.mem_cons.mp hb with rfl | hb
    · exact ⟨a, List.mem_cons_self .., hfirst⟩
    · obtain ⟨a', ha', hvalue⟩ := ih hrest hb
      exact ⟨a', List.mem_cons_of_mem a ha', hvalue⟩

/-- The labels among the operands of a statement have names. -/
theorem Statement.labelsNamed_of_operands {st : Statement} {operands : List Operand}
    (h : st.operands = .ok operands) : LabelsNamed operands := by
  intro name hname
  obtain ⟨text, -, htext⟩ := exists_of_mem_mapM h hname
  exact label_of_parseOperand htext

/-- A statement whose labels have names: the one that it defines and those that its arguments use,
whether they are read as they stand or from behind a `!`. -/
structure Statement.WellNamed (st : Statement) : Prop where
  label : ∀ name ∈ st.label?, Text.isName name = true
  args : ∀ arg ∈ st.args, ¬BadLabel arg.text.read
  negated : ∀ arg ∈ st.args, ∀ rest : RawText, arg.text = .char '!' :: rest → ¬BadLabel rest.read

/-- The operands of a statement whose labels have names are read without blame. -/
theorem Statement.WellNamed.operands {st : Statement} (h : st.WellNamed) :
    Unblaming st.operands :=
  st.operands_reports.mono fun _ hreport => hreport.blamesLabel fun ⟨arg, harg, hbad⟩ =>
    h.args arg harg hbad

/-! ### Resolving -/

/-- What is reported about a shape. -/
theorem Op.checkShape_reports (op : Op) (shape : List Kind) {bad : Prop} :
    Reports (Report bad) (op.checkShape shape) := by
  refine .ite (fun _ => .error (.other rfl rfl)) fun _ => ?_
  split
  · exact .error (.other rfl rfl)
  · exact .ok ()

namespace Resolver

variable (r : Resolver)

/-- What is reported about a name. -/
theorem lookup_reports (name : String) {bad : Prop} : Reports (Report bad) (r.lookup name) := by
  unfold lookup
  split
  · exact .error (.other rfl rfl)
  · split
    · exact .error (.other rfl rfl)
    · exact .ok _

/-- What is reported about an operand that fits its slot. -/
theorem encode_reports (op : Op) (slot : Kind) (operand : Operand) :
    Reports (Report ¬LabelsNamed [operand]) (r.encode op slot operand) := by
  unfold encode
  split
  · exact .ok _
  · exact .ok _
  · exact .bind (r.lookup_reports _) fun _ _ =>
      .ite (fun _ => .ok _) fun _ => .error (.other rfl rfl)
  · refine .ite (fun _ => ?_) fun _ => .error (.other rfl rfl)
    split
    · exact .error (.other rfl rfl)
    · refine .bind (r.lookup_reports _) fun _ _ => ?_
      split
      · exact .error (.other rfl rfl)
      · exact .ok _
  · next name =>
    refine .ite (fun _ => .ok _) fun hname => .error ⟨rfl, fun _ hnamed => ?_⟩
    exact hname (hnamed name (List.mem_singleton_self _))

/-- What is reported about an operand. -/
theorem resolve_reports (op : Op) (slot : Int) (operand : Operand) :
    Reports (Report ¬LabelsNamed [operand]) (r.resolve op slot operand) := by
  unfold resolve
  refine .mapError ?_ fun _ h => ⟨h.uncrashed, h.blame⟩
  split
  · exact .error (.other rfl rfl)
  · exact .ite (fun _ => r.encode_reports op _ operand) fun _ => .error (.other rfl rfl)

/-- What is reported about operands one after the other. -/
theorem resolveFrom_reports (op : Op) (operands : List Operand) (slot : Nat) :
    Reports (Report ¬LabelsNamed operands) (r.resolveFrom op slot operands) := by
  induction operands generalizing slot with
  | nil => exact .ok []
  | cons operand rest ih =>
    have hfirst : ¬LabelsNamed [operand] → ¬LabelsNamed (operand :: rest) := fun hbad hnamed =>
      hbad fun name hname => hnamed name (List.mem_singleton.mp hname ▸ List.mem_cons_self ..)
    have hrest : ¬LabelsNamed rest → ¬LabelsNamed (operand :: rest) := fun hbad hnamed =>
      hbad fun name hname => hnamed name (List.mem_cons_of_mem operand hname)
    exact .bind ((r.resolve_reports op slot operand).mono fun _ h => h.mono hfirst) fun _ _ =>
      .bind ((ih (slot + 1)).mono fun _ h => h.mono hrest) fun _ _ => .ok _

/-- **What is reported about the operands of an instruction.** -/
theorem resolveAll_reports (op : Op) (operands : List Operand) :
    Reports (Report ¬LabelsNamed operands) (r.resolveAll op operands) :=
  .bind (op.checkShape_reports _) fun _ _ => r.resolveFrom_reports op operands 0

/-- What is reported about operands without a variable. -/
theorem classify_reports (operands : List Operand) {bad : Prop} :
    Reports (Report bad) (r.classify operands) := by
  induction operands with
  | nil => exact .error (.other rfl rfl)
  | cons operand rest ih =>
    cases operand with
    | immediate value => exact ih
    | label name => exact ih
    | location var =>
      cases var with
      | raw addr => exact .ok _
      | named name => exact .map (r.lookup_reports name) _
    | contents var =>
      cases var with
      | raw addr => exact .ok _
      | named name => exact .map (r.lookup_reports name) _

/-- **What is reported about a mnemonic.** The names of labels play no part in it. -/
theorem chooseOp_reports (mnemonic : String) (operands : List Operand) {bad : Prop} :
    Reports (Report bad) (r.chooseOp mnemonic operands) := by
  refine .ite (fun _ => .bind (.mapError (r.classify_reports operands) ?_) fun storage _ =>
    .bind ?_ fun op _ => .bind (op.checkShape_reports _) fun _ _ => .ok op) fun _ => ?_
  · exact fun _ h => ⟨h.uncrashed, h.blame⟩
  · unfold selectVariant
    split
    · exact .error (.other rfl rfl)
    · split
      · exact .error (.other rfl rfl)
      · exact .ok _
  · unfold Op.lookup
    split
    · exact .error (.other rfl rfl)
    · exact .map (Op.checkShape_reports _ _) _

end Resolver

end CellMachine
