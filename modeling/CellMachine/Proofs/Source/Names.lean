import CellMachine.Proofs.Assembly.Reports
import CellMachine.Proofs.Patch.Reports
import CellMachine.Proofs.Source.Words

/-!
# The names of a source are names everywhere

A label is written with a word of the source, and words are names. So no statement of a source
defines or uses a label without a name, and whatever is done with the statements, the name of a
label is never what is wrong.

* `ArgTokens.not_badLabel` — the text of an argument is no bad label.
* `wellNamed_of_parseSource` — so the labels of every statement have names.
* `names_agree` — **the names of a source are names**, its arguments mean them, and none of its
  labels is ever refused for its name.
-/

namespace CellMachine

variable {source : RawText}

/-! ### Texts that are no bad labels -/

/-- Text that begins neither with a blank nor with a colon names no label. -/
theorem not_badLabel_cons {g : Glyph} (hblank : Text.isBlank g.read = false)
    (hcolon : g.read ≠ ':') (rest : RawText) : ¬BadLabel (RawText.read (g :: rest)) := by
  rintro ⟨name, htrim, -⟩
  obtain ⟨rest', hkept⟩ := Text.trimBlanks_cons hblank (rest.map Glyph.read)
  rw [RawText.read, String.toList_ofList, List.map_cons, hkept] at htrim
  exact hcolon (List.cons.inj htrim).1

/-- A name behind a colon is a good one. -/
theorem not_badLabel_label {w : RawText} (h : w.IsWord) :
    ¬BadLabel (RawText.read (.char ':' :: w)) := by
  rintro ⟨name, htrim, hname⟩
  have hisName : Text.isNameChars (w.map Glyph.read) = true := by
    simpa [Text.isName, RawText.read] using h.isName
  have hkept : Text.trimBlanks (':' :: w.map Glyph.read) = ':' :: w.map Glyph.read :=
    Text.trimBlanks_eq_self
      (List.forall_mem_cons.mpr ⟨by decide, not_isBlank_of_isNameChars hisName⟩)
  rw [RawText.read, String.toList_ofList, List.map_cons, Glyph.read, hkept] at htrim
  obtain rfl := (List.cons.inj htrim).2
  cases hisName.symm.trans hname

/-- The text begins with a letter or a digit, or with a sign before one. -/
def RawText.Unmarked (w : RawText) : Prop :=
  ∃ g rest, w = g :: rest ∧ (Text.continuesName g.read = true ∨ g = .char '-' ∨ g = .char '+')

/-- A name has no mark in front. -/
theorem RawText.IsWord.unmarked {w : RawText} (h : w.IsWord) : w.Unmarked := by
  obtain ⟨g, rest, rfl, -⟩ := h.exists_cons
  have hg := continuesName_of_continuesWord (h.goesOn g (List.mem_cons_self ..))
  exact ⟨g, rest, rfl, .inl hg⟩

/-- Neither has a number. -/
theorem RawText.IsNumber.unmarked {w : RawText} (h : w.IsNumber) : w.Unmarked := by
  cases h with
  | plain hdigits =>
    obtain ⟨g, rest, rfl, hg⟩ := hdigits.exists_cons
    exact ⟨g, rest, rfl, .inl (Text.continuesName_of_isDigit hg)⟩
  | signed hsign _ => exact ⟨_, _, rfl, .inr hsign⟩

/-- Such a text names no label. -/
theorem RawText.Unmarked.not_badLabel {w : RawText} (h : w.Unmarked) : ¬BadLabel w.read := by
  obtain ⟨g, rest, rfl, hg | rfl | rfl⟩ := h
  · refine not_badLabel_cons (Text.not_isBlank_of_continuesName hg) ?_ rest
    intro hcolon
    rw [hcolon] at hg
    exact absurd hg (by decide)
  · exact not_badLabel_cons (by decide) (by decide) rest
  · exact not_badLabel_cons (by decide) (by decide) rest

/-- Nor has it a `!` in front. -/
theorem RawText.Unmarked.ne_bang {w : RawText} (h : w.Unmarked) (rest : RawText) :
    w ≠ .char '!' :: rest := by
  rintro rfl
  obtain ⟨g, rest', heq, hg | rfl | rfl⟩ := h
  · obtain rfl := (List.cons.inj heq).1
    exact absurd hg (by decide)
  · cases heq
  · cases heq

/-- **No argument has a bad label for its text.** -/
theorem ArgTokens.not_badLabel {ps : List Lexeme} {text : RawText} (h : ArgTokens ps text) :
    ¬BadLabel text.read := by
  cases h with
  | number hw => exact hw.unmarked.not_badLabel
  | character _ => exact not_badLabel_cons (by decide) (by decide) _
  | word hw => exact hw.unmarked.not_badLabel
  | label hw => exact not_badLabel_label hw
  | location _ => exact not_badLabel_cons (by decide) (by decide) _
  | notWord _ => exact not_badLabel_cons (by decide) (by decide) _
  | notNumber _ => exact not_badLabel_cons (by decide) (by decide) _

/-- Neither is there one behind a `!`. -/
theorem ArgTokens.not_badLabel_negated {ps : List Lexeme} {rest : RawText}
    (h : ArgTokens ps (.char '!' :: rest)) : ¬BadLabel rest.read := by
  generalize htext : (.char '!' :: rest : RawText) = text at h
  cases h with
  | number hw => exact absurd htext.symm (hw.unmarked.ne_bang rest)
  | character _ => cases htext
  | word hw => exact absurd htext.symm (hw.unmarked.ne_bang rest)
  | label _ => cases htext
  | location _ => cases htext
  | notWord hw =>
    cases htext
    exact hw.unmarked.not_badLabel
  | notNumber hw =>
    cases htext
    exact hw.unmarked.not_badLabel

/-! ### Statements -/

/-- Each of the texts has the tokens of an argument. -/
theorem ArgsTokens.exists_argTokens {ps : List Lexeme} {texts : List RawText}
    (h : ArgsTokens ps texts) : ∀ text ∈ texts, ∃ qs, ArgTokens qs text := by
  induction h with
  | last harg => exact List.forall_mem_singleton.mpr ⟨_, harg⟩
  | more harg _ ih => exact List.forall_mem_cons.mpr ⟨⟨_, harg⟩, ih⟩

/-- So has each argument of an operation. -/
theorem OpTokens.exists_argTokens {ps : List Lexeme} {op : String} {texts : List RawText}
    (h : OpTokens ps op texts) : ∀ text ∈ texts, ∃ qs, ArgTokens qs text := by
  cases h with
  | bare _ => nofun
  | applied _ hargs => exact hargs.exists_argTokens

/-- And of a line. -/
theorem LineTokens.exists_argTokens {ps : List Lexeme} {label? op? : Option String}
    {texts : List RawText} (h : LineTokens ps label? op? texts) :
    ∀ text ∈ texts, ∃ qs, ArgTokens qs text := by
  cases h with
  | label _ => nofun
  | plain hop => exact hop.exists_argTokens
  | labelled _ hop => exact hop.exists_argTokens

/-- The label of a line is a name. -/
theorem LineTokens.isName_label {ps : List Lexeme} {label? op? : Option String}
    {texts : List RawText} (h : LineTokens ps label? op? texts) :
    ∀ name ∈ label?, Text.isName name = true := by
  intro name hname
  cases h with
  | label hw =>
    cases hname
    exact hw.isName
  | plain _ => cases hname
  | labelled hw _ =>
    cases hname
    exact hw.isName

/-- **The labels of every statement have names.** -/
theorem wellNamed_of_parseSource {sts : List Statement} (h : parseSource source = .ok sts) :
    ∀ st ∈ sts, st.WellNamed := by
  intro st hst
  obtain ⟨ps, hline⟩ := lineTokens_of_parseSource h hst
  have hargs : ∀ arg ∈ st.args, ∃ qs, ArgTokens qs arg.text := fun arg harg =>
    hline.exists_argTokens arg.text (List.mem_map_of_mem harg)
  refine ⟨hline.isName_label, ?_, ?_⟩
  · intro arg harg
    obtain ⟨qs, htokens⟩ := hargs arg harg
    exact htokens.not_badLabel
  · intro arg harg rest htext
    obtain ⟨qs, htokens⟩ := hargs arg harg
    rw [htext] at htokens
    exact htokens.not_badLabel_negated

/-! ### What a source leads to -/

/-- A source that is refused has lines that are no statements. -/
theorem parseSource_unblaming (source : RawText) : Unblaming (parseSource source) :=
  .ite (fun _ => .ok _) fun _ => .error rfl

/-- A source is never refused an image for the name of a label. -/
theorem assemble_unblaming (source : RawText) (options : AssemblyOptions) :
    Unblaming (assemble source options) :=
  .bind (parseSource_unblaming source) fun _ hsts =>
    assembleStatements_unblaming (wellNamed_of_parseSource hsts) options

/-- A file of patches is never refused for the name of a label. -/
theorem parsePatches_unblaming (source : RawText) : Unblaming (parsePatches source) :=
  .bind (parseSource_unblaming source) fun sts hsts =>
    readPatches_unblaming sts (wellNamed_of_parseSource hsts) none

/-- The statements of the patches that are read have labels with names. -/
theorem wellNamed_of_parsePatches {patches : List Patch} (h : parsePatches source = .ok patches) :
    ∀ p ∈ patches, ∀ st ∈ p.body, st.WellNamed := by
  intro p hp
  obtain ⟨sts, hsts, hread⟩ := Resolver.ok_of_bind h
  exact wellNamed_of_readPatches (wellNamed_of_parseSource hsts) hread hp

/-- The two readers of names agree on a source. -/
structure NamesAgree (source : RawText) : Prop where
  /-- What the tokens bear is a name, and it holds no stray byte. -/
  literal : ∀ t ∈ tokens source, t.BearsName →
    Text.isName t.literal.read = true ∧ RawText.ofString t.literal.read = t.literal
  /-- The text of an argument that is built from such a token is read as the variable, the label or
  the location of exactly this name. -/
  argument : ∀ t arg, BuiltFrom source t arg → t.BearsName →
    ∃ operand, t.kind.operand? t.literal.read = some operand ∧
      parseOperand arg.text.read = .ok operand
  /-- Every argument of a statement is built from a token. -/
  built : ∀ st ∈ (parseLines source).1, ∀ arg ∈ st.args,
    ∃ t ∈ tokens source, BuiltFrom source t arg
  /-- An argument that is built from a `!` is made of it and of a number or a name, and the name is
  read as a variable once the `!` is taken off. -/
  negated : ∀ t arg, BuiltFrom source t arg → t.kind = .bang →
    ∃ u ∈ tokens source, arg.text = .char '!' :: u.literal ∧
      (u.kind = .number ∨
        u.kind = .ident ∧
          parseOperand u.literal.read = .ok (.contents (.named u.literal.read)))
  /-- No image is refused for the name of a label. -/
  assembled : ∀ options failure, assemble source options = .error failure →
    .labelName ∉ failure.kinds
  /-- Neither is a file of patches. -/
  read : ∀ failure, parsePatches source = .error failure → .labelName ∉ failure.kinds
  /-- Nor one of its patches, whatever the memory is. -/
  applied : ∀ patches, parsePatches source = .ok patches → ∀ p ∈ patches,
    ∀ memory failure memory', p.apply memory = .error failure memory' →
      .labelName ∉ failure.kinds

/-- **The two readers agree on names.** Every name, every label and every location of a source that
does not start with a digit bears a name, and the arguments that are built from them are read as the
operands of exactly these names. So neither a label nor its use is ever refused for its name, be the
source assembled or applied as patches. -/
theorem names_agree (source : RawText) : NamesAgree source where
  literal t ht hname := by
    have hword := hname.isWord (tokensFrom_spelled source ⟨1, 1⟩ t ht)
    exact ⟨hword.isName, hword.ofString_read⟩
  argument _ _ hbuilt hname := hbuilt.parseOperand_text hname
  built _ hst _ harg := exists_builtFrom hst harg
  negated _ _ hbuilt hbang := hbuilt.negated hbang
  assembled options failure h :=
    Failure.labelName_notMem (assemble_unblaming source options failure h)
  read failure h := Failure.labelName_notMem (parsePatches_unblaming source failure h)
  applied patches hread p hp memory failure memory' h := by
    have hbody := wellNamed_of_parsePatches hread p hp
    exact Failure.labelName_notMem (Patch.apply_unblaming hbody memory failure memory' h)

/-- A patch whose names have letters of two scripts. It jumps to a label that it does not have. -/
def namedSource : RawText :=
  RawText.ofString ".patch haken\nläuft: JREL :fehlt.λ9\n.endpatch\n"

/-- The patch of the source. -/
def namedPatch : Patch where
  pos := ⟨1, 1⟩
  target := .region "haken"
  body := [{
    pos := ⟨2, 1⟩
    label? := some "läuft"
    op? := some "JREL"
    args := [{ pos := ⟨2, 13⟩, text := ":fehlt.λ9" }] }]

/-- A memory with the region of the patch. -/
def namedMemory : Memory where
  cells := Array.replicate 16 0
  limit := 8
  next := 4
  spans := #[{ id := 0, name := "haken", base := 0, capacity := 4 }]
  names := ⟨[("haken", 0)]⟩

/-- The name of the label is read as it is written. The source is no program, and its patch fails
for the label that is missing; but it is not the name of a label that is wrong. -/
theorem names_agree_sample :
    Text.isName "läuft" = true ∧
      parseOperand ":fehlt.λ9" = .ok (.label "fehlt.λ9") ∧
      (∃ failure, assemble namedSource {} = .error failure ∧ .labelName ∉ failure.kinds) ∧
      ∃ failure memory', namedPatch.apply namedMemory = .error failure memory' ∧
        .labelName ∉ failure.kinds := by
  have hagree := names_agree namedSource
  let definition : Token := ⟨.label, RawText.ofString "läuft", ⟨2, 1⟩⟩
  let mnemonic : Token := ⟨.ident, RawText.ofString "JREL", ⟨2, 8⟩⟩
  let use : Token := ⟨.labelRef, RawText.ofString "fehlt.λ9", ⟨2, 13⟩⟩
  have hdefinition : definition ∈ tokens namedSource := by decide +kernel
  have hline : ([definition, mnemonic, use], ⟨.newline, RawText.ofString "\n", ⟨2, 22⟩⟩) ∈
      tokenLines (tokens namedSource) := by decide +kernel
  have hbuilt : BuiltFrom namedSource use { pos := ⟨2, 13⟩, text := ":fehlt.λ9" } :=
    ⟨_, hline, [definition, mnemonic], [], [], rfl, rfl⟩
  have hread : parsePatches namedSource = .ok [namedPatch] :=
    Action.ok_of_toOption (by decide +kernel)
  have hassemble : (assemble namedSource {}).toOption.isNone := by decide +kernel
  have happly : (namedPatch.apply.result? namedMemory).isNone := by decide +kernel
  refine ⟨?_, ?_, ?_, ?_⟩
  · exact (hagree.literal definition hdefinition (.inr (.inl rfl))).1
  · obtain ⟨operand, hoperand, hparsed⟩ := hagree.argument use _ hbuilt (.inr (.inr (.inl rfl)))
    cases hoperand
    exact hparsed
  · cases hrun : assemble namedSource {} with
    | ok img => simp [Except.toOption, hrun] at hassemble
    | error failure => exact ⟨failure, rfl, hagree.assembled {} failure hrun⟩
  · cases hrun : namedPatch.apply namedMemory with
    | ok routine memory' => simp [Action.result?, hrun] at happly
    | error failure memory' =>
      have hp := List.mem_singleton_self namedPatch
      exact ⟨failure, memory', rfl, hagree.applied _ hread _ hp namedMemory failure memory' hrun⟩

end CellMachine
