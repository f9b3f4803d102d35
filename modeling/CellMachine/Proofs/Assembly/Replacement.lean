import CellMachine.Proofs.Assembly.Bare

/-!
# Statements in place of others

Statements are assembled side by side with others that take their place: at every point the second
assembly is the first one without levels. A statement that is selected takes its own place; of one
that is not, the local that it declares does. Of a statement between branches its label is left, if
the branch before it was selected. The size of the data segment, for which statements are scanned
before they are assembled, is the same.

* `SizeScan` — the scan for the size of the data segment, step by step.
* `Assembler.Replaces` — some statements do to the bare assembly what others do to the assembly.
* `Assembler.Sound.replaces_self`, `Assembler.Sound.replaces_local` — statements outside groups.
* `Assembler.Sound.turnStep` — **statements between branches.**
* `Assembler.Runs` — a run of statements that end well.
-/

namespace CellMachine

open CellMachine.Action

/-! ### Sizes of the data segment -/

/-- What a scan for the size of the data segment has seen. -/
structure SizeScan where
  late : Bool
  size? : Option Int
  globals : Nat

namespace SizeScan

/-- The scan after one more statement. -/
def step (c : SizeScan) (st : Statement) : Except Failure SizeScan :=
  match st.op? with
  | some ".data" =>
    if c.late then .error (.atLine st.pos (.misplaced .lateData))
    else
      match statedSize st with
      | .error cause => .error (.atLine st.pos cause)
      | .ok size => .ok { c with size? := some size }
  | some ".global" => .ok { c with late := true, globals := c.globals + 1 }
  | some ".routine" => .ok { c with late := true }
  | _ => .ok c

/-- The scan after statements. -/
def run : List Statement → SizeScan → Except Failure SizeScan
  | [], c => .ok c
  | st :: rest, c => do run rest (← c.step st)

variable {c c₂ : SizeScan} {st : Statement}

/-- Scans follow one another. -/
theorem run_append (l l' : List Statement) : ∀ c, run (l ++ l') c = run l c >>= run l' := by
  induction l with
  | nil => exact fun _ => rfl
  | cons st rest ih =>
    intro c
    show c.step st >>= run (rest ++ l') = (c.step st >>= run rest) >>= run l'
    cases c.step st with
    | error failure => rfl
    | ok c₁ => exact ih c₁

/-- A scan of one statement. -/
theorem run_singleton (st : Statement) (c : SizeScan) : run [st] c = c.step st := by
  unfold run
  cases c.step st with
  | error failure => rfl
  | ok c₁ => rfl

/-- A scan that is late stays late, and is late in a routine. -/
theorem late_of_run (h : run [st] c = .ok c₂) :
    (c.late = true → c₂.late = true) ∧ (st.op? = some ".routine" → c₂.late = true) := by
  rw [run_singleton] at h
  unfold step at h
  split at h
  · next hop =>
    split at h
    · cases h
    · split at h
      · cases h
      · cases h
        exact ⟨id, by simp [hop]⟩
  · cases h
    exact ⟨fun _ => rfl, fun _ => rfl⟩
  · cases h
    exact ⟨fun _ => rfl, fun _ => rfl⟩
  · next hroutine =>
    cases h
    exact ⟨id, fun hop => absurd hop hroutine⟩

/-- What states no size and declares no global or routine is passed over. -/
theorem step_of_other (hdata : st.op? ≠ some ".data") (hglobal : st.op? ≠ some ".global")
    (hroutine : st.op? ≠ some ".routine") : c.step st = .ok c := by
  unfold step
  split
  · next hop => exact absurd hop hdata
  · next hop => exact absurd hop hglobal
  · next hop => exact absurd hop hroutine
  · rfl

/-- In a routine, what declares no global and no routine is passed over. -/
theorem eq_of_late (hlate : c.late = true) (hglobal : st.op? ≠ some ".global")
    (hroutine : st.op? ≠ some ".routine") (h : run [st] c = .ok c₂) : c₂ = c := by
  rw [run_singleton] at h
  by_cases hdata : st.op? = some ".data"
  · unfold step at h
    rw [hdata, hlate] at h
    cases h
  · rw [step_of_other hdata hglobal hroutine] at h
    exact (Except.ok.inj h).symm

/-- The scan for the size of the data segment, step by step. -/
theorem scanSizes_eq (sts : List Statement) : ∀ c : SizeScan,
    scanSizes c.late c.size? c.globals sts = (run sts c).map fun c => (c.size?, c.globals) := by
  induction sts with
  | nil => exact fun _ => rfl
  | cons st rest ih =>
    intro c
    unfold scanSizes run
    split
    · next hop =>
      unfold step
      rw [hop]
      cases hlate : c.late with
      | true => rfl
      | false =>
        cases statedSize st with
        | error cause => rfl
        | ok size => exact ih ⟨false, some size, c.globals⟩
    · next hop =>
      unfold step
      rw [hop]
      exact ih { c with late := true, globals := c.globals + 1 }
    · next hop =>
      unfold step
      rw [hop]
      exact ih { c with late := true }
    · next hdata hglobal hroutine =>
      rw [step_of_other hdata hglobal hroutine]
      exact ih c

end SizeScan

/-! ### Statements in place of others -/

namespace Assembler

variable {a a₁ a₂ : Assembler} {st : Statement} {l l₁ l₂ l₁' l₂' : List Statement}

/-- A statement that ends well has a label and an operation that do. -/
theorem statement_iff : statement st a = .ok () a₂ ↔
    ∃ a₁, label st a = .ok () a₁ ∧ operation st a₁ = .ok () a₂ := by
  constructor
  · intro h
    unfold statement Action.at at h
    split at h
    · next hboth =>
      cases h
      obtain ⟨_, a₁, hlabel, hoperation⟩ := ok_of_bind hboth
      exact ⟨a₁, hlabel, hoperation⟩
    · cases h
  · rintro ⟨a₁, hlabel, hoperation⟩
    unfold statement Action.at
    rw [show (do label st; operation st : Action Assembler Unit) a = .ok () a₂ from
      (bind_of_ok hlabel).trans hoperation]

/-- Statements that end well, one after the other. -/
theorem statements_cons_iff : statements (st :: l) a = .ok () a₂ ↔
    ∃ a₁, statement st a = .ok () a₁ ∧ statements l a₁ = .ok () a₂ := by
  constructor
  · intro h
    obtain ⟨_, a₁, hfirst, hrest⟩ := ok_of_bind h
    exact ⟨a₁, hfirst, hrest⟩
  · rintro ⟨a₁, hfirst, hrest⟩
    exact (bind_of_ok hfirst).trans hrest

/-- Lists of statements that end well, one after the other. -/
theorem statements_append_iff : statements (l₁ ++ l₂) a = .ok () a₂ ↔
    ∃ a₁, statements l₁ a = .ok () a₁ ∧ statements l₂ a₁ = .ok () a₂ := by
  induction l₁ generalizing a with
  | nil =>
    constructor
    · exact fun h => ⟨a, rfl, h⟩
    · rintro ⟨_, ⟨⟩, h⟩
      exact h
  | cons st rest ih =>
    rw [List.cons_append, statements_cons_iff]
    constructor
    · rintro ⟨a₁, hfirst, hrest⟩
      obtain ⟨a', hrest, hlast⟩ := ih.mp hrest
      exact ⟨a', statements_cons_iff.mpr ⟨a₁, hfirst, hrest⟩, hlast⟩
    · rintro ⟨a', hrest, hlast⟩
      obtain ⟨a₁, hfirst, hrest⟩ := statements_cons_iff.mp hrest
      exact ⟨a₁, hfirst, ih.mpr ⟨a', hrest, hlast⟩⟩

/-- **The statements `l'` do to the bare assembly what `l` have done to the assembly**, and a scan
for the size of the data segment finds the same in both. -/
structure Replaces (l l' : List Statement) (a a₂ : Assembler) : Prop where
  run : statements l' a.bare = .ok () a₂.bare
  scan : ∀ c c₂ : SizeScan, (a.block?.isSome → c.late = true) → SizeScan.run l c = .ok c₂ →
    SizeScan.run l' c = .ok c₂ ∧ (a₂.block?.isSome → c₂.late = true)

/-- Nothing stands for nothing. -/
theorem Replaces.nil : Replaces [] [] a a :=
  ⟨rfl, fun _ _ hlate hscan => ⟨hscan, Except.ok.inj hscan ▸ hlate⟩⟩

/-- Lists are replaced one after the other. -/
theorem Replaces.append (h₁ : Replaces l₁ l₁' a a₁) (h₂ : Replaces l₂ l₂' a₁ a₂) :
    Replaces (l₁ ++ l₂) (l₁' ++ l₂') a a₂ where
  run := statements_append_iff.mpr ⟨a₁.bare, h₁.run, h₂.run⟩
  scan := by
    intro c c₂ hlate hscan
    rw [SizeScan.run_append] at hscan ⊢
    cases hfirst : SizeScan.run l₁ c with
    | error failure =>
      rw [hfirst] at hscan
      cases hscan
    | ok c₁ =>
      rw [hfirst] at hscan
      obtain ⟨hfirst', hlate₁⟩ := h₁.scan c c₁ hlate hfirst
      rw [hfirst']
      exact h₂.scan c₁ c₂ hlate₁ hscan

/-- In a routine, a statement that declares no global and no routine is replaced by others that
are passed over by the scan. -/
theorem Replaces.of_inside (hinside : a.block?.isSome)
    (hother : st.op? ≠ some ".global" ∧ st.op? ≠ some ".routine")
    (hrun : statements l a.bare = .ok () a₂.bare) (hl : ∀ c, SizeScan.run l c = .ok c) :
    Replaces [st] l a a₂ where
  run := hrun
  scan := by
    intro c c₂ hlate hscan
    obtain rfl := SizeScan.eq_of_late (hlate hinside) hother.1 hother.2 hscan
    exact ⟨hl c₂, fun _ => hlate hinside⟩

/-- A statement outside groups that is selected stands for itself. -/
theorem Sound.replaces_self (hsound : a.Sound) (hplain : ¬st.IsConditional) (hactive : a.active)
    (h : statement st a = .ok () a₂) : Replaces [st] [st] a a₂ := by
  obtain ⟨a₁, hlabel, hoperation⟩ := statement_iff.mp h
  obtain ⟨hworks, hlabel'⟩ := hsound.works_of_label hlabel
  have hstep := hworks.sound.plainStep hplain hoperation
  have hactive₁ : a₁.active := by
    unfold active
    rw [hworks.levels]
    exact hactive
  refine ⟨statements_cons_iff.mpr ⟨a₂.bare, ?_, rfl⟩, fun c c₂ hlate hscan => ⟨hscan, ?_⟩⟩
  · exact statement_iff.mpr ⟨a₁.bare, hlabel' hactive, hstep.active hactive₁⟩
  · intro hinside
    obtain ⟨hstays, hroutine⟩ := SizeScan.late_of_run hscan
    rcases hstep.opened hinside with hbefore | hop
    · exact hstays (hlate (hworks.inside ▸ hbefore))
    · exact hroutine hop

/-- A statement outside groups that is not selected is replaced by the local that it declares. -/
theorem Sound.replaces_local (hsound : a.Sound) (hplain : ¬st.IsConditional)
    (hactive : a.active = false) (h : statement st a = .ok () a₂) :
    Replaces [st] st.localLine a a₂ := by
  obtain ⟨a₁, hlabel, hoperation⟩ := statement_iff.mp h
  obtain ⟨hworks, -⟩ := hsound.works_of_label hlabel
  have hstep := hworks.sound.plainStep hplain hoperation
  have hactive₁ : a₁.active = false := by
    unfold active
    rw [hworks.levels]
    exact hactive
  obtain ⟨b, hb, -, -⟩ := exists_block_of_inactive hactive
  obtain ⟨hother, hrun⟩ := hstep.inactive hactive₁
  rw [hworks.skipped hactive] at hrun
  unfold Statement.localLine
  by_cases hlocal : st.op? = some ".local"
  · rw [if_pos hlocal] at hrun ⊢
    have hline : operation { st with label? := none } = operation st := by
      have hdot : st.isDirective := by simp [Statement.isDirective, hlocal]
      rw [operation_of_directive hlocal hdot]
      exact operation_of_directive hlocal hdot
    refine .of_inside (by simp [hb]) hother (statements_cons_iff.mpr ⟨a₂.bare, ?_, rfl⟩) fun c => ?_
    · exact statement_iff.mpr ⟨a.bare, rfl, (congrFun hline a.bare).trans hrun⟩
    · rw [SizeScan.run_singleton]
      exact SizeScan.step_of_other (by simp [hlocal]) (by simp [hlocal]) (by simp [hlocal])
  · rw [if_neg hlocal] at hrun ⊢
    exact .of_inside (by simp [hb]) hother (congrArg _ hrun.symm) fun _ => rfl

/-- A statement outside groups leaves the levels alone. -/
theorem Sound.levels_of_plain (hsound : a.Sound) (hplain : ¬st.IsConditional)
    (h : statement st a = .ok () a₂) : a₂.levels = a.levels := by
  obtain ⟨a₁, hlabel, hoperation⟩ := statement_iff.mp h
  have hworks := (hsound.works_of_label hlabel).1
  exact (hworks.sound.plainStep hplain hoperation).levels.trans hworks.levels

/-- What a statement between branches has done. -/
structure TurnStep (c : Bool) (st : Statement) (a a₂ : Assembler) : Prop where
  sound : a₂.Sound
  globals : a₂.globals = a.globals
  turn : ∃ op, st.op? = some op ∧ Turn c op a.levels a₂.levels
  active : a.active → Replaces [st] st.labelLine a a₂
  inactive : a.active = false → Replaces [st] [] a a₂

/-- A label stands for the statement that it is the label of. -/
theorem statements_labelLine (h : label st a = .ok () a₁) :
    statements st.labelLine a = .ok () a₁ := by
  unfold Statement.labelLine
  unfold label at h
  cases hlabel : st.label? with
  | none =>
    rw [hlabel] at h
    exact h
  | some name =>
    rw [hlabel] at h
    exact statements_cons_iff.mpr ⟨a₁, statement_iff.mpr ⟨a₁, h, rfl⟩, rfl⟩

/-- The scan passes over labels. -/
theorem run_labelLine (st : Statement) (c : SizeScan) : SizeScan.run st.labelLine c = .ok c := by
  unfold Statement.labelLine
  cases st.label? with
  | none => rfl
  | some name => rfl

/-- **A statement between branches changes the levels**, and is replaced by its label. -/
theorem Sound.turnStep (hsound : a.Sound) {more : List (String × Cell)}
    (hmore : a.globals <+: more) (hcond : st.IsConditional) (h : statement st a = .ok () a₂) :
    TurnStep (st.holds more) st a a₂ := by
  obtain ⟨a₁, hlabel, hoperation⟩ := statement_iff.mp h
  obtain ⟨hworks, hlabel'⟩ := hsound.works_of_label hlabel
  have hglobals : a₁.globals = a.globals := by
    unfold Assembler.globals
    rw [hworks.program]
  obtain ⟨op, hmem, hop⟩ := hcond
  have hdot : st.isDirective := by
    have hdots : ∀ op ∈ [".if", ".elseif", ".else", ".endif"],
        (op.toList.head? == some '.') = true := by decide
    unfold Statement.isDirective
    rw [hop]
    exact hdots op hmem
  rw [operation_of_directive hop hdot] at hoperation
  obtain ⟨b, levels, hb, rfl, hturn⟩ :=
    hworks.sound.turn_of_directive (hglobals ▸ hmore) hmem hoperation
  have hlevels : a.levels = b.levels := by
    rw [← hworks.levels, levels_of_block hb]
  have hbare : Assembler.bare { a₁ with block? := some { b with levels } } = a₁.bare := by
    unfold bare
    rw [hb]
    rfl
  have hinside : a.block?.isSome := by
    rw [← hworks.inside, hb]
    rfl
  have hother : st.op? ≠ some ".global" ∧ st.op? ≠ some ".routine" := by
    have hothers : ∀ op ∈ [".if", ".elseif", ".else", ".endif"],
        op ≠ ".global" ∧ op ≠ ".routine" := by decide
    rw [hop]
    simpa using hothers op hmem
  refine ⟨⟨?_, hworks.sound.locals⟩, hglobals, ⟨op, hop, ?_⟩, fun h => ?_, fun h => ?_⟩
  · rintro _ ⟨⟩
    obtain ⟨calls, r, hworking⟩ := hworks.sound.block b hb
    exact ⟨calls, r, hworking.of_same rfl rfl⟩
  · rw [hlevels]
    exact hturn
  · refine .of_inside hinside hother ?_ (run_labelLine st)
    rw [hbare]
    exact statements_labelLine (hlabel' h)
  · refine .of_inside hinside hother ?_ fun _ => rfl
    rw [hbare, hworks.skipped h]
    rfl

/-- A statement between branches turns as its directive says. -/
theorem TurnStep.turn_of_op {c : Bool} {op : String} (h : TurnStep c st a a₂)
    (hop : st.op? = some op) : Turn c op a.levels a₂.levels := by
  obtain ⟨op', hop', hturn⟩ := h.turn
  obtain rfl := Option.some.inj (hop'.symm.trans hop)
  exact hturn

/-- A statement keeps an assembly sound, and notes the global that it declares. -/
theorem Sound.statement (hsound : a.Sound) (h : Assembler.statement st a = .ok () a₂) :
    a₂.Sound ∧ a₂.globals = a.globals ++ st.global?.toList := by
  by_cases hcond : st.IsConditional
  · have hstep := hsound.turnStep (List.prefix_refl a.globals) hcond h
    have hglobal : st.op? ≠ some ".global" := by
      obtain ⟨op, hmem, hop⟩ := hcond
      rintro hglobal
      obtain rfl := Option.some.inj (hop.symm.trans hglobal)
      exact absurd hmem (by decide)
    rw [global?_eq_none hglobal, Option.toList_none, List.append_nil]
    exact ⟨hstep.sound, hstep.globals⟩
  · obtain ⟨a₁, hlabel, hoperation⟩ := statement_iff.mp h
    have hworks := (hsound.works_of_label hlabel).1
    have hstep := hworks.sound.plainStep hcond hoperation
    refine ⟨hstep.sound, hstep.globals.trans ?_⟩
    unfold Assembler.globals
    rw [hworks.program]

/-- Statements keep an assembly sound, and note the globals that they declare. -/
theorem Sound.statements : ∀ {a : Assembler}, a.Sound → Assembler.statements l a = .ok () a₂ →
    a₂.Sound ∧ a₂.globals = a.globals ++ globalsOf l := by
  induction l with
  | nil =>
    rintro a hsound ⟨⟩
    exact ⟨hsound, (List.append_nil _).symm⟩
  | cons st rest ih =>
    intro a hsound h
    obtain ⟨a₁, hfirst, hrest⟩ := statements_cons_iff.mp h
    obtain ⟨hsound₁, hglobals₁⟩ := hsound.statement hfirst
    obtain ⟨hsound₂, hglobals₂⟩ := ih hsound₁ hrest
    refine ⟨hsound₂, ?_⟩
    rw [hglobals₂, hglobals₁, List.append_assoc]
    unfold globalsOf
    cases hglobal : st.global? with
    | none => rw [List.filterMap_cons_none hglobal]; rfl
    | some g => rw [List.filterMap_cons_some hglobal]; rfl

/-! ### Runs of statements -/

/-- A sound assembly is carried on by statements that end well, among globals of which some are
declared later. -/
structure Runs (more : List (String × Cell)) (l : List Statement) (a a₂ : Assembler) : Prop where
  sound : a.Sound
  fits : a.globals ++ globalsOf l <+: more
  run : Assembler.statements l a = .ok () a₂

namespace Runs

variable {more : List (String × Cell)}

/-- A run of two lists is a run of the first one and then of the second one. -/
theorem split (h : Runs more (l₁ ++ l₂) a a₂) :
    ∃ a₁, Runs more l₁ a a₁ ∧ Runs more l₂ a₁ a₂ := by
  obtain ⟨a₁, hfirst, hsecond⟩ := statements_append_iff.mp h.run
  obtain ⟨hsound, hglobals⟩ := h.sound.statements hfirst
  have hfits := h.fits
  unfold globalsOf at hfits
  rw [List.filterMap_append, ← List.append_assoc] at hfits
  refine ⟨a₁, ⟨h.sound, ?_, hfirst⟩, ⟨hsound, ?_, hsecond⟩⟩
  · exact (List.prefix_append _ _).trans hfits
  · rw [hglobals]
    exact hfits

/-- A run of one statement. -/
theorem statement (h : Runs more [st] a a₂) : Assembler.statement st a = .ok () a₂ := by
  obtain ⟨_, hfirst, ⟨⟩⟩ := statements_cons_iff.mp h.run
  exact hfirst

/-- A run of a statement between branches. -/
theorem turnStep (h : Runs more [st] a a₂) (hcond : st.IsConditional) :
    TurnStep (st.holds more) st a a₂ :=
  h.sound.turnStep ((List.prefix_append _ _).trans h.fits) hcond h.statement

end Runs

end Assembler

end CellMachine
