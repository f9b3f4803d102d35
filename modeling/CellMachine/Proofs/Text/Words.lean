/-!
# The lines of a text and their words

A listing is read by its lines, and a line by its words, the pieces between its blanks. However many
blanks fill up a column, the words of a line do not depend on them.

* `linesOf`, `linesOf_intercalate` — the lines.
* `wordsOf`, `wordsOf_append_blank` — the words: a blank stands between two of them;
  `flatten_wordsOf` — nothing else is left out.
* `IsWord`, `wordsOf_cons`, `wordsOf_column` — the words of a line that is put together from words
  and columns.
* `commaWords`, `wordsOf_intercalate`, `commaWords_inj` — the words of items with commas between
  them, and the items from their words.
-/

namespace CellMachine.Text

/-! ### Lines -/

/-- The lines of a text. A text without characters has none. -/
def linesOf (cs : List Char) : List (List Char) :=
  if cs.isEmpty then [] else cs.splitOn '\n'

/-- Lines that are put one below the other are the lines of the text. -/
theorem linesOf_intercalate {lines : List (List Char)} (hlines : ∀ l ∈ lines, l ≠ [] ∧ '\n' ∉ l) :
    linesOf (['\n'].intercalate lines) = lines := by
  unfold linesOf
  cases lines with
  | nil => rfl
  | cons line rest =>
    have hnonempty : (['\n'].intercalate (line :: rest)).isEmpty = false := by
      obtain ⟨c, cs, rfl⟩ :=
        List.exists_cons_of_ne_nil (hlines line (List.mem_cons_self ..)).1
      cases rest <;> rfl
    rw [hnonempty]
    exact List.splitOn_intercalate '\n' (fun l hl => (hlines l hl).2) (List.cons_ne_nil line rest)

/-! ### Words -/

/-- The words of a text. -/
def wordsOf (cs : List Char) : List (List Char) :=
  (cs.splitOn ' ').filter fun w => !w.isEmpty

/-- **A blank stands between two words**, and is in neither. -/
theorem wordsOf_append_blank (a b : List Char) :
    wordsOf (a ++ ' ' :: b) = wordsOf a ++ wordsOf b := by
  unfold wordsOf
  rw [List.splitOn_append_cons_self, List.filter_append]

/-- Put together, the words are the text without its blanks. -/
theorem flatten_wordsOf (cs : List Char) : (wordsOf cs).flatten = cs.filter (· != ' ') := by
  unfold wordsOf
  rw [List.flatten_filter_not_isEmpty]
  induction cs with
  | nil => rfl
  | cons c cs ih =>
    rw [List.splitOn_cons_eq_if_modifyHead]
    by_cases hc : c = ' '
    · subst hc
      exact ih
    · obtain ⟨w, ws, hsplit⟩ := List.exists_cons_of_ne_nil (List.splitOn_ne_nil ' ' cs)
      rw [hsplit] at ih ⊢
      simpa [hc] using ih

/-- A blank in front of a text does not count. -/
theorem wordsOf_blank (b : List Char) : wordsOf (' ' :: b) = wordsOf b :=
  wordsOf_append_blank [] b

/-- A blank behind a text does not count. -/
theorem wordsOf_concat_blank (a : List Char) : wordsOf (a ++ [' ']) = wordsOf a :=
  (wordsOf_append_blank a []).trans (List.append_nil _)

/-- Blanks in front of a text do not count. -/
theorem wordsOf_blanks (n : Nat) (b : List Char) :
    wordsOf (List.replicate n ' ' ++ b) = wordsOf b := by
  induction n with
  | zero => rfl
  | succ n ih => rw [List.replicate_succ, List.cons_append, wordsOf_blank, ih]

/-! ### Lines that are put together -/

/-- A character that a word may have in it: neither a blank nor a line end. -/
def isSolid (c : Char) : Bool := c != ' ' && c != '\n'

/-- A character of a class that has neither blanks nor line ends in it. -/
theorem isSolid_of_class {p : Char → Bool} {c : Char} (hblank : p ' ' = false)
    (hend : p '\n' = false) (hc : p c = true) : isSolid c = true := by
  have hne : ∀ d, p d = false → (c != d) = true := by
    intro d hd
    refine bne_iff_ne.mpr ?_
    rintro rfl
    rw [hc] at hd
    cases hd
  exact Bool.and_eq_true_iff.mpr ⟨hne ' ' hblank, hne '\n' hend⟩

/-- A piece of text that is one word of a line. -/
structure IsWord (w : List Char) : Prop where
  nonempty : w ≠ []
  solid : w.all isSolid = true

/-- A text that is seen to be a word. -/
theorem IsWord.of_eq_true {w : List Char} (h : (!w.isEmpty && w.all isSolid) = true) :
    IsWord w where
  nonempty := by
    rintro rfl
    cases h
  solid := (Bool.and_eq_true_iff.mp h).2

/-- A word with something behind it in which there are no blanks is one word. -/
theorem IsWord.append {w v : List Char} (h : IsWord w) (hv : v.all isSolid = true) :
    IsWord (w ++ v) where
  nonempty := fun hnil => h.nonempty (List.append_eq_nil_iff.mp hnil).1
  solid := by
    rw [List.all_append, h.solid, hv]
    rfl

/-- A line has no line end in it if its words have none. -/
theorem not_mem_of_words {cs : List Char} (h : ∀ w ∈ wordsOf cs, IsWord w) : '\n' ∉ cs := by
  intro hmem
  have hkept : '\n' ∈ (wordsOf cs).flatten := by
    rw [flatten_wordsOf]
    exact List.mem_filter.mpr ⟨hmem, rfl⟩
  obtain ⟨w, hw, hc⟩ := List.mem_flatten.mp hkept
  cases List.all_eq_true.mp (h w hw).solid _ hc

/-- One word. -/
theorem wordsOf_word {w : List Char} (h : IsWord w) : wordsOf w = [w] := by
  have hblank : ' ' ∉ w := fun hmem => nomatch List.all_eq_true.mp h.solid _ hmem
  unfold wordsOf
  rw [List.splitOn_eq_singleton hblank]
  simp [h.nonempty]

/-- A word and what stands behind it. -/
theorem wordsOf_cons {w : List Char} (h : IsWord w) (b : List Char) :
    wordsOf (w ++ ' ' :: b) = w :: wordsOf b := by
  rw [wordsOf_append_blank, wordsOf_word h]
  rfl

/-- A word that fills a column, and what stands behind the column. -/
theorem wordsOf_column {w : List Char} (h : IsWord w) (n : Nat) (b : List Char) :
    wordsOf (w ++ List.replicate n ' ' ++ ' ' :: b) = w :: wordsOf b := by
  have hfill : List.replicate n ' ' ++ ' ' :: b = ' ' :: (List.replicate n ' ' ++ b) := by
    rw [← List.singleton_append (l := b), ← List.append_assoc, ← List.replicate_succ',
      List.replicate_succ, List.cons_append]
  rw [List.append_assoc, hfill, wordsOf_cons h, wordsOf_blanks]

/-! ### Items with commas between them -/

/-- The words of items with commas between them: every item but the last one with its comma. -/
def commaWords : List (List Char) → List (List Char)
  | [] => []
  | [w] => [w]
  | w :: v :: ws => (w ++ [',']) :: commaWords (v :: ws)

@[simp]
theorem length_commaWords : (ws : List (List Char)) → (commaWords ws).length = ws.length
  | [] | [_] => rfl
  | _ :: v :: ws => congrArg (· + 1) (length_commaWords (v :: ws))

/-- Items can be told from their words. -/
theorem commaWords_inj : {as bs : List (List Char)} → as.length = bs.length →
    commaWords as = commaWords bs → as = bs
  | [], [], _, _ => rfl
  | [_], [_], _, h => h
  | a :: c :: as, b :: d :: bs, hlength, h => by
    obtain ⟨hhead, htail⟩ := List.cons.inj h
    rw [List.append_cancel_right hhead, commaWords_inj (Nat.succ.inj hlength) htail]

/-- Every word of the items is one of them, perhaps with its comma. -/
theorem exists_of_mem_commaWords : {ws : List (List Char)} → {u : List Char} →
    u ∈ commaWords ws → ∃ w ∈ ws, u = w ∨ u = w ++ [',']
  | [w], u, h => ⟨w, List.mem_singleton_self w, .inl (List.mem_singleton.mp h)⟩
  | w :: v :: ws, u, h => by
    rcases List.mem_cons.mp h with rfl | htail
    · exact ⟨w, List.mem_cons_self .., .inr rfl⟩
    · obtain ⟨x, hx, hu⟩ := exists_of_mem_commaWords htail
      exact ⟨x, List.mem_cons_of_mem w hx, hu⟩

/-- The words of items with commas and blanks between them, and of what stands behind them. -/
theorem wordsOf_intercalate : (ws : List (List Char)) → (∀ w ∈ ws, IsWord w) → ∀ b,
    wordsOf ([',', ' '].intercalate ws ++ ' ' :: b) = commaWords ws ++ wordsOf b
  | [], _, b => wordsOf_blank b
  | [w], h, b => by
    rw [List.intercalate_singleton, wordsOf_cons (h w (List.mem_singleton_self w))]
    rfl
  | w :: v :: ws, h, b => by
    have hw : IsWord (w ++ [',']) := (h w (List.mem_cons_self ..)).append rfl
    have hrest := wordsOf_intercalate (v :: ws) (fun x hx => h x (List.mem_cons_of_mem w hx)) b
    have hsplit : [',', ' '].intercalate (w :: v :: ws) ++ ' ' :: b =
        (w ++ [',']) ++ ' ' :: ([',', ' '].intercalate (v :: ws) ++ ' ' :: b) := by
      rw [List.intercalate_cons_cons]
      simp
    rw [hsplit, wordsOf_cons hw, hrest]
    rfl

end CellMachine.Text
