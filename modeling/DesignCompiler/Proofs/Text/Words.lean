import DesignCompiler.Proofs.Text.Trimming

/-!
# Words and collapsed texts

A text is cut into words at its blanks. Only the words count for the collapsed text, so blanks at
the ends make no difference and a collapsed text collapses to itself.
-/

namespace DesignCompiler.Text

private theorem wordsFrom_append_blank {c : Char} (hc : isBlank c = true)
    (word front back : List Char) :
    wordsFrom word (front ++ c :: back) = wordsFrom word front ++ wordsFrom [] back := by
  induction front generalizing word with
  | nil => cases word <;> simp [wordsFrom, hc]
  | cons d front ih =>
    rw [List.cons_append, wordsFrom, wordsFrom]
    split
    · split
      · exact ih []
      · rw [ih [], List.cons_append]
    · exact ih (d :: word)

/-- The words of a text are those before a blank and those behind it. -/
theorem words_append_blank {c : Char} (hc : isBlank c = true) (front back : List Char) :
    words (front ++ c :: back) = words front ++ words back :=
  wordsFrom_append_blank hc [] front back

private theorem wordsFrom_of_forall {word text : List Char} (htext : ∀ c ∈ text, isBlank c = false)
    (hne : word.reverse ++ text ≠ []) : wordsFrom word text = [word.reverse ++ text] := by
  induction text generalizing word with
  | nil => simpa [wordsFrom] using hne
  | cons c text ih =>
    rw [List.forall_mem_cons] at htext
    rw [wordsFrom, if_neg (by simp [htext.1]), ih htext.2 (by simp)]
    simp

/-- A text without blanks is one word. -/
theorem words_of_forall {text : List Char} (htext : ∀ c ∈ text, isBlank c = false)
    (hne : text ≠ []) : words text = [text] :=
  wordsFrom_of_forall htext hne

/-- A word is not empty and holds no blank. -/
structure IsWordOfText (piece : List Char) : Prop where
  ne_nil : piece ≠ []
  not_isBlank : ∀ c ∈ piece, isBlank c = false

private theorem of_mem_wordsFrom {word text piece : List Char}
    (hword : ∀ c ∈ word, isBlank c = false) (hpiece : piece ∈ wordsFrom word text) :
    IsWordOfText piece := by
  induction text generalizing word with
  | nil =>
    rw [wordsFrom] at hpiece
    split at hpiece
    · cases hpiece
    · rename_i hne
      rw [List.mem_singleton.mp hpiece]
      exact ⟨by simpa using hne, by simpa using hword⟩
  | cons c text ih =>
    rw [wordsFrom] at hpiece
    split at hpiece
    · split at hpiece
      · exact ih (by simp) hpiece
      · rename_i hne
        obtain rfl | hrest := List.mem_cons.mp hpiece
        · exact ⟨by simpa using hne, by simpa using hword⟩
        · exact ih (by simp) hrest
    · rename_i hc
      exact ih (List.forall_mem_cons.mpr ⟨by simpa using hc, hword⟩) hpiece

theorem isWordOfText_of_mem_words {text piece : List Char} (hpiece : piece ∈ words text) :
    IsWordOfText piece :=
  of_mem_wordsFrom (by simp) hpiece

theorem words_append_of_allBlank_left {blanks text : List Char} (hblanks : allBlank blanks = true) :
    words (blanks ++ text) = words text := by
  induction blanks with
  | nil => rfl
  | cons c blanks ih =>
    rw [allBlank_iff, List.forall_mem_cons] at hblanks
    have hcut := words_append_blank hblanks.1 [] (blanks ++ text)
    rw [List.nil_append] at hcut
    rw [List.cons_append, hcut, ih (allBlank_iff.mpr hblanks.2)]
    rfl

theorem words_append_of_allBlank_right {text blanks : List Char}
    (hblanks : allBlank blanks = true) :
    words (text ++ blanks) = words text := by
  cases blanks with
  | nil => rw [List.append_nil]
  | cons c blanks =>
    rw [allBlank_iff, List.forall_mem_cons] at hblanks
    have hnone := @words_append_of_allBlank_left blanks [] (allBlank_iff.mpr hblanks.2)
    rw [List.append_nil] at hnone
    rw [words_append_blank hblanks.1, hnone]
    exact List.append_nil _

/-- Blanks at the ends of a text belong to no word. -/
theorem words_trim (text : List Char) : words (trim text) = words text := by
  obtain ⟨front, back, htext, hfront, hback⟩ := exists_eq_append_trim text
  conv_rhs => rw [htext, words_append_of_allBlank_right hback, words_append_of_allBlank_left hfront]

private theorem allBlank_of_wordsFrom_eq_nil {word text : List Char}
    (hnone : wordsFrom word text = []) :
    word = [] ∧ allBlank text = true := by
  induction text generalizing word with
  | nil =>
    rw [wordsFrom] at hnone
    split at hnone
    · rename_i hempty
      exact ⟨List.isEmpty_iff.mp hempty, rfl⟩
    · cases hnone
  | cons c text ih =>
    rw [wordsFrom] at hnone
    split at hnone
    · rename_i hc
      split at hnone
      · rename_i hempty
        have hrest := allBlank_iff.mp (ih hnone).2
        exact ⟨List.isEmpty_iff.mp hempty, allBlank_iff.mpr (List.forall_mem_cons.mpr ⟨hc, hrest⟩)⟩
      · cases hnone
    · cases (ih hnone).1

/-- A text has no words if it is blank, and only then. -/
theorem words_eq_nil_iff {text : List Char} : words text = [] ↔ allBlank text = true := by
  constructor
  · intro hnone
    exact (allBlank_of_wordsFrom_eq_nil hnone).2
  · intro hblank
    have hwords := @words_append_of_allBlank_left text [] hblank
    rw [List.append_nil] at hwords
    exact hwords

/-- Joining words undoes the cutting. -/
theorem words_intercalate {pieces : List (List Char)}
    (hpieces : ∀ piece ∈ pieces, IsWordOfText piece) :
    words ([' '].intercalate pieces) = pieces := by
  induction pieces with
  | nil => rfl
  | cons piece pieces ih =>
    rw [List.forall_mem_cons] at hpieces
    have hpiece := words_of_forall hpieces.1.not_isBlank hpieces.1.ne_nil
    cases pieces with
    | nil => simpa [List.intercalate] using hpiece
    | cons next pieces =>
      have hcons : [' '].intercalate (piece :: next :: pieces) =
          piece ++ ' ' :: [' '].intercalate (next :: pieces) := by simp [List.intercalate]
      rw [hcons, words_append_blank (by decide), hpiece, ih hpieces.2]
      rfl

theorem words_collapse (text : List Char) : words (collapse text) = words text :=
  words_intercalate fun _ hpiece => isWordOfText_of_mem_words hpiece

/-- A collapsed text collapses to itself. -/
theorem collapse_collapse (text : List Char) : collapse (collapse text) = collapse text := by
  rw [collapse, words_collapse, collapse]

theorem collapse_trim (text : List Char) : collapse (trim text) = collapse text := by
  rw [collapse, words_trim, collapse]

/-- A text collapses to nothing if it is blank, and only then. -/
theorem collapse_eq_nil_iff {text : List Char} : collapse text = [] ↔ allBlank text = true := by
  rw [← words_eq_nil_iff]
  constructor
  · intro hnil
    have hwords := words_collapse text
    rw [hnil] at hwords
    exact hwords.symm
  · intro hnil
    rw [collapse, hnil]
    rfl

end DesignCompiler.Text
