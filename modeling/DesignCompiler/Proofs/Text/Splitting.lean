import DesignCompiler.Proofs.Text.Trimming
import Mathlib.Data.List.Infix

/-!
# Pieces of a text

Splitting a text at marks and joining the pieces again undo each other as long as no piece holds a
mark, and a search succeeds exactly where what it looks for occurs.
-/

namespace DesignCompiler.Text

/-- A run of characters of a class extends to the first character outside it. -/
theorem takeWhile_append_of_head? {p : Char → Bool} {front back : List Char}
    (hfront : ∀ c ∈ front, p c = true) (hback : ∀ c ∈ back.head?, p c = false) :
    (front ++ back).takeWhile p = front := by
  rw [List.takeWhile_append_of_pos hfront]
  cases back with
  | nil => simp
  | cons c back => rw [List.takeWhile_cons_of_neg (by simp [hback c rfl]), List.append_nil]

theorem dropWhile_append_of_head? {p : Char → Bool} {front back : List Char}
    (hfront : ∀ c ∈ front, p c = true) (hback : ∀ c ∈ back.head?, p c = false) :
    (front ++ back).dropWhile p = back := by
  rw [List.dropWhile_append_of_pos hfront]
  cases back with
  | nil => rfl
  | cons c back => rw [List.dropWhile_cons_of_neg (by simp [hback c rfl])]

/-- A run of a limited length extends to the limit or to the first character outside the class. -/
theorem takeWhile_take_append {p : Char → Bool} {most : Nat} {front back : List Char}
    (hfront : ∀ c ∈ front, p c = true) (hlength : front.length ≤ most)
    (hends : front.length = most ∨ ∀ c ∈ back.head?, p c = false) :
    ((front ++ back).take most).takeWhile p = front := by
  rw [List.take_append, List.take_of_length_le hlength]
  refine takeWhile_append_of_head? hfront fun c hc => ?_
  obtain hfull | hback := hends
  · simp [hfull] at hc
  · rw [List.head?_take] at hc
    split at hc
    · cases hc
    · exact hback c hc

/-- A run of characters of a class ends where it did if it ends within the text, or if what is added
    to the text does not go on with it. -/
theorem takeWhile_append_of_ends {p : Char → Bool} {front back : List Char}
    (hends : front.dropWhile p ≠ [] ∨ ∀ c ∈ back.head?, p c = false) :
    (front ++ back).takeWhile p = front.takeWhile p := by
  induction front with
  | nil =>
    have hback := hends.resolve_left (by simp)
    have hnone : ∀ c ∈ ([] : List Char), p c = true := by simp
    simpa using takeWhile_append_of_head? hnone hback
  | cons c front ih =>
    rw [List.cons_append]
    cases hc : p c with
    | false => simp [hc]
    | true =>
      rw [List.dropWhile_cons_of_pos hc] at hends
      rw [List.takeWhile_cons_of_pos hc, List.takeWhile_cons_of_pos hc, ih hends]

theorem dropWhile_append_of_ends {p : Char → Bool} {front back : List Char}
    (hends : front.dropWhile p ≠ [] ∨ ∀ c ∈ back.head?, p c = false) :
    (front ++ back).dropWhile p = front.dropWhile p ++ back := by
  induction front with
  | nil =>
    have hback := hends.resolve_left (by simp)
    have hnone : ∀ c ∈ ([] : List Char), p c = true := by simp
    simpa using dropWhile_append_of_head? hnone hback
  | cons c front ih =>
    rw [List.cons_append]
    cases hc : p c with
    | false => simp [hc]
    | true =>
      rw [List.dropWhile_cons_of_pos hc] at hends
      rw [List.dropWhile_cons_of_pos hc, List.dropWhile_cons_of_pos hc, ih hends]

theorem splitOn_ne_nil (separates : Char → Bool) (text : List Char) :
    splitOn separates text ≠ [] := by
  cases text with
  | nil => simp [splitOn]
  | cons c rest =>
    rw [splitOn]
    split
    · simp
    · split <;> simp

theorem exists_splitOn_eq_cons (separates : Char → Bool) (text : List Char) :
    ∃ piece pieces, splitOn separates text = piece :: pieces :=
  List.exists_cons_of_ne_nil (splitOn_ne_nil separates text)

theorem splitOn_cons_of_separates {separates : Char → Bool} {c : Char} {text : List Char}
    (hmark : separates c = true) :
    splitOn separates (c :: text) = [] :: splitOn separates text := by
  rw [splitOn, if_pos hmark]

theorem splitOn_cons_of_not_separates {separates : Char → Bool} {c : Char}
    {text piece : List Char} {pieces : List (List Char)} (hplain : separates c = false)
    (hsplit : splitOn separates text = piece :: pieces) :
    splitOn separates (c :: text) = (c :: piece) :: pieces := by
  rw [splitOn, if_neg (by simp [hplain]), hsplit]

/-- What holds no mark stays in front of the first piece. -/
theorem splitOn_append {separates : Char → Bool} {front text piece : List Char}
    {pieces : List (List Char)} (hfront : ∀ c ∈ front, separates c = false)
    (hsplit : splitOn separates text = piece :: pieces) :
    splitOn separates (front ++ text) = (front ++ piece) :: pieces := by
  induction front with
  | nil => exact hsplit
  | cons c front ih =>
    rw [List.cons_append, splitOn_cons_of_not_separates (hfront c List.mem_cons_self)
      (ih fun d hd => hfront d (List.mem_cons_of_mem c hd))]
    rfl

theorem splitOn_of_forall {separates : Char → Bool} {text : List Char}
    (htext : ∀ c ∈ text, separates c = false) : splitOn separates text = [text] := by
  have h := @splitOn_append separates text [] [] [] htext rfl
  simpa using h

/-- Splitting undoes joining. -/
theorem splitOn_intercalate_of_separates {separates : Char → Bool} {mark : Char}
    (hmark : separates mark = true) {pieces : List (List Char)} (hne : pieces ≠ [])
    (hplain : ∀ piece ∈ pieces, ∀ c ∈ piece, separates c = false) :
    splitOn separates ([mark].intercalate pieces) = pieces := by
  induction pieces with
  | nil => exact absurd rfl hne
  | cons piece pieces ih =>
    have hpiece := hplain piece List.mem_cons_self
    cases pieces with
    | nil => simpa [List.intercalate] using splitOn_of_forall hpiece
    | cons next pieces =>
      have hrest := ih (by simp) fun p hp => hplain p (List.mem_cons_of_mem piece hp)
      have hnext : splitOn separates (mark :: [mark].intercalate (next :: pieces)) =
          [] :: next :: pieces := by
        rw [splitOn_cons_of_separates hmark, hrest]
      have h := splitOn_append hpiece hnext
      simpa [List.intercalate] using h

theorem splitOn_intercalate {mark : Char} {pieces : List (List Char)} (hne : pieces ≠ [])
    (hpieces : ∀ piece ∈ pieces, mark ∉ piece) :
    splitOn (· == mark) ([mark].intercalate pieces) = pieces := by
  refine @splitOn_intercalate_of_separates (· == mark) _ (beq_self_eq_true mark) _ hne
    fun piece hpiece c hc => ?_
  rw [beq_eq_false_iff_ne]
  rintro rfl
  exact hpieces piece hpiece hc

theorem mem_intercalate {c : Char} {separator : List Char} {pieces : List (List Char)}
    (hc : c ∈ separator.intercalate pieces) : c ∈ separator ∨ ∃ piece ∈ pieces, c ∈ piece := by
  induction pieces with
  | nil => cases hc
  | cons piece pieces ih =>
    cases pieces with
    | nil => exact .inr ⟨piece, List.mem_cons_self, by simpa [List.intercalate] using hc⟩
    | cons next pieces =>
      have hparts : separator.intercalate (piece :: next :: pieces) =
          piece ++ (separator ++ separator.intercalate (next :: pieces)) := by
        simp [List.intercalate]
      rw [hparts, List.mem_append, List.mem_append] at hc
      obtain hpiece | hseparator | hrest := hc
      · exact .inr ⟨piece, List.mem_cons_self, hpiece⟩
      · exact .inl hseparator
      · exact (ih hrest).imp_right fun ⟨other, hother, hmem⟩ =>
          ⟨other, List.mem_cons_of_mem piece hother, hmem⟩

theorem cons_intercalate {mark : Char} {pieces : List (List Char)} (hne : pieces ≠ []) :
    mark :: [mark].intercalate pieces = pieces.flatMap (mark :: ·) := by
  induction pieces with
  | nil => exact absurd rfl hne
  | cons piece pieces ih =>
    cases pieces with
    | nil => simp [List.intercalate]
    | cons next pieces =>
      rw [List.flatMap_cons, ← ih (by simp)]
      simp [List.intercalate]

theorem isInfix_intercalate {separator piece : List Char} {pieces : List (List Char)}
    (hpiece : piece ∈ pieces) : piece <:+: separator.intercalate pieces := by
  induction pieces with
  | nil => cases hpiece
  | cons first rest ih =>
    cases rest with
    | nil =>
      obtain rfl := List.mem_singleton.mp hpiece
      exact ⟨[], [], by simp [List.intercalate]⟩
    | cons next rest =>
      have hcons : separator.intercalate (first :: next :: rest) =
          first ++ (separator ++ separator.intercalate (next :: rest)) := by
        simp [List.intercalate]
      rw [hcons]
      obtain rfl | hrest := List.mem_cons.mp hpiece
      · exact (List.prefix_append _ _).isInfix
      · exact (ih hrest).trans ((List.suffix_append _ _).trans (List.suffix_append _ _)).isInfix

/-- What holds no mark stays behind the last piece. -/
theorem exists_splitOn_append {separates : Char → Bool} {back : List Char} (text : List Char)
    (hback : ∀ c ∈ back, separates c = false) :
    ∃ pieces last, splitOn separates text = pieces ++ [last] ∧
      splitOn separates (text ++ back) = pieces ++ [last ++ back] := by
  induction text with
  | nil => exact ⟨[], [], rfl, by simpa using splitOn_of_forall hback⟩
  | cons c text ih =>
    obtain ⟨pieces, last, htext, happend⟩ := ih
    cases hc : separates c with
    | true =>
      refine ⟨[] :: pieces, last, ?_, ?_⟩
      · rw [splitOn_cons_of_separates hc, htext]
        rfl
      · rw [List.cons_append, splitOn_cons_of_separates hc, happend]
        rfl
    | false =>
      cases pieces with
      | nil =>
        exact ⟨[], c :: last, splitOn_cons_of_not_separates hc htext,
          splitOn_cons_of_not_separates hc happend⟩
      | cons piece pieces =>
        exact ⟨(c :: piece) :: pieces, last, splitOn_cons_of_not_separates hc htext,
          splitOn_cons_of_not_separates hc happend⟩

theorem mem_of_mem_splitOn {separates : Char → Bool} {c : Char} {piece text : List Char}
    (hpiece : piece ∈ splitOn separates text) (hc : c ∈ piece) : c ∈ text := by
  induction text generalizing piece with
  | nil =>
    obtain rfl := List.mem_singleton.mp hpiece
    exact hc
  | cons d rest ih =>
    rw [splitOn] at hpiece
    split at hpiece
    · obtain rfl | hrest := List.mem_cons.mp hpiece
      · cases hc
      · exact List.mem_cons_of_mem d (ih hrest hc)
    · split at hpiece
      · obtain rfl := List.mem_singleton.mp hpiece
        obtain rfl := List.mem_singleton.mp hc
        exact List.mem_cons_self
      · rename_i first pieces hsplit
        obtain rfl | hrest := List.mem_cons.mp hpiece
        · obtain rfl | hfirst := List.mem_cons.mp hc
          · exact List.mem_cons_self
          · exact List.mem_cons_of_mem d (ih (hsplit ▸ List.mem_cons_self) hfirst)
        · exact List.mem_cons_of_mem d (ih (hsplit ▸ List.mem_cons_of_mem first hrest) hc)

/-- No piece holds a mark. -/
theorem not_separates_of_mem_splitOn {separates : Char → Bool} {c : Char} {piece text : List Char}
    (hpiece : piece ∈ splitOn separates text) (hc : c ∈ piece) : separates c = false := by
  induction text generalizing piece with
  | nil =>
    obtain rfl := List.mem_singleton.mp hpiece
    cases hc
  | cons d rest ih =>
    obtain ⟨first, others, hrest⟩ := exists_splitOn_eq_cons separates rest
    rw [hrest] at ih
    cases hd : separates d with
    | true =>
      rw [splitOn_cons_of_separates hd, hrest] at hpiece
      obtain rfl | hother := List.mem_cons.mp hpiece
      · cases hc
      · exact ih hother hc
    | false =>
      rw [splitOn_cons_of_not_separates hd hrest] at hpiece
      obtain rfl | hother := List.mem_cons.mp hpiece
      · obtain rfl | hfirst := List.mem_cons.mp hc
        · exact hd
        · exact ih List.mem_cons_self hfirst
      · exact ih (List.mem_cons_of_mem first hother) hc

/-- Blanks at the ends of a text only reach the ends of its pieces. -/
theorem map_trim_splitOn_trim {separates : Char → Bool}
    (hblank : ∀ c, isBlank c = true → separates c = false) (text : List Char) :
    (splitOn separates (trim text)).map trim = (splitOn separates text).map trim := by
  obtain ⟨front, back, htext, hfront, hback⟩ := exists_eq_append_trim text
  have hplain : ∀ {blanks : List Char}, allBlank blanks = true →
      ∀ c ∈ blanks, separates c = false :=
    fun hblanks c hc => hblank c (allBlank_iff.mp hblanks c hc)
  obtain ⟨pieces, last, hsplit, happend⟩ :=
    exists_splitOn_append (front ++ trim text) (hplain hback)
  rw [← htext] at happend
  have hright : (splitOn separates text).map trim =
      (splitOn separates (front ++ trim text)).map trim := by
    rw [happend, hsplit, List.map_append, List.map_append, List.map_singleton, List.map_singleton,
      trim_append_of_allBlank_right hback]
  obtain ⟨piece, others, hinner⟩ := exists_splitOn_eq_cons separates (trim text)
  rw [hright, splitOn_append (hplain hfront) hinner, hinner, List.map_cons, List.map_cons,
    trim_append_of_allBlank_left hfront]

theorem isSome_dropStart?_iff {start text : List Char} :
    (dropStart? start text).isSome = true ↔ start <+: text := by
  fun_induction dropStart? start text with
  | case1 => simp
  | case2 => simp
  | case3 s start text ih => simp [ih]
  | case4 s start c text hne => simp [hne]

/-- What does not hold a mark stands before the mark if it begins there. -/
theorem prefix_of_prefix_append_cons {needle front back : List Char} {mark : Char}
    (hmark : mark ∉ needle) (hbegins : needle <+: front ++ mark :: back) : needle <+: front := by
  have hfront : front <+: front ++ mark :: back := List.prefix_append front (mark :: back)
  by_cases hle : needle.length ≤ front.length
  · exact List.prefix_of_prefix_length_le hbegins hfront hle
  · have hmarked : front ++ [mark] <+: front ++ mark :: back := by simp
    have hshort : (front ++ [mark]).length ≤ needle.length := by
      rw [List.length_append, List.length_singleton]
      omega
    have hother := List.prefix_of_prefix_length_le hmarked hbegins hshort
    exact absurd (hother.subset (by simp)) hmark

/-- A search fails exactly on a text in which there is nothing to be found. -/
theorem cut?_eq_none_iff {needle text : List Char} :
    cut? needle text = none ↔ ¬ needle <:+: text := by
  induction text with
  | nil => cases needle <;> simp [cut?]
  | cons c rest ih =>
    rw [cut?, List.infix_cons_iff, ← isSome_dropStart?_iff]
    cases dropStart? needle (c :: rest) with
    | some after => simp
    | none => simp [ih]

theorem eq_append_of_cutAt? {separates : Char → Bool} {text before after : List Char}
    (hcut : cutAt? separates text = some (before, after)) :
    ∃ mark, separates mark = true ∧ text = before ++ mark :: after := by
  induction text generalizing before with
  | nil => cases hcut
  | cons c rest ih =>
    unfold cutAt? at hcut
    split at hcut
    · rename_i hmark
      cases hcut
      exact ⟨c, hmark, rfl⟩
    · obtain ⟨⟨front, back⟩, hrest, hpair⟩ := Option.map_eq_some_iff.mp hcut
      cases hpair
      obtain ⟨mark, hmark, rfl⟩ := ih hrest
      exact ⟨mark, hmark, rfl⟩

/-- A text is cut at the first mark in it. -/
theorem cutAt?_append_mark {mark : Char} {front : List Char} (hfront : mark ∉ front)
    (rest : List Char) : cutAt? (· == mark) (front ++ mark :: rest) = some (front, rest) := by
  induction front with
  | nil => simp [cutAt?]
  | cons c front ih =>
    rw [List.mem_cons, not_or] at hfront
    rw [List.cons_append, cutAt?, if_neg (by simpa using Ne.symm hfront.1), ih hfront.2]
    rfl

theorem cutAt?_of_not_mem {mark : Char} {text : List Char} (hmark : mark ∉ text) :
    cutAt? (· == mark) text = none := by
  cases hcut : cutAt? (· == mark) text with
  | none => rfl
  | some pair =>
    obtain ⟨found, hfound, htext⟩ := eq_append_of_cutAt? hcut
    rw [beq_iff_eq] at hfound
    exact absurd (by simp [htext, hfound]) hmark

@[simp]
theorem dropStart?_cons_cons {s c : Char} {start text : List Char} :
    dropStart? (s :: start) (c :: text) = if s = c then dropStart? start text else none := by
  rw [dropStart?]

@[simp]
theorem dropStart?_nil {text : List Char} : dropStart? [] text = some text := by
  rw [dropStart?]

theorem dropEnd?_singleton_concat {mark c : Char} {text : List Char} :
    dropEnd? [mark] (text ++ [c]) = if mark = c then some text else none := by
  simp only [dropEnd?, List.reverse_singleton, List.reverse_append, List.singleton_append,
    dropStart?_cons_cons]
  split <;> simp

end DesignCompiler.Text
