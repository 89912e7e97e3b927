import DesignCompiler.Proofs.Text.Splitting

/-!
# Matches and last occurrences

A scan for matches is told by what it passes over and what it finds: text without a match adds
nothing, and after a match the scan goes on behind it. A cut is found exactly where the first, or
the last, occurrence stands.
-/

namespace DesignCompiler.Text

/-! ## Matches -/

section Matches

variable {α : Type} {found? : Option Char → List Char → Option (α × Nat)}

/-- A search that does not look back finds the same after any character. -/
theorem matchesFrom_previous (hfound : ∀ p q text, found? p text = found? q text) (skip : Nat)
    (p q : Option Char) (text : List Char) :
    matchesFrom found? skip p text = matchesFrom found? skip q text := by
  cases text with
  | nil => rfl
  | cons c rest =>
    cases skip with
    | succ skip => rfl
    | zero => rw [matchesFrom, matchesFrom, hfound p q]

/-- Text in which no match begins adds none. -/
theorem allMatches_append_of_none (hfound : ∀ p q text, found? p text = found? q text)
    {front rest : List Char}
    (hnone : ∀ passed c back, front = passed ++ c :: back →
      found? none (c :: back ++ rest) = none) :
    allMatches found? (front ++ rest) = allMatches found? rest := by
  induction front with
  | nil => rfl
  | cons c front ih =>
    have hhere := hnone [] c front rfl
    unfold allMatches
    rw [List.cons_append, matchesFrom, ← List.cons_append, hhere]
    dsimp only
    rw [matchesFrom_previous hfound 0 _ none]
    apply ih
    intro passed d back hback
    exact hnone (c :: passed) d back (by rw [hback, List.cons_append])

private theorem matchesFrom_skip (hfound : ∀ p q text, found? p text = found? q text)
    (matched rest : List Char) (previous : Option Char) :
    matchesFrom found? matched.length previous (matched ++ rest) =
      matchesFrom found? 0 none rest := by
  induction matched generalizing previous with
  | nil => exact matchesFrom_previous hfound 0 previous none rest
  | cons c matched ih => exact ih (some c)

/-- After a match the scan goes on behind it. -/
theorem allMatches_append_of_some (hfound : ∀ p q text, found? p text = found? q text)
    {matched rest : List Char} {value : α} (hne : matched ≠ [])
    (hmatch : found? none (matched ++ rest) = some (value, matched.length)) :
    allMatches found? (matched ++ rest) = value :: allMatches found? rest := by
  obtain ⟨c, others, rfl⟩ := List.exists_cons_of_ne_nil hne
  unfold allMatches
  rw [List.cons_append] at hmatch ⊢
  rw [matchesFrom, hmatch]
  dsimp only
  rw [List.length_cons, Nat.add_sub_cancel, matchesFrom_skip hfound]

private theorem exists_of_mem_matchesFrom {value : α} {skip : Nat} {previous : Option Char}
    {text : List Char} (hvalue : value ∈ matchesFrom found? skip previous text) :
    ∃ front back before length, text = front ++ back ∧
      found? before back = some (value, length) := by
  induction text generalizing skip previous with
  | nil => cases hvalue
  | cons c rest ih =>
    have hlater : ∀ {skip previous}, value ∈ matchesFrom found? skip previous rest →
        ∃ front back before length, c :: rest = front ++ back ∧
          found? before back = some (value, length) := by
      intro skip previous hrest
      obtain ⟨front, back, before, length, rfl, hmatch⟩ := ih hrest
      exact ⟨c :: front, back, before, length, rfl, hmatch⟩
    unfold matchesFrom at hvalue
    split at hvalue
    · exact hlater hvalue
    · split at hvalue
      · rename_i length hmatch
        obtain rfl | hrest := List.mem_cons.mp hvalue
        · exact ⟨[], c :: rest, previous, length, rfl, hmatch⟩
        · exact hlater hrest
      · exact hlater hvalue

/-- What a scan finds is found somewhere in the text. -/
theorem exists_of_mem_allMatches {value : α} {text : List Char}
    (hvalue : value ∈ allMatches found? text) :
    ∃ front back before length, text = front ++ back ∧ found? before back = some (value, length) :=
  exists_of_mem_matchesFrom hvalue

private theorem firstMatchFrom?_previous (hfound : ∀ p q text, found? p text = found? q text)
    (p q : Option Char) (text : List Char) :
    firstMatchFrom? found? p text = firstMatchFrom? found? q text := by
  cases text with
  | nil => rfl
  | cons c rest => rw [firstMatchFrom?, firstMatchFrom?, hfound p q]

/-- A match at the start of a text is the first one. -/
theorem firstMatch?_of_some {text : List Char} {value : α} {length : Nat} (hne : text ≠ [])
    (hmatch : found? none text = some (value, length)) :
    firstMatch? found? text = some ([], value, text.drop length) := by
  obtain ⟨c, rest, rfl⟩ := List.exists_cons_of_ne_nil hne
  rw [firstMatch?, firstMatchFrom?, hmatch]

/-- Text in which no match begins is passed over. -/
theorem firstMatch?_append_of_none (hfound : ∀ p q text, found? p text = found? q text)
    {front rest : List Char}
    (hnone : ∀ passed c back, front = passed ++ c :: back →
      found? none (c :: back ++ rest) = none) :
    firstMatch? found? (front ++ rest) =
      (firstMatch? found? rest).map fun (before, value, after) =>
        (front ++ before, value, after) := by
  induction front with
  | nil => simp
  | cons c front ih =>
    have hrest := ih fun passed d back hback => hnone (c :: passed) d back (by rw [hback]; rfl)
    unfold firstMatch? at hrest ⊢
    rw [List.cons_append, firstMatchFrom?, ← List.cons_append, hnone [] c front rfl]
    dsimp only
    rw [firstMatchFrom?_previous hfound _ none, hrest, Option.map_map]
    rfl

/-- There is no match in a text where none begins at any place. -/
theorem firstMatch?_eq_none (hfound : ∀ p q text, found? p text = found? q text)
    {text : List Char} (hnone : ∀ back, back <:+ text → found? none back = none) :
    firstMatch? found? text = none := by
  have hpassed := @firstMatch?_append_of_none _ found? hfound text [] fun passed c back htext => by
    rw [List.append_nil]
    exact hnone _ ⟨passed, htext.symm⟩
  rw [List.append_nil] at hpassed
  rw [hpassed]
  rfl

end Matches

/-! ## Cuts -/

theorem dropStart?_append (start text : List Char) :
    dropStart? start (start ++ text) = some text := by
  induction start with
  | nil => exact dropStart?_nil
  | cons c start ih => rw [List.cons_append, dropStart?_cons_cons, if_pos rfl, ih]

private theorem not_prefix_of_dropStart?_eq_none {needle text : List Char}
    (hnone : dropStart? needle text = none) : ¬ needle <+: text := by
  rw [← isSome_dropStart?_iff, hnone]
  simp

/-- A cut is made at the first occurrence: none begins before it. -/
theorem cut?_eq_some_iff {needle text before after : List Char} (hne : needle ≠ []) :
    cut? needle text = some (before, after) ↔
      text = before ++ needle ++ after ∧ ¬ needle <:+: before ++ needle.dropLast := by
  have hlength : needle.dropLast.length < needle.length := by
    have := List.length_pos_of_ne_nil hne
    rw [List.length_dropLast]
    omega
  constructor
  · intro hcut
    refine ⟨eq_append_of_cut? hcut, ?_⟩
    induction text generalizing before after with
    | nil =>
      rw [cut?, if_neg (by simpa using hne)] at hcut
      cases hcut
    | cons c rest ih =>
      rw [cut?] at hcut
      split at hcut
      · cases hcut
        intro hinfix
        have := hinfix.length_le
        rw [List.nil_append] at this
        omega
      · rename_i hnone
        obtain ⟨⟨front, back⟩, hrest, hpair⟩ := Option.map_eq_some_iff.mp hcut
        cases hpair
        rw [List.cons_append, List.infix_cons_iff, not_or]
        refine ⟨fun hprefix => not_prefix_of_dropStart?_eq_none hnone ?_, ih hrest⟩
        -- What stands before the end of the occurrence is a part of the text.
        apply hprefix.trans
        rw [eq_append_of_cut? hrest, List.cons_prefix_cons]
        refine ⟨rfl, ?_⟩
        rw [List.append_assoc, List.prefix_append_right_inj]
        exact (List.dropLast_prefix needle).trans (List.prefix_append needle after)
  · rintro ⟨rfl, hfirst⟩
    induction before with
    | nil =>
      obtain ⟨c, others, rfl⟩ := List.exists_cons_of_ne_nil hne
      rw [List.nil_append, List.cons_append, cut?, ← List.cons_append, dropStart?_append]
    | cons c before ih =>
      rw [List.cons_append, List.infix_cons_iff, not_or] at hfirst
      have hnone : dropStart? needle (c :: (before ++ needle ++ after)) = none := by
        rw [← Option.not_isSome_iff_eq_none, isSome_dropStart?_iff]
        intro hprefix
        apply hfirst.1
        have hother : c :: (before ++ needle.dropLast) <+: c :: (before ++ needle ++ after) := by
          rw [List.cons_prefix_cons, List.append_assoc, List.prefix_append_right_inj]
          exact ⟨rfl, (List.dropLast_prefix needle).trans (List.prefix_append needle after)⟩
        apply List.prefix_of_prefix_length_le hprefix hother
        simp only [List.length_cons, List.length_append, List.length_dropLast]
        omega
      rw [List.cons_append, List.cons_append, cut?, hnone]
      simp only [ih hfirst.2, Option.map_some]

/-- A mark whose last character is found once in it is cut out wherever it does not stand before. -/
theorem cut?_append {core front : List Char} {last : Char} (hlast : last ∉ core)
    (hfront : ¬ core ++ [last] <:+: front) (after : List Char) :
    cut? (core ++ [last]) (front ++ (core ++ [last]) ++ after) = some (front, after) := by
  refine (cut?_eq_some_iff (by simp)).mpr ⟨rfl, ?_⟩
  rw [List.dropLast_concat]
  rintro ⟨passed, rest, heq⟩
  rw [← List.append_assoc, List.append_assoc _ [last], List.singleton_append] at heq
  obtain ⟨between, hfrontEq, hrest⟩ | ⟨between, -, hcore⟩ := List.append_eq_append_iff.mp heq
  · cases between with
    | nil =>
      rw [List.nil_append] at hrest
      exact hlast (hrest ▸ List.mem_cons_self)
    | cons c between =>
      obtain rfl : last = c := (List.cons.inj hrest).1
      exact hfront ⟨passed, between, by simp [hfrontEq]⟩
  · exact hlast (by simp [hcore])

/-- A character that a mark does not hold is no part of it where it is found. -/
theorem cut?_concat {needle : List Char} {c : Char} (hc : c ∉ needle) (hne : needle ≠ [])
    (text : List Char) :
    cut? needle (text ++ [c]) =
      (cut? needle text).map fun (before, after) => (before, after ++ [c]) := by
  cases hcut : cut? needle text with
  | none =>
    rw [Option.map_none, cut?_eq_none_iff, List.infix_concat_iff, not_or]
    refine ⟨fun hsuffix => hc ?_, cut?_eq_none_iff.mp hcut⟩
    have hlast := hsuffix.getLast hne
    rw [List.getLast_concat] at hlast
    exact hlast ▸ List.getLast_mem hne
  | some pair =>
    obtain ⟨before, after⟩ := pair
    obtain ⟨rfl, hfirst⟩ := (cut?_eq_some_iff hne).mp hcut
    exact (cut?_eq_some_iff hne).mpr ⟨List.append_assoc .., hfirst⟩

/-- A cut from the end is made at the last occurrence: none ends behind it. -/
theorem cutLast?_eq_some_iff {needle text before after : List Char} (hne : needle ≠ []) :
    cutLast? needle text = some (before, after) ↔
      text = before ++ needle ++ after ∧ ¬ needle <:+: needle.tail ++ after := by
  have hreverse : ¬ needle.reverse <:+: after.reverse ++ needle.reverse.dropLast ↔
      ¬ needle <:+: needle.tail ++ after := by
    rw [List.dropLast_reverse, ← List.reverse_append, List.reverse_infix]
  have hreversed : needle.reverse ≠ [] := by simpa using hne
  rw [← hreverse]
  unfold cutLast?
  constructor
  · intro hcut
    obtain ⟨⟨back, front⟩, hfound, hpair⟩ := Option.map_eq_some_iff.mp hcut
    cases hpair
    obtain ⟨heq, hfirst⟩ := (cut?_eq_some_iff hreversed).mp hfound
    refine ⟨?_, by rwa [List.reverse_reverse]⟩
    rw [← List.reverse_reverse text, heq]
    simp
  · rintro ⟨rfl, hfirst⟩
    have hfound : cut? needle.reverse (before ++ needle ++ after).reverse =
        some (after.reverse, before.reverse) := by
      apply (cut?_eq_some_iff hreversed).mpr
      refine ⟨?_, hfirst⟩
      rw [List.reverse_append, List.reverse_append, List.append_assoc]
    simp only [hfound, Option.map_some, List.reverse_reverse]

/-! ## Lines -/

/-- A mark cuts the pieces in two. -/
theorem splitOn_append_cons {separates : Char → Bool} {mark : Char} (hmark : separates mark = true)
    (front back : List Char) :
    splitOn separates (front ++ mark :: back) =
      splitOn separates front ++ splitOn separates back := by
  induction front with
  | nil => rw [List.nil_append, splitOn_cons_of_separates hmark]; rfl
  | cons c front ih =>
    obtain ⟨piece, pieces, hsplit⟩ := exists_splitOn_eq_cons separates front
    rw [List.cons_append]
    by_cases hc : separates c = true
    · rw [splitOn_cons_of_separates hc, splitOn_cons_of_separates hc, ih, List.cons_append]
    · rw [Bool.not_eq_true] at hc
      rw [splitOn_cons_of_not_separates hc hsplit]
      rw [hsplit, List.cons_append] at ih
      rw [splitOn_cons_of_not_separates hc ih, List.cons_append]

/-- Joining undoes splitting. -/
theorem eq_append_flatMap_of_splitOn {mark : Char} {text first : List Char}
    {pieces : List (List Char)} (hsplit : splitOn (· == mark) text = first :: pieces) :
    text = first ++ pieces.flatMap (mark :: ·) := by
  induction text generalizing first pieces with
  | nil => cases hsplit; rfl
  | cons c rest ih =>
    obtain ⟨piece, others, hrest⟩ := exists_splitOn_eq_cons (· == mark) rest
    by_cases hc : c = mark
    · subst hc
      rw [splitOn_cons_of_separates (by simp), hrest] at hsplit
      cases hsplit
      rw [List.flatMap_cons, List.nil_append, List.cons_append, ← ih hrest]
    · rw [splitOn_cons_of_not_separates (by simpa using hc) hrest] at hsplit
      cases hsplit
      rw [List.cons_append, ← ih hrest]

/-- No piece holds the mark. -/
theorem not_mem_of_mem_splitOn {mark : Char} {text piece : List Char}
    (hpiece : piece ∈ splitOn (· == mark) text) : mark ∉ piece := by
  intro hmark
  simpa using not_separates_of_mem_splitOn hpiece hmark

/-- What holds no mark goes to the first piece. -/
theorem splitOn_append_of_not_mem {mark : Char} {front text piece : List Char}
    {pieces : List (List Char)} (hfront : mark ∉ front)
    (hsplit : splitOn (· == mark) text = piece :: pieces) :
    splitOn (· == mark) (front ++ text) = (front ++ piece) :: pieces := by
  refine splitOn_append (fun c hc => ?_) hsplit
  rw [beq_eq_false_iff_ne]
  rintro rfl
  exact hfront hc

/-- The first piece goes up to the first mark. -/
theorem splitOn_append_mark {mark : Char} {front : List Char} (hfront : mark ∉ front)
    (text : List Char) :
    splitOn (· == mark) (front ++ mark :: text) = front :: splitOn (· == mark) text := by
  have hmark : splitOn (· == mark) (mark :: text) = [] :: splitOn (· == mark) text :=
    splitOn_cons_of_separates (by simp)
  rw [splitOn_append_of_not_mem hfront hmark, List.append_nil]

/-- Splitting undoes joining. -/
theorem splitOn_append_flatMap {mark : Char} {first : List Char} {pieces : List (List Char)}
    (hfirst : mark ∉ first) (hpieces : ∀ piece ∈ pieces, mark ∉ piece) :
    splitOn (· == mark) (first ++ pieces.flatMap (mark :: ·)) = first :: pieces := by
  induction pieces generalizing first with
  | nil =>
    have hnil : splitOn (· == mark) [] = [[]] := rfl
    simpa using splitOn_append_of_not_mem hfirst hnil
  | cons piece pieces ih =>
    rw [List.forall_mem_cons] at hpieces
    rw [List.flatMap_cons, List.cons_append, splitOn_append_mark hfirst, ih hpieces.1 hpieces.2]

end DesignCompiler.Text
