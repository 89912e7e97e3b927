import DesignCompiler.Proofs.Stylesheet.Comments
import DesignCompiler.Proofs.Stylesheet.Flattening

/-!
# Reading character by character

Flattening as a run over the characters of the code: a reader keeps the place it stands at on its
line, the segment begun there and the machine, which it feeds wherever a segment or a line ends.
-/

namespace DesignCompiler.Stylesheet

open Text

/-! ## Places -/

/-- Where a scanner stands: the quote it is in and the number of open parentheses. -/
structure Place where
  quote : Quote := .outside
  depth : Nat := 0
  deriving DecidableEq

namespace Place

/-- The place after a character. -/
def after (place : Place) (c : Char) : Place where
  quote := place.quote.after c
  depth := if place.quote = .outside then parenthesesAfter place.depth c else place.depth

/-- The place after a text. -/
def past (place : Place) (text : List Char) : Place := text.foldl after place

/-- A place with the same quote and at most as many open parentheses. -/
instance : LE Place := ⟨fun place other => place.quote = other.quote ∧ place.depth ≤ other.depth⟩

theorem le_refl (place : Place) : place ≤ place := ⟨rfl, Nat.le_refl _⟩

/-- Nothing is shallower than a place outside quotes and parentheses. -/
theorem eq_of_le_start {place : Place} (h : place ≤ {}) : place = {} := by
  obtain ⟨quote, depth⟩ := place
  obtain rfl : quote = .outside := h.1
  obtain rfl : depth = 0 := Nat.le_zero.mp h.2
  rfl

/-- Only quotation marks open and close quotes. -/
theorem quote_after {c : Char} (hplain : c ∉ ['\'', '"']) (place : Place) :
    (place.after c).quote = place.quote := by
  by_contra hchange
  exact hplain (mem_of_after_ne hchange)

theorem after_le_after {place other : Place} (h : place ≤ other) (c : Char) :
    place.after c ≤ other.after c := by
  obtain ⟨hquote, hdepth⟩ := h
  refine ⟨congrArg (Quote.after · c) hquote, ?_⟩
  simp only [after, hquote, parenthesesAfter]
  split
  · split
    · omega
    · split <;> omega
  · exact hdepth

theorem past_append (place : Place) (front back : List Char) :
    place.past (front ++ back) = (place.past front).past back := List.foldl_append

theorem past_le_past {place other : Place} (h : place ≤ other) (text : List Char) :
    place.past text ≤ other.past text := by
  induction text generalizing place other with
  | nil => exact h
  | cons c text ih => exact ih (after_le_after h c)

theorem quote_past (place : Place) (text : List Char) :
    (place.past text).quote = text.foldl Quote.after place.quote := by
  induction text generalizing place with
  | nil => rfl
  | cons c text ih => exact ih (place.after c)

theorem past_of_passes {quote quote' : Quote} {depth depth' : Nat} {text : List Char}
    (h : Passes quote depth text quote' depth') : past ⟨quote, depth⟩ text = ⟨quote', depth'⟩ := by
  induction h with
  | nil => rfl
  | cons _ _ ih => exact ih

theorem past_of_allBlank (place : Place) {blanks : List Char} (hblanks : allBlank blanks = true) :
    place.past blanks = place :=
  past_of_passes (passes_of_allBlank hblanks)

theorem after_of_isBlank (place : Place) {c : Char} (hblank : isBlank c = true) :
    place.after c = place :=
  @past_of_allBlank place [c] (by simpa [allBlank] using hblank)

theorem past_trim (place : Place) (text : List Char) :
    place.past (trim text) = place.past text := by
  obtain ⟨front, back, htext, hfront, hback⟩ := exists_eq_append_trim text
  conv_rhs =>
    rw [htext, past_append, past_append, past_of_allBlank _ hfront, past_of_allBlank _ hback]

/-! ### Values that go on -/

/-- A value goes on over a text: no `;` in it ends the value. -/
def GoesOn (place : Place) (text : List Char) : Prop :=
  terminatedFrom place.quote place.depth text = none

variable {place other : Place}

theorem goesOn_nil (place : Place) : place.GoesOn [] := rfl

theorem goesOn_cons_iff {c : Char} {text : List Char} :
    place.GoesOn (c :: text) ↔
      (place.quote = .outside → place.depth = 0 → c ≠ ';') ∧ (place.after c).GoesOn text := by
  obtain ⟨quote, depth⟩ := place
  by_cases hquote : quote = .outside
  · by_cases hend : c = ';' ∧ depth = 0
    · obtain ⟨rfl, rfl⟩ := hend
      simp [GoesOn, terminatedFrom, hquote]
    · have hgoes : depth = 0 → c ≠ ';' := fun hdepth hc => hend ⟨hc, hdepth⟩
      simp [GoesOn, terminatedFrom, hquote, hend, after]
      exact fun _ => hgoes
  · simp [GoesOn, terminatedFrom, hquote, after]

theorem goesOn_append_iff {front back : List Char} :
    place.GoesOn (front ++ back) ↔ place.GoesOn front ∧ (place.past front).GoesOn back := by
  induction front generalizing place with
  | nil => simp [goesOn_nil, past]
  | cons c front ih =>
    rw [List.cons_append, goesOn_cons_iff, goesOn_cons_iff, ih, and_assoc]
    rfl

/-- Deeper inside parentheses a value goes on all the more. -/
theorem GoesOn.of_le {text : List Char} (h : place.GoesOn text) (hle : place ≤ other) :
    other.GoesOn text := by
  induction text generalizing place other with
  | nil => exact goesOn_nil other
  | cons c text ih =>
    rw [goesOn_cons_iff] at h ⊢
    refine ⟨fun hquote hdepth => ?_, ih h.2 (after_le_after hle c)⟩
    have hzero : place.depth ≤ other.depth := hle.2
    exact h.1 (hle.1.trans hquote) (by omega)

/-- A value goes on over a character that a place goes on over which is at most as deep. -/
theorem GoesOn.concat {start : Place} {text : List Char} {c : Char} (h : start.GoesOn text)
    (hle : place ≤ start.past text) (hc : place.GoesOn [c]) :
    start.GoesOn (text ++ [c]) ∧ place.after c ≤ start.past (text ++ [c]) := by
  refine ⟨goesOn_append_iff.mpr ⟨h, hc.of_le hle⟩, ?_⟩
  rw [past_append]
  exact after_le_after hle c

theorem goesOn_of_passes {place' : Place} {text : List Char}
    (h : Passes place.quote place.depth text place'.quote place'.depth) : place.GoesOn text := by
  have hend := terminatedFrom_of_passes h []
  rwa [List.append_nil] at hend

theorem goesOn_of_allBlank (place : Place) {blanks : List Char} (hblanks : allBlank blanks = true) :
    place.GoesOn blanks :=
  goesOn_of_passes (passes_of_allBlank hblanks)

theorem goesOn_trim_iff {text : List Char} : place.GoesOn (trim text) ↔ place.GoesOn text := by
  obtain ⟨front, back, htext, hfront, hback⟩ := exists_eq_append_trim text
  conv_rhs => rw [htext, goesOn_append_iff, goesOn_append_iff, past_of_allBlank _ hfront]
  simp only [goesOn_of_allBlank _ hfront, goesOn_of_allBlank _ hback, true_and, and_true]

/-- What is put to a text after a blank may be trimmed before. -/
theorem past_joined_trim (place : Place) (front text : List Char) :
    place.past (front ++ ' ' :: trim text) = place.past (front ++ ' ' :: text) := by
  rw [past_append, past_append]
  exact past_trim _ text

theorem goesOn_joined_trim_iff {front text : List Char} :
    place.GoesOn (front ++ ' ' :: trim text) ↔ place.GoesOn (front ++ ' ' :: text) := by
  rw [goesOn_append_iff, goesOn_append_iff, goesOn_cons_iff, goesOn_cons_iff, goesOn_trim_iff]

end Place

/-! ## The reader -/

/-- Take in a text unless it is blank. -/
def Flattener.feedText (state : Flattener) (text : List Char) : Flattener :=
  if allBlank text then state else state.feed (trim text)

theorem Flattener.feedText_of_allBlank {state : Flattener} {text : List Char}
    (hblank : allBlank text = true) : state.feedText text = state := if_pos hblank

theorem Flattener.feedText_of_not_allBlank {state : Flattener} {text : List Char}
    (hblank : ¬ allBlank text = true) : state.feedText text = state.feed (trim text) :=
  if_neg hblank

theorem Flattener.feedText_append_of_allBlank {state : Flattener} {blanks : List Char}
    (hblanks : allBlank blanks = true) (text : List Char) :
    state.feedText (blanks ++ text) = state.feedText text := by
  rw [feedText, feedText, allBlank_append, hblanks, Bool.true_and,
    trim_append_of_allBlank_left hblanks]

/-- What flattening knows in the middle of a line: the machine, the place on the line and the
    segment begun. -/
structure Reader where
  machine : Flattener := {}
  place : Place := {}
  begun : List Char := []

namespace Reader

/-- The machine at the end of a line. -/
def endLine (reader : Reader) : Flattener := reader.machine.feedText reader.begun

/-- Whether a character ends the segment begun. A brace right after `#` does not. -/
def Ends (reader : Reader) (c : Char) : Prop :=
  c ∈ segmentMarks ∧ reader.place = {} ∧ (c = '{' → (trimEnd reader.begun).getLast? ≠ some '#')

instance (reader : Reader) (c : Char) : Decidable (reader.Ends c) :=
  inferInstanceAs (Decidable (_ ∧ _ ∧ _))

/-- Read a character. A closing brace is a segment of its own. -/
def step (reader : Reader) (c : Char) : Reader :=
  if c = '\n' then { machine := reader.endLine }
  else if reader.Ends c then
    if c = '}' then { machine := reader.endLine.feed ['}'] }
    else { machine := reader.machine.feedText (reader.begun ++ [c]) }
  else { reader with place := reader.place.after c, begun := reader.begun ++ [c] }

/-- Read a text. -/
def read (reader : Reader) (text : List Char) : Reader := text.foldl step reader

theorem read_nil (reader : Reader) : reader.read [] = reader := rfl

theorem read_cons (reader : Reader) (c : Char) (text : List Char) :
    reader.read (c :: text) = (reader.step c).read text := rfl

theorem read_append (reader : Reader) (front back : List Char) :
    reader.read (front ++ back) = (reader.read front).read back := List.foldl_append

theorem step_newline (reader : Reader) : reader.step '\n' = { machine := reader.endLine } :=
  if_pos rfl

theorem step_of_not_ends {reader : Reader} {c : Char} (hbreak : c ≠ '\n')
    (hends : ¬ reader.Ends c) :
    reader.step c =
      { reader with place := reader.place.after c, begun := reader.begun ++ [c] } := by
  rw [step, if_neg hbreak, if_neg hends]

/-- Where no segment ends, characters are added to the segment begun. -/
theorem read_of_passes {machine : Flattener} {quote quote' : Quote} {depth depth' : Nat}
    {begun text : List Char} (htext : Passes quote depth text quote' depth') (hline : '\n' ∉ text) :
    read ⟨machine, ⟨quote, depth⟩, begun⟩ text = ⟨machine, ⟨quote', depth'⟩, begun ++ text⟩ := by
  induction htext generalizing begun with
  | nil => rw [List.append_nil, read_nil]
  | @cons quote quote' depth depth' c text hmark _ ih =>
    rw [List.mem_cons, not_or] at hline
    have hends : ¬ Ends ⟨machine, ⟨quote, depth⟩, begun⟩ c := by
      rintro ⟨hmem, hplace, -⟩
      obtain ⟨rfl, rfl⟩ := Place.mk.inj hplace
      exact hmark rfl rfl hmem
    rw [read_cons, step_of_not_ends (Ne.symm hline.1) hends]
    have h := @ih (begun ++ [c]) hline.2
    rwa [List.append_assoc, List.singleton_append] at h

/-- Blanks at the end of a line make no difference. -/
theorem endLine_read_blanks (reader : Reader) {blanks rest : List Char}
    (hblanks : allBlank blanks = true) (hline : '\n' ∉ blanks)
    (hrest : ∀ c ∈ rest.head?, c = '\n') :
    (reader.read (blanks ++ rest)).endLine = (reader.read rest).endLine := by
  obtain ⟨machine, place, begun⟩ := reader
  have hend : endLine ⟨machine, place, begun ++ blanks⟩ = endLine ⟨machine, place, begun⟩ := by
    simp only [endLine, Flattener.feedText, allBlank_append, hblanks, Bool.and_true,
      trim_append_of_allBlank_right hblanks]
  rw [read_append, read_of_passes (passes_of_allBlank hblanks) hline]
  cases rest with
  | nil => exact hend
  | cons c rest =>
    obtain rfl := hrest c rfl
    rw [read_cons, read_cons, step_newline, step_newline, hend]

/-- Line breaks between segments make no difference. -/
theorem read_newlines (machine : Flattener) {breaks : List Char} (hbreaks : ∀ c ∈ breaks, c = '\n')
    (rest : List Char) : read { machine } (breaks ++ rest) = read { machine } rest := by
  induction breaks with
  | nil => rfl
  | cons c breaks ih =>
    rw [List.forall_mem_cons] at hbreaks
    obtain ⟨rfl, hbreaks⟩ := hbreaks
    rw [List.cons_append, read_cons, step_newline]
    exact ih hbreaks

theorem place_read (reader : Reader) {text : List Char} (hline : '\n' ∉ text) :
    (reader.read text).place = reader.place.past text := by
  induction text generalizing reader with
  | nil => rfl
  | cons c text ih =>
    rw [List.mem_cons, not_or] at hline
    have hstep : (reader.step c).place = reader.place.after c := by
      by_cases hends : reader.Ends c
      · have hmark := hends.1
        simp only [segmentMarks, List.mem_cons, List.not_mem_nil, or_false] at hmark
        rw [hends.2.1, step, if_neg (Ne.symm hline.1), if_pos hends]
        obtain rfl | rfl | rfl := hmark <;> rfl
      · rw [step_of_not_ends (Ne.symm hline.1) hends]
    rw [read_cons, ih _ hline.2, hstep]
    rfl

/-! ### Lines -/

private theorem head?_trimStart_reverse (text : List Char) :
    (trimStart text.reverse).head? = (trimEnd text).getLast? := by
  rw [trimEnd_eq_reverse, List.getLast?_reverse]

/-- The scanner of segments goes on where the reader does. -/
private theorem segmentsFrom_of_not_ends {reader : Reader} {c : Char} (hends : ¬ reader.Ends c)
    (rest : List Char) :
    segmentsFrom reader.place.quote reader.place.depth reader.begun.reverse (c :: rest) =
      segmentsFrom (reader.place.after c).quote (reader.place.after c).depth
        (reader.begun ++ [c]).reverse rest := by
  obtain ⟨machine, ⟨quote, depth⟩, begun⟩ := reader
  by_cases hmark : quote = .outside → depth = 0 → c ∉ segmentMarks
  · have h := segmentsFrom_of_passes (.cons hmark .nil) begun.reverse rest
    simpa [Place.after] using h
  · -- Only a brace after `#` is a mark that ends nothing.
    simp only [not_forall, not_not] at hmark
    obtain ⟨rfl, rfl, hmem⟩ := hmark
    have hbrace : c = '{' ∧ (trimEnd begun).getLast? = some '#' := by
      simpa [Ends, hmem] using hends
    obtain ⟨rfl, hhash⟩ := hbrace
    rw [segmentsFrom, head?_trimStart_reverse]
    simp [hhash, Place.after, Quote.after, parenthesesAfter]

/-- The segments that end with a mark are those that the reader feeds the machine with. -/
theorem foldl_feed_endedSegments {reader : Reader} {c : Char} (hbreak : c ≠ '\n')
    (hends : reader.Ends c) :
    reader.step c =
      { machine := (endedSegments reader.begun c).foldl Flattener.feed reader.machine } := by
  have hmark : isBlank c = false := by
    have hmem := hends.1
    simp only [segmentMarks, List.mem_cons, List.not_mem_nil, or_false] at hmem
    obtain rfl | rfl | rfl := hmem <;> rfl
  rw [step, if_neg hbreak, if_pos hends, endedSegments]
  split
  · rw [endLine, Flattener.feedText]
    split <;> rfl
  · rw [Flattener.feedText, if_neg (by simp [allBlank, hmark])]
    rfl

/-- Reading a line feeds the machine with the segments of the line. -/
theorem foldl_feed_segmentsFrom (reader : Reader) {line : List Char} (hline : '\n' ∉ line) :
    (cleanSegments (segmentsFrom reader.place.quote reader.place.depth reader.begun.reverse
        line)).foldl Flattener.feed reader.machine =
      (reader.read line).endLine := by
  induction line generalizing reader with
  | nil =>
    rw [segmentsFrom, allBlank_reverse, List.reverse_reverse, read_nil, endLine]
    by_cases hblank : allBlank reader.begun = true
    · rw [if_pos hblank, Flattener.feedText_of_allBlank hblank]
      rfl
    · rw [if_neg hblank, Flattener.feedText_of_not_allBlank hblank, cleanSegments_cons,
        if_neg hblank]
      rfl
  | cons c line ih =>
    rw [List.mem_cons, not_or] at hline
    have hbreak := Ne.symm hline.1
    have hstep := ih (reader.step c) hline.2
    by_cases hends : reader.Ends c
    · have hsegments := @cleanSegments_mark reader.begun [] line c rfl hends.1 hends.2.2
      rw [List.append_nil] at hsegments
      rw [foldl_feed_endedSegments hbreak hends] at hstep
      rw [hends.2.1, hsegments, List.foldl_append]
      refine hstep.trans ?_
      rw [← foldl_feed_endedSegments hbreak hends]
      rfl
    · rw [step_of_not_ends hbreak hends] at hstep
      rw [segmentsFrom_of_not_ends hends, hstep, ← step_of_not_ends hbreak hends]
      rfl

private theorem foldl_feed_lines (state : Flattener) {first : List Char}
    {pieces : List (List Char)} (hfirst : '\n' ∉ first) (hpieces : ∀ piece ∈ pieces, '\n' ∉ piece) :
    ((first :: pieces).flatMap fun line => cleanSegments (segments line)).foldl Flattener.feed
        state =
      (read { machine := state } (first ++ pieces.flatMap ('\n' :: ·))).endLine := by
  induction pieces generalizing state first with
  | nil =>
    rw [List.flatMap_cons, List.flatMap_nil, List.flatMap_nil, List.append_nil, List.append_nil]
    exact foldl_feed_segmentsFrom { machine := state } hfirst
  | cons piece pieces ih =>
    rw [List.forall_mem_cons] at hpieces
    have hline : (cleanSegments (segments first)).foldl Flattener.feed state =
        (read { machine := state } first).endLine :=
      foldl_feed_segmentsFrom { machine := state } hfirst
    rw [List.flatMap_cons, List.foldl_append, hline, ih _ hpieces.1 hpieces.2,
      List.flatMap_cons, List.cons_append, read_append _ first, read_cons,
      step_newline]

/-- Flattening is a run of the reader over the code of the text. -/
theorem flatten_eq_finish (source : String) :
    flatten source =
      (read {} (uncommented .outside false (unixLines source.toList))).endLine.finish := by
  obtain ⟨first, pieces, hsplit⟩ :=
    exists_splitOn_eq_cons (· == '\n') (uncommented .outside false (unixLines source.toList))
  have hpieces : ∀ piece ∈ first :: pieces, '\n' ∉ piece := by
    intro piece hpiece
    rw [← hsplit] at hpiece
    exact not_mem_of_mem_splitOn hpiece
  rw [List.forall_mem_cons] at hpieces
  rw [flatten_eq, sourceSegments_eq, hsplit, foldl_feed_lines {} hpieces.1 hpieces.2,
    ← eq_append_flatMap_of_splitOn hsplit]

end Reader

end DesignCompiler.Stylesheet
