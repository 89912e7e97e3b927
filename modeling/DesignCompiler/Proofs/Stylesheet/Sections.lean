import DesignCompiler.Proofs.Stylesheet.Reader

/-!
# Sheets cut into segments

A well-formed stylesheet is a sequence of segments, each ended by its mark, whatever the tree that
they build. Wherever one has ended the reader stands between segments, and if a value is unfinished
there, as after a list of selectors that goes over several lines, its quotes are closed.
-/

namespace DesignCompiler.Stylesheet

open Text

/-! ## Segments over several lines -/

/-- The rest of a segment, from the place that has been reached in it. What the segment opens it
    closes. Line breaks stand outside quotes, braces inside, and a `;` that is not in quotes stands
    in parentheses. -/
def SegmentRest (place : Place) : List Char → Prop
  | [] => place = {}
  | c :: rest =>
    (place.quote = .outside → c ∉ ['{', '}'] ∧ (place.depth = 0 → c ∉ [';', ')'])) ∧
      (c = '\n' → place.quote = .outside) ∧ SegmentRest (place.after c) rest

instance decidableSegmentRest (place : Place) :
    (text : List Char) → Decidable (SegmentRest place text)
  | [] => inferInstanceAs (Decidable (place = {}))
  | c :: rest =>
    have := decidableSegmentRest (place.after c) rest
    inferInstanceAs (Decidable (_ ∧ _ ∧ _))

/-- A text of whole segments, each ended by its mark, with blanks and line breaks in between. A
    brace after `#` ends nothing. -/
inductive Sections : List Char → Prop where
  | nil : Sections []
  | blank {c : Char} {text : List Char} : isBlank c = true → Sections text → Sections (c :: text)
  | segment {front text : List Char} (mark : Char) :
      SegmentRest {} front → mark ∈ segmentMarks →
      (mark = '{' → (trimEnd front).getLast? ≠ some '#') →
      Sections text → Sections (front ++ mark :: text)

/-! ## Closed quotes -/

/-- The quotes that a text opens are closed in it. -/
def QuotesClosed (text : List Char) : Prop := text.foldl Quote.after .outside = .outside

theorem QuotesClosed.append_iff {front back : List Char} (hfront : QuotesClosed front) :
    QuotesClosed (front ++ back) ↔ QuotesClosed back := by
  rw [QuotesClosed, List.foldl_append, hfront, QuotesClosed]

theorem quotesClosed_of_passes {depth depth' : Nat} {text : List Char}
    (h : Passes .outside depth text .outside depth') : QuotesClosed text := h.foldl_after

theorem quotesClosed_of_allBlank {blanks : List Char} (hblanks : allBlank blanks = true) :
    QuotesClosed blanks :=
  quotesClosed_of_passes (@passes_of_allBlank .outside 0 _ hblanks)

theorem quotesClosed_trim_iff {text : List Char} :
    QuotesClosed (trim text) ↔ QuotesClosed text := by
  have hover : ∀ text, QuotesClosed text ↔ (Place.past {} text).quote = .outside := by
    intro text
    rw [Place.quote_past, QuotesClosed]
  rw [hover, hover, Place.past_trim]

theorem SegmentRest.past_eq {place : Place} {text : List Char} (htext : SegmentRest place text) :
    place.past text = {} := by
  induction text generalizing place with
  | nil => exact htext
  | cons c text ih => exact ih htext.2.2

theorem SegmentRest.quotesClosed {text : List Char} (htext : SegmentRest {} text) :
    QuotesClosed text := by
  have h := congrArg Place.quote htext.past_eq
  rwa [Place.quote_past] at h

/-- Balanced text can be put to a value whose quotes are closed. -/
theorem Place.GoesOn.append_of_passes {text more : List Char} (hgoes : Place.GoesOn {} text)
    (hclosed : QuotesClosed text) (hmore : Passes .outside 0 more .outside 0) :
    Place.GoesOn {} (text ++ more) ∧ {} ≤ Place.past {} (text ++ more) := by
  have hstart : {} ≤ Place.past {} text :=
    ⟨by rw [Place.quote_past]; exact hclosed.symm, Nat.zero_le _⟩
  have hon : Place.GoesOn {} more := @Place.goesOn_of_passes {} {} _ hmore
  refine ⟨Place.goesOn_append_iff.mpr ⟨hgoes, hon.of_le hstart⟩, ?_⟩
  have hle := Place.past_le_past hstart more
  rwa [Place.past_of_passes hmore, ← Place.past_append] at hle

theorem quotesClosed_of_mem_segmentMarks {mark : Char} (hmark : mark ∈ segmentMarks) :
    QuotesClosed [mark] := by
  simp only [segmentMarks, List.mem_cons, List.not_mem_nil, or_false] at hmark
  obtain rfl | rfl | rfl := hmark <;> rfl

theorem Sections.quotesClosed {sheet : List Char} (hsheet : Sections sheet) :
    QuotesClosed sheet := by
  induction hsheet with
  | nil => rfl
  | @blank c text hblank _ ih =>
    have hone : QuotesClosed [c] := quotesClosed_of_allBlank (by simpa [allBlank] using hblank)
    exact (hone.append_iff).mpr ih
  | segment mark hfront hmark _ _ ih =>
    have hone := quotesClosed_of_mem_segmentMarks hmark
    exact (hfront.quotesClosed.append_iff).mpr ((hone.append_iff).mpr ih)

namespace Flattener

variable {state : Flattener}

/-- A value that is unfinished can be gone on with: no `;` has ended it, and its quotes are
    closed. -/
def Resumable (state : Flattener) : Prop :=
  ∀ u, state.unfinished = some u → Place.GoesOn {} u.value ∧ QuotesClosed u.value

theorem resumable_of_eq_none (hnone : state.unfinished = none) : state.Resumable := by
  intro u hu
  rw [hnone] at hu
  cases hu

theorem unfinished_closeBlock (state : Flattener) : state.closeBlock.unfinished = none := by
  rw [closeBlock]
  split <;> rfl

theorem unfinished_declare (state : Flattener) (declaration : Declaration) :
    (state.declare declaration).unfinished = state.unfinished := by
  rw [declare]
  split <;> rfl

theorem resumable_value {property text : List Char} (htext : QuotesClosed text) :
    (state.value property text).Resumable := by
  rw [value]
  split
  · apply resumable_of_eq_none
    rw [unfinished_declare]
  · rename_i hend
    intro u hu
    obtain rfl := Option.some.inj hu
    exact ⟨hend, htext⟩

/-- A segment with closed quotes leaves a value that can be gone on with, if any. -/
theorem Resumable.feed (hstate : state.Resumable) {segment : List Char}
    (hsegment : QuotesClosed segment) : (state.feed segment).Resumable := by
  unfold Flattener.feed
  split
  · rename_i property text hunfinished
    split
    · exact resumable_of_eq_none (unfinished_closeBlock _)
    · have htext : QuotesClosed text := (hstate _ hunfinished).2
      have hblank : QuotesClosed [' '] := rfl
      apply resumable_value
      rw [quotesClosed_trim_iff, htext.append_iff]
      exact (hblank.append_iff).mpr hsegment
  · rename_i hnone
    split
    · exact resumable_of_eq_none hnone
    · split
      · exact resumable_of_eq_none (unfinished_closeBlock _)
      · split
        · exact hstate
        · rename_i before after hcut
          dsimp only
          split
          · rename_i hname
            obtain ⟨mark, hmark, rfl⟩ := eq_append_of_cutAt? hcut
            obtain rfl : mark = ':' := by simpa using hmark
            have hproperty := quotesClosed_of_passes (passes_of_isPropertyName hname)
            have hcolon : QuotesClosed [':'] := rfl
            apply resumable_value
            rw [quotesClosed_trim_iff]
            exact (hcolon.append_iff).mp ((hproperty.append_iff).mp hsegment)
          · exact hstate

theorem Resumable.feedText (hstate : state.Resumable) {text : List Char}
    (htext : QuotesClosed text) : (state.feedText text).Resumable := by
  rw [Flattener.feedText]
  split
  · exact hstate
  · exact hstate.feed (quotesClosed_trim_iff.mpr htext)

end Flattener

namespace Reader

variable {reader : Reader}

/-! ## Within a segment -/

/-- What the reader keeps within a segment, at a place in it. Line breaks inside parentheses have
    made it forget some of these, but no quote. -/
structure Within (reader : Reader) (place : Place) : Prop where
  place_le : reader.place ≤ place
  quote_begun : reader.begun.foldl Quote.after .outside = place.quote
  resumable : reader.machine.Resumable

theorem begun_step (reader : Reader) (c : Char) :
    (reader.step c).begun = reader.begun ++ [c] ∨ (reader.step c).begun = [] := by
  unfold step
  split
  · exact .inr rfl
  · split
    · split <;> exact .inr rfl
    · exact .inl rfl

/-- Outside quotes a segment of the line may have ended. -/
theorem within_start {place : Place} (hquote : place.quote = .outside) {state : Flattener}
    (hstate : state.Resumable) : Within { machine := state } place where
  place_le := ⟨hquote.symm, Nat.zero_le _⟩
  quote_begun := hquote.symm
  resumable := hstate

theorem Within.quotesClosed {place : Place} (h : reader.Within place)
    (hquote : place.quote = .outside) : QuotesClosed reader.begun := h.quote_begun.trans hquote

/-- Within a segment only a `;` is taken for the end of one, inside parentheses that an earlier line
    has opened. -/
theorem Ends.eq_semicolon {place : Place} {c : Char} (hends : reader.Ends c)
    (hplace : reader.place ≤ place)
    (hmarks : place.quote = .outside → c ∉ ['{', '}'] ∧ (place.depth = 0 → c ∉ [';', ')'])) :
    place.quote = .outside ∧ c = ';' := by
  have hquote : place.quote = .outside := by rw [← hplace.1, hends.2.1]
  refine ⟨hquote, ?_⟩
  have hmem := hends.1
  have hbrace := (hmarks hquote).1
  simp only [segmentMarks, List.mem_cons, List.not_mem_nil, or_false] at hmem hbrace
  tauto

theorem Within.step {place : Place} {c : Char} {rest : List Char} (h : reader.Within place)
    (hrest : SegmentRest place (c :: rest)) : (reader.step c).Within (place.after c) := by
  obtain ⟨hmarks, hbreak, -⟩ := hrest
  by_cases hc : c = '\n'
  · subst hc
    have hquote := hbreak rfl
    rw [step_newline, Place.after_of_isBlank place rfl]
    exact within_start hquote (h.resumable.feedText (h.quotesClosed hquote))
  · by_cases hends : reader.Ends c
    · obtain ⟨hquote, rfl⟩ := hends.eq_semicolon h.place_le hmarks
      have hafter : (place.after ';').quote = .outside := by
        rw [Place.quote_after (by decide), hquote]
      have hclosed : QuotesClosed (reader.begun ++ [';']) :=
        ((h.quotesClosed hquote).append_iff).mpr rfl
      rw [Reader.step, if_neg hc, if_pos hends, if_neg (by decide)]
      exact within_start hafter (h.resumable.feedText hclosed)
    · rw [step_of_not_ends hc hends]
      refine ⟨Place.after_le_after h.place_le c, ?_, h.resumable⟩
      rw [List.foldl_append, h.quote_begun]
      rfl

/-- The run through the rest of a segment. -/
theorem Within.read {place : Place} {text : List Char} (h : reader.Within place)
    (htext : SegmentRest place text) : (reader.read text).Within {} := by
  induction text generalizing reader place with
  | nil =>
    obtain rfl : place = {} := htext
    exact h
  | cons c text ih => exact ih (h.step htext) htext.2.2

theorem begun_read_suffix (reader : Reader) (text : List Char) :
    (reader.read text).begun <:+ reader.begun ++ text := by
  induction text generalizing reader with
  | nil => rw [List.append_nil, read_nil]
  | cons c text ih =>
    refine (ih (reader.step c)).trans ?_
    obtain hbegun | hbegun := begun_step reader c
    · rw [hbegun, List.append_assoc, List.singleton_append]
    · rw [hbegun, List.nil_append]
      exact (List.suffix_cons c text).trans (List.suffix_append _ _)

/-! ## Between segments -/

/-- What the reader keeps between two segments. -/
structure Between (reader : Reader) : Prop where
  place_eq : reader.place = {}
  begun_blank : allBlank reader.begun = true
  resumable : reader.machine.Resumable

theorem between_start {state : Flattener} (hstate : state.Resumable) :
    Between { machine := state } :=
  ⟨rfl, rfl, hstate⟩

theorem Between.within (h : reader.Between) : reader.Within {} where
  place_le := by rw [h.place_eq]; exact Place.le_refl _
  quote_begun := quotesClosed_of_allBlank h.begun_blank
  resumable := h.resumable

theorem Between.step_blank (h : reader.Between) {c : Char} (hblank : isBlank c = true) :
    (reader.step c).Between := by
  by_cases hc : c = '\n'
  · subst hc
    rw [step_newline]
    exact between_start (h.resumable.feedText (quotesClosed_of_allBlank h.begun_blank))
  · have hends : ¬ reader.Ends c := by
      rintro ⟨hmark, -, -⟩
      simp [segmentMarks, ne_of_isBlank hblank '{', ne_of_isBlank hblank '}',
        ne_of_isBlank hblank ';'] at hmark
    rw [step_of_not_ends hc hends]
    refine ⟨?_, ?_, h.resumable⟩
    · rw [h.place_eq, Place.after_of_isBlank {} hblank]
    · rw [allBlank_append, h.begun_blank]
      simpa [allBlank] using hblank

theorem Between.read_segment (h : reader.Between) {front : List Char} {mark : Char}
    (hfront : SegmentRest {} front) (hmark : mark ∈ segmentMarks)
    (hhash : mark = '{' → (trimEnd front).getLast? ≠ some '#') :
    ((reader.read front).step mark).Between := by
  have hwithin := h.within.read hfront
  have hclosed := hwithin.quotesClosed rfl
  have hbreak : mark ≠ '\n' := ne_of_mem_segmentMarks hmark '\n'
  have hends : (reader.read front).Ends mark := by
    refine ⟨hmark, Place.eq_of_le_start hwithin.place_le, fun hbrace hlast => hhash hbrace ?_⟩
    have htext := getLast?_trimEnd_of_suffix (begun_read_suffix reader front) hlast
    rwa [getLast?_trimEnd_append_of_allBlank h.begun_blank] at htext
  rw [step, if_neg hbreak, if_pos hends]
  split
  · exact between_start ((hwithin.resumable.feedText hclosed).feed rfl)
  · exact between_start (hwithin.resumable.feedText
      ((hclosed.append_iff).mpr (quotesClosed_of_mem_segmentMarks hmark)))

/-- The run over a sheet. -/
theorem Between.read (h : reader.Between) {sheet : List Char} (hsheet : Sections sheet) :
    (reader.read sheet).Between := by
  induction hsheet generalizing reader with
  | nil => exact h
  | blank hblank _ ih => exact ih (h.step_blank hblank)
  | segment mark hfront hmark hhash _ ih =>
    rw [read_append, read_cons]
    exact ih (h.read_segment hfront hmark hhash)

end Reader

end DesignCompiler.Stylesheet
