import DesignCompiler.Proofs.Stylesheet.Sections

/-!
# Line breaks in values

The value of a declaration may go on over lines: a line break between two words of it is read as a
space. Where the line breaks the machine keeps the value as unfinished, and the words of the next
line are put to it after one blank, which are the words that the segment would have held.
-/

namespace DesignCompiler.Stylesheet

open Text

/-! ## Joined texts -/

/-- The last character of a text that is not blank is no brace. -/
def EndsPlain (text : List Char) : Prop := ∀ c, (trim text).getLast? = some c → c ∉ ['{', '}']

theorem endsPlain_nil : EndsPlain [] := by
  intro c hc
  cases hc

theorem endsPlain_concat {text : List Char} {c : Char} (hc : isBlank c = false) :
    EndsPlain (text ++ [c]) ↔ c ∉ ['{', '}'] := by
  rw [EndsPlain, trim_concat hc, List.getLast?_concat]
  exact ⟨fun h => h c rfl, fun h d hd => Option.some.inj hd ▸ h⟩

theorem endsPlain_concat_blank {text : List Char} {c : Char} (hc : isBlank c = true) :
    EndsPlain (text ++ [c]) ↔ EndsPlain text := by
  rw [EndsPlain, trim_append_of_allBlank_right (by simpa [allBlank] using hc), EndsPlain]

/-- Texts joined by a blank end like the second. -/
theorem endsPlain_joined {front text : List Char} {d : Char} (hd : isBlank d = false) :
    EndsPlain (front ++ ' ' :: d :: text) ↔ EndsPlain (d :: text) := by
  have hlast : (trim (front ++ ' ' :: d :: text)).getLast? = (trim (d :: text)).getLast? := by
    rw [List.append_cons, trim_append_cons hd, trim_cons hd, List.getLast?_append,
      List.getLast?_cons]
    rfl
  rw [EndsPlain, hlast, EndsPlain]

theorem EndsPlain.trim_ne {text : List Char} (h : EndsPlain text) : trim text ≠ ['}'] := by
  intro htrim
  exact h '}' (by rw [htrim]; rfl) (by decide)

theorem EndsPlain.dropEnd?_eq_none {text : List Char} (h : EndsPlain text) :
    dropEnd? ['{'] (trim text) = none := by
  rcases List.eq_nil_or_concat (trim text) with htrim | ⟨front, c, htrim⟩
  · rw [htrim]
    rfl
  · rw [htrim, List.concat_eq_append, dropEnd?_singleton_concat, if_neg]
    rintro rfl
    exact h '{' (by rw [htrim, List.concat_eq_append, List.getLast?_concat]) (by decide)

/-! ## Unfinished values -/

namespace Flattener

variable {state : Flattener}

/-- A value that goes on is kept. -/
theorem value_of_goesOn {property text : List Char} (hgoes : Place.GoesOn {} text) :
    state.value property text = { state with unfinished := some ⟨property, text⟩ } := by
  have hend : terminated? text = none := hgoes
  rw [value, hend]

/-- Taking in a value forgets an unfinished one. -/
theorem value_with_unfinished (unfinished : Option Unfinished) (property text : List Char) :
    { state with unfinished }.value property text = state.value property text := by
  unfold value
  split <;> rfl

/-- A segment continues an unfinished value. -/
theorem feed_of_unfinished {u : Unfinished} (hu : state.unfinished = some u) {segment : List Char}
    (hclose : segment ≠ ['}']) :
    state.feed segment = state.value u.property (trim (u.value ++ ' ' :: segment)) := by
  rw [feed, hu]
  exact if_neg (by simpa using hclose)

/-- No mark stands in the name of a property. -/
theorem not_mem_of_isPropertyName {property : List Char}
    (hname : isPropertyName (trim property) = true) {mark : Char} (hblank : isBlank mark = false)
    (hmark : isPropertyChar mark = false) : mark ∉ property := by
  obtain ⟨front, back, hproperty, hfront, hback⟩ := exists_eq_append_trim property
  rw [isPropertyName, Bool.and_eq_true, List.all_eq_true] at hname
  intro hmem
  rw [hproperty, List.mem_append, List.mem_append] at hmem
  obtain (hin | hin) | hin := hmem
  · exact not_mem_of_allBlank hfront hblank hin
  · have hchar : isPropertyChar mark = true := hname.2 mark hin
    rw [hmark] at hchar
    cases hchar
  · exact not_mem_of_allBlank hback hblank hin

/-- A segment that begins a declaration. -/
theorem feedText_declarationText (hnone : state.unfinished = none) {property value : List Char}
    (hname : isPropertyName (trim property) = true)
    (hplain : EndsPlain (declarationText property value)) :
    state.feedText (declarationText property value) =
      state.value (trim property) (trim value) := by
  have hcolon : ':' ∉ property := not_mem_of_isPropertyName hname (by decide) (by decide)
  have hblank : ¬ allBlank (declarationText property value) = true := by
    simp [declarationText, allBlank, show isBlank ':' = false by decide]
  have hopen := hplain.dropEnd?_eq_none
  rw [trim_declarationText] at hopen
  rw [feedText_of_not_allBlank hblank, trim_declarationText,
    feed_declarationText hnone (mt mem_of_mem_trimStart hcolon) hopen, trim_trimStart, trim_trimEnd,
    if_pos hname]

/-- A segment that continues an unfinished value. -/
theorem feedText_of_unfinished {u : Unfinished} (hu : state.unfinished = some u)
    {text : List Char} (hblank : ¬ allBlank text = true) (hplain : EndsPlain text) :
    state.feedText text = state.value u.property (trim (u.value ++ ' ' :: trim text)) := by
  rw [feedText_of_not_allBlank hblank, feed_of_unfinished hu hplain.trim_ne]

/-- Whether the next words follow in the segment begun, after a blank, or on the next line makes no
    difference to the machine: `next` has taken in that segment at the end of its line. -/
def Joins (state : Flattener) (begun : List Char) (next : Flattener) : Prop :=
  ∀ d text, isBlank d = false → EndsPlain (d :: text) →
    state.feedText (begun ++ ' ' :: d :: text) = next.feedText (d :: text)

theorem joins_declarationText (hnone : state.unfinished = none) {property value : List Char}
    (hname : isPropertyName (trim property) = true)
    (hplain : EndsPlain (declarationText property value)) (hgoes : Place.GoesOn {} value)
    (hlast : ∀ c ∈ value.getLast?, isBlank c = false) :
    state.Joins (declarationText property value)
      (state.feedText (declarationText property value)) := by
  intro d text hd htext
  have hnext : ¬ allBlank (d :: text) = true := by simp [allBlank, hd]
  have htrim : Place.GoesOn {} (trim value) := Place.goesOn_trim_iff.mpr hgoes
  have hsegment : declarationText property value ++ ' ' :: d :: text =
      declarationText property (value ++ ' ' :: d :: text) := by simp [declarationText]
  have hjoined : EndsPlain (declarationText property (value ++ ' ' :: d :: text)) := by
    rw [← hsegment]
    exact (endsPlain_joined hd).mpr htext
  rw [hsegment, feedText_declarationText hnone hname hjoined,
    feedText_declarationText hnone hname hplain, value_of_goesOn htrim,
    feedText_of_unfinished rfl hnext htext, trim_joined_trim hlast hd]
  exact (value_with_unfinished _ _ _).symm

theorem joins_of_unfinished {u : Unfinished} (hu : state.unfinished = some u) {front : List Char}
    {c : Char} (hplain : EndsPlain (front ++ [c]))
    (hgoes : Place.GoesOn {} (u.value ++ ' ' :: (front ++ [c]))) (hc : isBlank c = false) :
    state.Joins (front ++ [c]) (state.feedText (front ++ [c])) := by
  intro d text hd htext
  have hbegun : ¬ allBlank (front ++ [c]) = true := by simp [allBlank, hc]
  have hnext : ¬ allBlank (d :: text) = true := by simp [allBlank, hd]
  have hall : ¬ allBlank (front ++ [c] ++ ' ' :: d :: text) = true := by simp [allBlank, hd]
  have htrim : Place.GoesOn {} (trim (u.value ++ ' ' :: trim (front ++ [c]))) := by
    rwa [Place.goesOn_trim_iff, Place.goesOn_joined_trim_iff]
  have hjoined : EndsPlain (front ++ [c] ++ ' ' :: d :: text) := (endsPlain_joined hd).mpr htext
  rw [feedText_of_unfinished hu hall hjoined, trim_joined_assoc hc hd,
    feedText_of_unfinished hu hbegun hplain, value_of_goesOn htrim,
    feedText_of_unfinished rfl hnext htext]
  exact (value_with_unfinished _ _ _).symm

/-- Of an empty segment nothing has been taken in. -/
theorem joins_nil (state : Flattener) : state.Joins [] state := by
  intro d text hd _
  have hnext : ¬ allBlank (d :: text) = true := by simp [allBlank, hd]
  have hall : ¬ allBlank (' ' :: d :: text) = true := by simp [allBlank, hd]
  have htrim : trim (' ' :: d :: text) = trim (d :: text) :=
    @trim_append_of_allBlank_left [' '] _ rfl
  rw [List.nil_append, feedText_of_not_allBlank hall, feedText_of_not_allBlank hnext, htrim]

/-- What goes on with an unfinished value leaves it unfinished. -/
theorem exists_feedText_of_goesOn {u : Unfinished} (hu : state.unfinished = some u)
    {text : List Char} (hplain : EndsPlain text)
    (hgoes : Place.GoesOn {} (u.value ++ ' ' :: text)) :
    ∃ u', state.feedText text = { state with unfinished := some u' } ∧ Place.GoesOn {} u'.value ∧
      Place.past {} u'.value = Place.past {} (u.value ++ ' ' :: text) := by
  by_cases hblank : allBlank text = true
  · refine ⟨u, ?_, (Place.goesOn_append_iff.mp hgoes).1, ?_⟩
    · rw [feedText_of_allBlank hblank, ← hu]
    · have hblanks : allBlank (' ' :: text) = true := by
        simpa [allBlank, show isBlank ' ' = true by decide] using hblank
      rw [Place.past_append, Place.past_of_allBlank _ hblanks]
  · have htrim : Place.GoesOn {} (trim (u.value ++ ' ' :: trim text)) := by
      rwa [Place.goesOn_trim_iff, Place.goesOn_joined_trim_iff]
    refine ⟨⟨u.property, trim (u.value ++ ' ' :: trim text)⟩, ?_, htrim, ?_⟩
    · rw [feedText_of_unfinished hu hblank hplain, value_of_goesOn htrim]
    · rw [Place.past_trim, Place.past_joined_trim]

end Flattener

namespace Reader

variable {reader : Reader} {place : Place}

/-! ## Within a value -/

/-- The reader within the value of a declaration, at a place in it. Either the declaration begins on
    this line, or a value is unfinished, to which the segment begun will be put; that may also be
    one that an earlier declaration or a list of selectors has left. Then the place in the value
    that is unfinished is at least as deep in parentheses. -/
inductive InValue (reader : Reader) (place : Place) : Prop where
  | begins {property value : List Char} :
      reader.machine.unfinished = none → Flattener.isPropertyName (trim property) = true →
      reader.begun = declarationText property value → Place.GoesOn {} value →
      Place.past {} value = place → reader.place = place → InValue reader place
  | continues {u : Unfinished} :
      reader.machine.unfinished = some u → Place.GoesOn {} (u.value ++ ' ' :: reader.begun) →
      place ≤ Place.past {} (u.value ++ ' ' :: reader.begun) → reader.place ≤ place →
      InValue reader place

theorem InValue.place_le (h : reader.InValue place) : reader.place ≤ place := by
  cases h with
  | begins _ _ _ _ _ hplace => exact hplace ▸ Place.le_refl _
  | continues _ _ _ hplace => exact hplace

/-- A place at which the segment begun does not end in a brace outside quotes. -/
def Braceless (reader : Reader) (place : Place) : Prop :=
  place.quote = .outside → EndsPlain reader.begun

theorem Braceless.step {c : Char} {rest : List Char} (h : reader.Braceless place)
    (hrest : SegmentRest place (c :: rest)) : (reader.step c).Braceless (place.after c) := by
  intro hafter
  obtain hbegun | hbegun := begun_step reader c
  · rw [hbegun]
    by_cases hblank : isBlank c = true
    · rw [Place.after_of_isBlank place hblank] at hafter
      exact (endsPlain_concat_blank hblank).mpr (h hafter)
    · refine (endsPlain_concat (by simpa using hblank)).mpr fun hbrace => ?_
      have hplain : c ∉ ['\'', '"'] := by
        simp only [List.mem_cons, List.not_mem_nil, or_false] at hbrace
        obtain rfl | rfl := hbrace <;> decide
      exact (hrest.1 ((Place.quote_after hplain place).symm.trans hafter)).1 hbrace
  · rw [hbegun]
    exact endsPlain_nil

/-- A line that ends within a value leaves the value unfinished. -/
theorem InValue.exists_endLine (h : reader.InValue place) (hplain : EndsPlain reader.begun) :
    ∃ u, reader.endLine = { reader.machine with unfinished := some u } ∧
      Place.GoesOn {} u.value ∧ place ≤ Place.past {} u.value := by
  cases h with
  | @begins property value hnone hname hbegun hgoes hover hplace =>
    rw [hbegun] at hplain
    have htrim : Place.GoesOn {} (trim value) := Place.goesOn_trim_iff.mpr hgoes
    refine ⟨⟨trim property, trim value⟩, ?_, htrim, ?_⟩
    · rw [endLine, hbegun, Flattener.feedText_declarationText hnone hname hplain,
        Flattener.value_of_goesOn htrim]
    · rw [Place.past_trim, hover]
      exact Place.le_refl place
  | continues hu hgoes hle hplace =>
    obtain ⟨u', hfeed, hgoes', hover⟩ := Flattener.exists_feedText_of_goesOn hu hplain hgoes
    exact ⟨u', hfeed, hgoes', hover ▸ hle⟩

/-- The next line of a value, or what follows a `;` in parentheses that an earlier line opened. -/
theorem inValue_start {state : Flattener} {u : Unfinished}
    (hgoes : Place.GoesOn {} u.value) (hle : place ≤ Place.past {} u.value)
    (hquote : place.quote = .outside) :
    InValue { machine := { state with unfinished := some u } } place := by
  refine .continues rfl (Place.goesOn_append_iff.mpr ⟨hgoes, Place.goesOn_of_allBlank _ rfl⟩) ?_
    ⟨hquote.symm, Nat.zero_le _⟩
  rwa [Place.past_append, Place.past_of_allBlank _ rfl]

theorem InValue.step_newline (h : reader.InValue place) (hplain : reader.Braceless place)
    (hquote : place.quote = .outside) : (reader.step '\n').InValue place := by
  obtain ⟨u, hend, hgoes, hle⟩ := h.exists_endLine (hplain hquote)
  rw [Reader.step_newline, hend]
  exact inValue_start hgoes hle hquote

private theorem joined_concat (front text : List Char) (c : Char) :
    front ++ ' ' :: (text ++ [c]) = front ++ ' ' :: text ++ [c] := by
  rw [List.append_assoc, List.cons_append]

/-- A `;` in parentheses that an earlier line has opened ends a segment, but not the value. -/
theorem InValue.step_semicolon (h : reader.InValue place) (hends : reader.Ends ';')
    (hquote : place.quote = .outside) (hon : place.GoesOn [';']) :
    (reader.step ';').InValue (place.after ';') := by
  cases h with
  | begins _ _ _ _ _ hplace =>
    rw [← hplace, hends.2.1] at hon
    exact absurd rfl ((Place.goesOn_cons_iff.mp hon).1 rfl rfl)
  | @continues u hu hgoes hle hplace =>
    obtain ⟨htext, hlater⟩ := hgoes.concat hle hon
    rw [← joined_concat] at htext hlater
    obtain ⟨u', hfeed, hgoes', hpast⟩ := Flattener.exists_feedText_of_goesOn hu
      ((endsPlain_concat (by decide)).mpr (by decide)) htext
    have hafter : (place.after ';').quote = .outside := by
      rw [Place.quote_after (by decide), hquote]
    rw [Reader.step, if_neg (by decide), if_pos hends, if_neg (by decide), hfeed]
    exact inValue_start hgoes' (hpast ▸ hlater) hafter

/-- Another character is added to the segment begun, and so to the value. -/
theorem InValue.step_concat {c : Char} (h : reader.InValue place) (hbreak : c ≠ '\n')
    (hends : ¬ reader.Ends c) (hon : place.GoesOn [c]) :
    (reader.step c).InValue (place.after c) := by
  rw [step_of_not_ends hbreak hends]
  cases h with
  | @begins property value hnone hname hbegun hgoes hpast hplace =>
    refine @InValue.begins _ _ property (value ++ [c]) hnone hname ?_ ?_ ?_
      (congrArg (Place.after · c) hplace)
    · simp [hbegun, declarationText]
    · exact Place.goesOn_append_iff.mpr ⟨hgoes, hpast ▸ hon⟩
    · rw [Place.past_append, hpast]
      rfl
  | @continues u hu hgoes hle hplace =>
    obtain ⟨htext, hlater⟩ := hgoes.concat hle hon
    rw [← joined_concat] at htext hlater
    exact .continues hu htext hlater (Place.after_le_after hplace c)

theorem InValue.step {c : Char} {rest : List Char} (h : reader.InValue place)
    (hplain : reader.Braceless place) (hrest : SegmentRest place (c :: rest)) :
    (reader.step c).InValue (place.after c) := by
  obtain ⟨hmarks, hbreak, -⟩ := hrest
  have hon : place.GoesOn [c] := by
    refine Place.goesOn_cons_iff.mpr ⟨fun hquote hdepth => ?_, Place.goesOn_nil _⟩
    rintro rfl
    exact (hmarks hquote).2 hdepth (by decide)
  by_cases hc : c = '\n'
  · subst hc
    rw [Place.after_of_isBlank place rfl]
    exact h.step_newline hplain (hbreak rfl)
  · by_cases hends : reader.Ends c
    · obtain ⟨hquote, rfl⟩ := hends.eq_semicolon h.place_le hmarks
      exact h.step_semicolon hends hquote hon
    · exact h.step_concat hc hends hon

/-- The run over the rest of a value. -/
theorem InValue.read {text : List Char} (h : reader.InValue place)
    (hplain : reader.Braceless place) (htext : SegmentRest place text) :
    (reader.read text).InValue {} ∧ (reader.read text).Braceless {} := by
  induction text generalizing reader place with
  | nil =>
    obtain rfl : place = {} := htext
    exact ⟨h, hplain⟩
  | cons c text ih => exact ih (h.step hplain htext) (hplain.step htext) htext.2.2

/-! ## The two ways over the break -/

/-- The reader stands after a word of a value, outside its quotes and parentheses. -/
structure AfterWord (reader : Reader) : Prop where
  inValue : reader.InValue {}
  endsPlain : EndsPlain reader.begun
  last_not_blank : ∀ c ∈ reader.begun.getLast?, isBlank c = false

/-- What is put to a value after a blank may as well be put to it as the next line. -/
theorem AfterWord.joins (h : reader.AfterWord) :
    reader.machine.Joins reader.begun reader.endLine := by
  obtain ⟨hin, hplain, hlast⟩ := h
  cases hin with
  | @begins property value hnone hname hbegun hgoes =>
    have hvalue : ∀ c ∈ value.getLast?, isBlank c = false := by
      intro c hc
      apply hlast
      rw [hbegun, declarationText, List.getLast?_append, List.getLast?_cons, Option.mem_def.mp hc]
      rfl
    rw [hbegun] at hplain
    rw [endLine, hbegun]
    exact Flattener.joins_declarationText hnone hname hplain hgoes hvalue
  | continues hu hgoes =>
    rcases List.eq_nil_or_concat reader.begun with hbegun | ⟨front, c, hbegun⟩
    · -- The last character read before the break has ended a segment of the line.
      rw [endLine, hbegun, Flattener.feedText_of_allBlank rfl]
      exact Flattener.joins_nil _
    · rw [List.concat_eq_append] at hbegun
      rw [hbegun] at hplain hgoes hlast
      rw [endLine, hbegun]
      exact Flattener.joins_of_unfinished hu hplain hgoes (hlast c List.getLast?_concat)

/-- A mark that ends a value. -/
private theorem step_mark {mark : Char} (hmark : mark ∈ [';', '}']) (hplace : reader.place = {}) :
    reader.step mark =
      if mark = '}' then { machine := reader.endLine.feed ['}'] }
      else { machine := reader.machine.feedText (reader.begun ++ [mark]) } := by
  have hends : reader.Ends mark := by
    simp only [List.mem_cons, List.not_mem_nil, or_false] at hmark
    refine ⟨?_, hplace, ?_⟩
    · obtain rfl | rfl := hmark <;> decide
    · rintro rfl
      simp at hmark
  have hbreak : mark ≠ '\n' := by
    rintro rfl
    simp at hmark
  rw [step, if_neg hbreak, if_pos hends]

/-- The mark at the end of a value is put to it like its words. -/
private theorem step_mark_joined {state next : Flattener} {begun text : List Char} {d mark : Char}
    (hjoins : state.Joins begun next) (hmark : mark ∈ [';', '}']) (hd : isBlank d = false)
    (hplain : EndsPlain (d :: text)) :
    step ⟨next, {}, d :: text⟩ mark = step ⟨state, {}, begun ++ ' ' :: d :: text⟩ mark := by
  rw [step_mark hmark rfl, step_mark hmark rfl]
  simp only [List.mem_cons, List.not_mem_nil, or_false] at hmark
  obtain rfl | rfl := hmark
  · have hend : EndsPlain (d :: (text ++ [';'])) := by
      rw [← List.cons_append]
      exact (endsPlain_concat (by decide)).mpr (by decide)
    have h := hjoins d (text ++ [';']) hd hend
    rw [if_neg (by decide), if_neg (by decide)]
    simp only [List.append_assoc, List.cons_append, h]
  · rw [if_pos rfl, if_pos rfl, endLine, endLine, hjoins d text hd hplain]

/-- From the break on, a reader that has come to a new line and one that has read a blank instead
    feed their machines with the same words. -/
theorem read_after_break {state next : Flattener} {begun : List Char}
    (hjoins : state.Joins begun next) {text rest : List Char} {mark : Char}
    (hmark : mark ∈ [';', '}']) (hrest : SegmentRest place rest)
    (hplain : Braceless ⟨next, place, text⟩ place)
    (hhead : ∃ d tail, text ++ rest = d :: tail ∧ isBlank d = false) :
    read ⟨next, place, text⟩ (rest ++ [mark]) =
      read ⟨state, place, begun ++ ' ' :: text⟩ (rest ++ [mark]) := by
  obtain ⟨d, tail, htext, hd⟩ := hhead
  induction rest generalizing place text with
  | nil =>
    obtain rfl : place = {} := hrest
    rw [List.append_nil] at htext
    subst htext
    exact step_mark_joined hjoins hmark hd (hplain rfl)
  | cons c rest ih =>
    by_cases hc : c = '\n'
    · subst hc
      -- The word that the text begins with has been read already.
      cases text with
      | nil =>
        obtain rfl := (List.cons.inj htext).1
        cases hd
      | cons e text =>
        obtain rfl := (List.cons.inj htext).1
        have h := hjoins e text hd (hplain (hrest.2.1 rfl))
        rw [List.cons_append, read_cons, read_cons, step_newline, step_newline, endLine, endLine, h]
    · have hends : ∀ machine begun, ¬ Ends ⟨machine, place, begun⟩ c := by
        rintro machine begun hends
        obtain ⟨hquote, rfl⟩ := hends.eq_semicolon (Place.le_refl _) hrest.1
        have hzero : place.depth = 0 := congrArg Place.depth hends.2.1
        exact absurd (by decide) ((hrest.1 hquote).2 hzero)
      have hplain' := hplain.step hrest
      rw [step_of_not_ends hc (hends _ _)] at hplain'
      have h := @ih (place.after c) (text ++ [c]) hrest.2.2 hplain' (by simpa using htext)
      rw [List.cons_append, read_cons, read_cons, step_of_not_ends hc (hends _ _),
        step_of_not_ends hc (hends _ _)]
      simpa using h

/-- The two ways over a break within a value come together where the value ends. -/
theorem AfterWord.read_break (h : reader.AfterWord) {more : List Char} {mark : Char}
    (hmore : SegmentRest {} more) (hhead : ∃ d tail, more = d :: tail ∧ isBlank d = false)
    (hmark : mark ∈ [';', '}']) :
    reader.read ('\n' :: (more ++ [mark])) = reader.read (' ' :: (more ++ [mark])) := by
  have hends : ¬ reader.Ends ' ' := fun hends => absurd hends.1 (by decide)
  have hstep : reader.step ' ' = ⟨reader.machine, {}, reader.begun ++ [' ']⟩ := by
    rw [step_of_not_ends (by decide) hends, Place.after_of_isBlank _ rfl,
      Place.eq_of_le_start h.inValue.place_le]
  rw [read_cons, read_cons, step_newline, hstep]
  exact read_after_break h.joins hmark hmore (fun _ => endsPlain_nil) hhead

/-- The reader comes into a value with the colon. -/
theorem Between.inValue (h : reader.Between) {property : List Char}
    (hname : Flattener.isPropertyName (trim property) = true) (hline : '\n' ∉ property) :
    (reader.read (property ++ [':'])).InValue {} ∧
      (reader.read (property ++ [':'])).Braceless {} := by
  have hcolon : Passes .outside 0 [':'] .outside 0 := .cons (fun _ _ => by decide) .nil
  have hpasses := (passes_of_isPropertyName hname).append hcolon
  obtain ⟨machine, place, begun⟩ := reader
  obtain ⟨rfl, hblank, hresumable⟩ := h
  dsimp only at hblank hresumable
  rw [show ({} : Place) = ⟨.outside, 0⟩ from rfl, read_of_passes hpasses (by simpa using hline)]
  constructor
  · cases hunfinished : machine.unfinished with
    | none =>
      refine @InValue.begins _ _ (begun ++ property) [] hunfinished ?_ ?_ (Place.goesOn_nil _)
        rfl rfl
      · rwa [trim_append_of_allBlank_left hblank]
      · simp [declarationText]
    | some u =>
      obtain ⟨hgoes, hclosed⟩ := hresumable u hunfinished
      have hall : Passes .outside 0 (' ' :: (begun ++ (property ++ [':']))) .outside 0 :=
        (@passes_of_allBlank .outside 0 [' '] rfl).append
          ((passes_of_allBlank hblank).append hpasses)
      obtain ⟨htext, hle⟩ := hgoes.append_of_passes hclosed hall
      exact .continues hunfinished htext hle (Place.le_refl _)
  · intro _
    rw [← List.append_assoc]
    exact (endsPlain_concat (by decide)).mpr (by decide)

/-- The run over a sheet up to a word of a value. -/
theorem afterWord_read {sheet property front : List Char} {c : Char} (hsheet : Sections sheet)
    (hname : Flattener.isPropertyName (trim property) = true) (hline : '\n' ∉ property)
    (hvalue : SegmentRest {} (front ++ [c])) (hc : isBlank c = false) :
    (read {} (sheet ++ declarationText property (front ++ [c]))).AfterWord := by
  have hstart : Between {} := between_start (Flattener.resumable_of_eq_none rfl)
  obtain ⟨hin, hbraceless⟩ := (hstart.read hsheet).inValue hname hline
  obtain ⟨hin, hbraceless⟩ := hin.read hbraceless hvalue
  have htext : sheet ++ declarationText property (front ++ [c]) =
      sheet ++ (property ++ [':'] ++ (front ++ [c])) := by
    simp [declarationText]
  rw [htext, read_append, read_append]
  refine ⟨hin, hbraceless rfl, fun d hd => ?_⟩
  rw [read_append, read_cons, read_nil] at hd
  obtain hbegun | hbegun := begun_step _ c
  · rw [hbegun, List.getLast?_concat] at hd
    exact Option.some.inj hd ▸ hc
  · rw [hbegun] at hd
    cases hd

end Reader

/-! ## Sheets with comments -/

/-- A space is missing between the two texts that would separate two words of the value of a
    declaration, outside quotes, parentheses and comments. Before the declaration any sheet may
    stand, and after its end anything. Lines end with line feeds. -/
inductive BreaksValue : List Char → List Char → Prop where
  | intro {sheet property value more before rest : List Char} {mark : Char} (tail : List Char) :
      Sections sheet → Flattener.isPropertyName (trim property) = true → '\n' ∉ property →
      SegmentRest {} value → (∃ c ∈ value.getLast?, isBlank c = false) →
      SegmentRest {} more → (∃ c ∈ more.head?, isBlank c = false) → mark ∈ [';', '}'] →
      Commented .outside '\n' (sheet ++ declarationText property value) before →
      Commented .outside ' ' (more ++ [mark]) rest →
      BreaksValue before (rest ++ tail)

/-- Outside quotes a blank or a line break is read as itself, also between slashes. -/
private theorem uncommented_gap {gap : Char} (hgap : gap ∈ ['\n', ' ']) (text : List Char) :
    (∀ c ∈ slashPartners, keptHead? (gap :: text) ≠ some c) ∧
      ∀ afterColon, uncommented .outside afterColon (gap :: text) =
        gap :: uncommented .outside false text := by
  simp only [List.mem_cons, List.not_mem_nil, or_false] at hgap
  obtain rfl | rfl := hgap
  · refine ⟨fun c _ => ?_, fun _ => uncommented_newline text⟩
    rw [keptHead?_newline]
    simp
  · constructor
    · rw [keptHead?_cons (by decide) (fun h => absurd h (by decide))]
      simp [slashPartners]
    · intro afterColon
      exact uncommented_cons (by decide) (fun h => absurd h (by decide))
        (fun h => absurd h (by decide))

/-- The text before the break ends with a word or a comment. -/
theorem BreaksValue.getLast?_ne {before after : List Char} (h : BreaksValue before after) :
    before.getLast? ≠ some '\r' := by
  obtain ⟨tail, _, _, _, _, ⟨c, hlast, hc⟩, _, _, _, hbefore, _⟩ := h
  intro hreturn
  have hcode := hbefore.getLast?_of_return hreturn
  rw [declarationText, List.getLast?_append, List.getLast?_append, List.getLast?_cons,
    Option.mem_def.mp hlast] at hcode
  obtain rfl : c = '\r' := Option.some.inj hcode
  exact absurd hc (by decide)

/-- The reader comes to the same end with a line break between the texts as with a space. -/
theorem BreaksValue.read_eq {before after : List Char} (h : BreaksValue before after) :
    Reader.read {} (uncommented .outside false (before ++ '\n' :: after)) =
      Reader.read {} (uncommented .outside false (before ++ ' ' :: after)) := by
  obtain ⟨tail, hsheet, hname, hline, hvalue, ⟨c, hlast, hc⟩, hmore, ⟨d, hhead, hd⟩, hmark, hbefore,
    hrest⟩ := h
  rename_i sheet property value more rest mark
  obtain ⟨front, rfl⟩ := List.getLast?_eq_some_iff.mp hlast
  obtain ⟨next, rfl⟩ := List.head?_eq_some_iff.mp hhead
  have hword := Reader.afterWord_read hsheet hname hline hvalue hc
  have hclosed : QuotesClosed (sheet ++ declarationText property (front ++ [c])) := by
    have hcolon : QuotesClosed [':'] := rfl
    have hproperty := quotesClosed_of_passes (passes_of_isPropertyName hname)
    exact (hsheet.quotesClosed.append_iff).mpr ((hproperty.append_iff).mpr
      ((hcolon.append_iff).mpr hvalue.quotesClosed))
  generalize sheet ++ declarationText property (front ++ [c]) = code at hword hclosed hbefore
  obtain ⟨others, hothers⟩ : ∃ others,
      uncommented .outside false (rest ++ tail) = d :: next ++ [mark] ++ others := by
    refine ⟨_, hrest.uncommented_append fun hslash => ?_⟩
    rw [List.getLast?_concat] at hslash
    obtain rfl : mark = '/' := hslash
    simp at hmark
  have hcode : ∀ gap ∈ ['\n', ' '],
      uncommented .outside false (before ++ gap :: (rest ++ tail)) =
        code ++ (gap :: (d :: next ++ [mark]) ++ others) := by
    intro gap hgap
    obtain ⟨hpartners, hread⟩ := uncommented_gap hgap (rest ++ tail)
    have h := hbefore.uncommented_append fun _ => hpartners
    rw [show code.foldl Quote.after .outside = .outside from hclosed, hread, hothers] at h
    exact h
  rw [hcode '\n' (by decide), hcode ' ' (by decide), Reader.read_append, Reader.read_append,
    Reader.read_append, Reader.read_append, hword.read_break hmore ⟨d, next, rfl, hd⟩ hmark]

/-- A line break in place of a space between two words of a value makes no difference. -/
theorem flatten_lineBreak {before after lineBreak : List Char}
    (h : BreaksValue (unixLines before) (unixLines after))
    (hbreak : lineBreak ∈ [['\n'], ['\r', '\n']]) :
    flatten (String.ofList (before ++ lineBreak ++ after)) =
      flatten (String.ofList (before ++ ' ' :: after)) := by
  have hlines : unixLines (before ++ lineBreak ++ after) =
      unixLines before ++ '\n' :: unixLines after := by
    simp only [List.mem_cons, List.not_mem_nil, or_false] at hbreak
    obtain rfl | rfl := hbreak
    · have hreturn : before.getLast? ≠ some '\r' := by
        intro hlast
        obtain ⟨front, rfl⟩ := List.getLast?_eq_some_iff.mp hlast
        apply h.getLast?_ne
        rw [unixLines_append_of_head? fun _ => by simp]
        exact List.getLast?_concat
      rw [List.append_assoc, unixLines_append_of_head? fun h => absurd h hreturn]
      rfl
    · rw [List.append_assoc, unixLines_append_of_head? fun _ => by simp]
      rfl
  have hspace : unixLines (before ++ ' ' :: after) =
      unixLines before ++ ' ' :: unixLines after := by
    rw [unixLines_append_of_head? fun _ => by simp]
    rfl
  rw [Reader.flatten_eq_finish, Reader.flatten_eq_finish, String.toList_ofList,
    String.toList_ofList, hlines, hspace, h.read_eq]

/-- A margin that breaks inside a block, after a comment. -/
theorem flatten_lineBreak_margin :
    BreaksValue (unixLines "/* card */.card\x7b margin: 1px".toList) (unixLines "2px;\x7d".toList) ∧
      ['\r', '\n'] ∈ [['\n'], ['\r', '\n']] ∧
      flatten (String.ofList ("/* card */.card\x7b margin: 1px".toList ++ ['\r', '\n'] ++
        "2px;\x7d".toList)) =
      flatten (String.ofList ("/* card */.card\x7b margin: 1px".toList ++ ' ' ::
        "2px;\x7d".toList)) := by
  have h : BreaksValue (unixLines "/* card */.card\x7b margin: 1px".toList)
      (unixLines "2px;\x7d".toList) := by
    refine @BreaksValue.intro ".card\x7b ".toList "margin".toList " 1px".toList "2px".toList _
      "2px;".toList ';' ['}'] ?_ (by decide) (by decide) (by decide) ⟨'x', by decide, by decide⟩
      (by decide) ⟨'2', by decide, by decide⟩ (by decide) ?_ (.of_all ' ' (by decide))
    · exact @Sections.segment ".card".toList _ '{' (by decide) (by decide) (by decide)
        (.blank (by decide) .nil)
    · exact @Commented.block _ _ " card ".toList _ _ (by decide) (by decide)
        (.of_all '\n' (by decide))
  exact ⟨h, by decide, flatten_lineBreak h (by decide)⟩

/-- In a list of selectors a line break loses those before it, and if the first of them looks like a
    declaration, the list becomes the value of one. After a name that no property can have, what
    follows a break is read as a declaration. Of two blanks one is lost at a break. -/
theorem flatten_selectors_break :
    flatten ".a,\n.b\x7bcolor:red;\x7d" ≠ flatten ".a, .b\x7bcolor:red;\x7d" ∧
      flatten ".p\x7ba:hover,\na:focus\x7bcolor:red;\x7dmargin:1px;\x7d" ≠
        flatten ".p\x7ba:hover, a:focus\x7bcolor:red;\x7dmargin:1px;\x7d" ∧
      flatten ".a\x7b$x: b\nc:d;\x7d" ≠ flatten ".a\x7b$x: b c:d;\x7d" ∧
      flatten ".a\x7bmargin:1px \n2px;\x7d" ≠ flatten ".a\x7bmargin:1px  2px;\x7d" := by
  refine ⟨?_, ?_, ?_, ?_⟩ <;> decide +kernel

end DesignCompiler.Stylesheet
