import DesignCompiler.Proofs.Stylesheet.LineBreaks

/-!
# Interpolations in values

The brace that opens an interpolation opens no block, but the one that closes it closes the block
around the declaration. The value ends there, and what follows it in the block goes to the block
outside, whose own closing brace closes the next one.
-/

namespace DesignCompiler.Stylesheet

open Text

/-! ## Texts laid out before a text -/

/-- Blanks before a segment do not belong to it. -/
theorem endedSegments_append_of_allBlank {blanks : List Char} (hblanks : allBlank blanks = true)
    (text : List Char) (mark : Char) :
    endedSegments (blanks ++ text) mark = endedSegments text mark := by
  rw [endedSegments, endedSegments, allBlank_append, hblanks, Bool.true_and, List.append_assoc,
    trim_append_of_allBlank_left hblanks, trim_append_of_allBlank_left hblanks]

/-- A reader feeds the machine with the segments that a text is laid out as. -/
theorem Laid.read {segments : List (List Char)} {text : List Char} (htext : Laid segments text)
    (machine : Flattener) {begun : List Char} (hbegun : allBlank begun = true) :
    ∃ blanks, allBlank blanks = true ∧ Reader.read ⟨machine, {}, begun⟩ text =
      ⟨segments.foldl Flattener.feed machine, {}, blanks⟩ := by
  induction htext generalizing machine begun with
  | nil => exact ⟨begun, hbegun, rfl⟩
  | @blank segments c text hblank _ ih =>
    rw [Reader.read_cons]
    by_cases hbreak : c = '\n'
    · subst hbreak
      rw [Reader.step_newline, Reader.endLine, Flattener.feedText_of_allBlank hbegun]
      exact ih machine rfl
    · have hends : ¬ Reader.Ends ⟨machine, {}, begun⟩ c := by
        rintro ⟨hmark, -, -⟩
        simp [segmentMarks, ne_of_isBlank hblank '{', ne_of_isBlank hblank '}',
          ne_of_isBlank hblank ';'] at hmark
      rw [Reader.step_of_not_ends hbreak hends, Place.after_of_isBlank _ hblank]
      exact ih machine (by simpa [allBlank, hblank] using hbegun)
  | @segment segments front text mark hfront hmark hhash _ ih =>
    have hends : Reader.Ends ⟨machine, {}, begun ++ front⟩ mark := by
      refine ⟨hmark, rfl, fun hbrace => ?_⟩
      rw [getLast?_trimEnd_append_of_allBlank hbegun]
      exact hhash hbrace
    have hbreak : mark ≠ '\n' := ne_of_mem_segmentMarks hmark '\n'
    rw [Reader.read_append, Reader.read_of_passes hfront.passes hfront.singleLine, Reader.read_cons,
      Reader.foldl_feed_endedSegments hbreak hends, endedSegments_append_of_allBlank hbegun,
      List.foldl_append]
    exact ih _ rfl

/-- A single segment is read as it is if no comment begins where it ends. -/
theorem SingleSegment.uncommented_append {text rest : List Char} {c : Char}
    (htext : SingleSegment text) (hbreak : c ≠ '\n') (hslash : c ≠ '/') (hstar : c ≠ '*') :
    uncommented .outside false (text ++ c :: rest) =
      text ++ c :: uncommented (Quote.after .outside c) (c == ':') rest := by
  have hcommented : Commented .outside '\n' text text := by
    refine commented_self htext.singleLine htext.noBlockComment fun before after heq hquote => ?_
    rw [htext.noLineComment before after heq hquote]
    rfl
  have hhead : keptHead? (c :: rest) = some c := keptHead?_cons hbreak fun h => absurd h hslash
  have h := @Commented.uncommented_append _ _ _ _ (c :: rest) hcommented fun _ d hd => by
    rw [hhead]
    rintro ⟨rfl⟩
    simp [slashPartners, hslash, hstar] at hd
  rw [show ('\n' == ':') = false from rfl, htext.passes.foldl_after] at h
  rw [h, uncommented_cons hbreak (fun h => absurd h hslash) (fun h => absurd h hslash)]

/-- Before whatever comes after it a laid out text is its own code. -/
theorem Laid.uncommented_append {segments : List (List Char)} {text : List Char}
    (htext : Laid segments text) (rest : List Char) :
    uncommented .outside false (text ++ rest) = text ++ uncommented .outside false rest := by
  induction htext with
  | nil => rfl
  | @blank segments c text hblank _ ih =>
    rw [List.cons_append, List.cons_append]
    by_cases hbreak : c = '\n'
    · subst hbreak
      rw [uncommented_newline, ih]
    · have hslash : c ≠ '/' := ne_of_isBlank hblank '/'
      have hquote : Quote.after .outside c = .outside := by
        simp [Quote.after, ne_of_isBlank hblank '\'', ne_of_isBlank hblank '"']
      have hcolon : (c == ':') = false := by simpa using ne_of_isBlank hblank ':'
      rw [uncommented_cons hbreak (fun h => absurd h hslash) (fun h => absurd h hslash), hquote,
        hcolon, ih]
  | @segment segments front text mark hfront hmark _ _ ih =>
    have hquote : Quote.after .outside mark = .outside := quotesClosed_of_mem_segmentMarks hmark
    have hcolon : (mark == ':') = false := by simpa using ne_of_mem_segmentMarks hmark ':'
    rw [List.append_assoc, List.cons_append,
      hfront.uncommented_append (ne_of_mem_segmentMarks hmark '\n')
        (ne_of_mem_segmentMarks hmark '/') (ne_of_mem_segmentMarks hmark '*'), hquote, hcolon, ih,
      List.append_assoc, List.cons_append]

/-! ## Interpolations -/

/-- An interpolation of a text. -/
def interpolation (inner : List Char) : List Char := ['#', '{'] ++ inner ++ ['}']

/-- A value up to the brace that closes an interpolation in it. -/
def cutValue (front inner : List Char) : List Char := front ++ ['#', '{'] ++ inner

theorem declarationText_cutValue (property front inner : List Char) :
    declarationText property (cutValue front inner) =
      cutValue (declarationText property front) inner := by
  simp [declarationText, cutValue]

/-- What an interpolation may hold here: something, without the characters that scanners heed. -/
structure Interpolates (inner : List Char) : Prop where
  not_blank : allBlank inner = false
  plain : ∀ c ∈ inner, c ∉ heededMarks

namespace Interpolates

variable {inner : List Char}

theorem of_all (hblank : allBlank inner = false)
    (hplain : inner.all (!heededMarks.contains ·) = true) : Interpolates inner :=
  ⟨hblank, by simpa using hplain⟩

variable (h : Interpolates inner)

include h

theorem singleSegment : SingleSegment inner :=
  .of_all (by simpa using h.plain)

/-- A value that an interpolation cuts ends with none of the marks that scanners heed. -/
theorem exists_getLast? (front : List Char) :
    ∃ c, (trim (cutValue front inner)).getLast? = some c ∧ c ∉ heededMarks := by
  have hne : trim inner ≠ [] := by
    rw [ne_eq, trim_eq_nil_iff, h.not_blank]
    exact Bool.false_ne_true
  have hlast := List.getLast?_eq_some_getLast hne
  refine ⟨_, ?_, h.plain _ (mem_of_mem_dropEnds (List.getLast_mem hne))⟩
  rw [getLast?_trim] at hlast ⊢
  exact getLast?_trimEnd_of_suffix (List.suffix_append _ inner) hlast

end Interpolates

namespace Flattener

variable {state : Flattener} {property front inner : List Char}

/-- The declaration that the brace at the end of an interpolation cuts short, and the block around
    it closed. -/
theorem feedText_cut (hnone : state.unfinished = none) (hinner : Interpolates inner)
    (hcolon : ':' ∉ property)
    (hfront : Passes .outside 0 (declarationText property front) .outside 0) :
    (state.feedText (declarationText property (cutValue front inner))).feed ['}'] =
      (state.declareItem property (cutValue front inner)).closeBlock := by
  have hplain : EndsPlain (declarationText property (cutValue front inner)) := by
    obtain ⟨last, hlast, hfree⟩ := hinner.exists_getLast? (declarationText property front)
    rw [declarationText_cutValue]
    intro c hc hbrace
    obtain rfl : last = c := Option.some.inj (hlast.symm.trans hc)
    simp only [List.mem_cons, List.not_mem_nil, or_false] at hbrace
    obtain rfl | rfl := hbrace <;> exact hfree (by decide)
  by_cases hname : isPropertyName (trim property) = true
  · have hgoes : Place.GoesOn {} (trim (cutValue front inner)) := by
      have hbefore : Passes .outside 0 (property ++ [':']) .outside 0 :=
        (passes_of_isPropertyName hname).append (.cons (fun _ _ => by decide) .nil)
      have hvalue : Passes .outside 0 front .outside 0 := by
        refine hbefore.drop ?_
        simpa [declarationText] using hfront
      have hpast : Place.past {} (front ++ ['#', '{']) = {} := by
        rw [Place.past_append, Place.past_of_passes hvalue]
        rfl
      rw [Place.goesOn_trim_iff, cutValue, Place.goesOn_append_iff, Place.goesOn_append_iff, hpast,
        Place.past_of_passes hvalue]
      exact ⟨⟨@Place.goesOn_of_passes {} {} _ hvalue, rfl⟩,
        @Place.goesOn_of_passes {} {} _ hinner.singleSegment.passes⟩
    have hcut : Declaration.ofText (trim property) (trim (cutValue front inner)) =
        ⟨String.ofList (trim property), String.ofList (trim (cutValue front inner))⟩ := by
      obtain ⟨last, hlast, hfree⟩ := hinner.exists_getLast? front
      obtain ⟨value, hvalue⟩ := List.getLast?_eq_some_iff.mp hlast
      apply ofText_trim_of_unterminated
      rw [hvalue, dropEnd?_singleton_concat, if_neg]
      rintro rfl
      exact hfree (by decide)
    rw [feedText_declarationText hnone hname hplain, value_of_goesOn hgoes,
      declareItem_of_name hname, feed]
    simp only [beq_self_eq_true, if_true, hcut]
    cases hblocks : state.blocks <;> simp [declare, closeBlock, hblocks]
  · have hblank : ¬ allBlank (declarationText property (cutValue front inner)) = true := by
      simp [declarationText, allBlank, show isBlank ':' = false by decide]
    have hopen := hplain.dropEnd?_eq_none
    rw [trim_declarationText] at hopen
    rw [feedText_of_not_allBlank hblank, trim_declarationText,
      feed_declarationText hnone (mt mem_of_mem_trimStart hcolon) hopen, trim_trimStart,
      if_neg hname, declareItem_of_not_name hname, feed_closing hnone]

end Flattener

/-! ## Reading an interpolation -/

/-- The brace that opens an interpolation ends no segment, but the one that closes it does. -/
theorem Reader.read_interpolation (machine : Flattener) {begun front inner : List Char}
    (hbegun : allBlank begun = true) (hfront : SingleSegment front) (hinner : SingleSegment inner) :
    Reader.read ⟨machine, {}, begun⟩ (front ++ interpolation inner) =
      { machine := (machine.feedText (cutValue front inner)).feed ['}'] } := by
  have hhash : Passes .outside 0 (front ++ ['#']) .outside 0 :=
    hfront.passes.append (.cons (fun _ _ => by decide) .nil)
  have hline : '\n' ∉ front ++ ['#'] := by simp [hfront.singleLine]
  have hopen : ¬ Ends ⟨machine, {}, begun ++ (front ++ ['#'])⟩ '{' := by
    rintro ⟨-, -, hlast⟩
    apply hlast rfl
    rw [← List.append_assoc, trimEnd_of_getLast (by decide), List.getLast?_concat]
  have hclose : ∀ text, Ends ⟨machine, {}, text⟩ '}' := fun text =>
    ⟨by decide, rfl, fun h => absurd h (by decide)⟩
  have htext : front ++ interpolation inner = front ++ ['#'] ++ '{' :: (inner ++ ['}']) := by
    simp [interpolation]
  have hsegment : begun ++ (front ++ ['#']) ++ ['{'] ++ inner = begun ++ cutValue front inner := by
    simp [cutValue]
  rw [htext, read_append, read_of_passes hhash hline, read_cons,
    step_of_not_ends (by decide) hopen, read_append]
  rw [show Place.after {} '{' = {} from rfl, read_of_passes hinner.passes hinner.singleLine,
    hsegment, read_cons, read_nil, step, if_neg (by decide), if_pos (hclose _), if_pos rfl, endLine,
    Flattener.feedText_append_of_allBlank hbegun]

theorem uncommented_interpolation {front inner : List Char} (hfront : SingleSegment front)
    (hinner : SingleSegment inner) (rest : List Char) :
    uncommented .outside false (front ++ (interpolation inner ++ rest)) =
      front ++ (interpolation inner ++ uncommented .outside false rest) := by
  have htext : ∀ rest, interpolation inner ++ rest = '#' :: '{' :: (inner ++ '}' :: rest) := by
    simp [interpolation]
  rw [htext, htext, hfront.uncommented_append (by decide) (by decide) (by decide),
    uncommented_cons (by decide) (fun h => absurd h (by decide)) (fun h => absurd h (by decide))]
  rw [show Quote.after (Quote.after .outside '#') '{' = .outside from rfl,
    show ('{' == ':') = false from rfl,
    hinner.uncommented_append (by decide) (by decide) (by decide)]
  rfl

/-- Flattening a text with an interpolation between two laid out texts. -/
theorem flatten_between {before after front inner : List Char} {first last : List (List Char)}
    (hbefore : Laid first before) (hafter : Laid last after) (hfront : SingleSegment front)
    (hne : front ≠ []) (hinner : SingleSegment inner) :
    flatten (String.ofList (before ++ (front ++ (interpolation inner ++ after)))) =
      (last.foldl Flattener.feed (((first.foldl Flattener.feed {}).feedText
        (cutValue front inner)).feed ['}'])).finish := by
  have hhead : (front ++ (interpolation inner ++ after)).head? ≠ some '\n' := by
    obtain ⟨c, tail, rfl⟩ := List.exists_cons_of_ne_nil hne
    intro h
    exact hfront.singleLine (Option.some.inj h ▸ List.mem_cons_self)
  have hline : '\n' ∉ cutValue front inner := by
    simp [cutValue, hfront.singleLine, hinner.singleLine]
  have htext : ∀ after, front ++ (interpolation inner ++ after) =
      cutValue front inner ++ '}' :: after := by simp [interpolation, cutValue]
  have hunix : unixLines (before ++ (front ++ (interpolation inner ++ after))) =
      unixLines before ++ (front ++ (interpolation inner ++ unixLines after)) := by
    rw [unixLines_append_of_head? fun _ => hhead, htext,
      unixLines_append hline (by decide) (by decide), htext]
  have hcode : uncommented .outside false (unixLines after) = unixLines after := by
    have h := hafter.unixLines.uncommented_append []
    rwa [List.append_nil, uncommented_nil, List.append_nil] at h
  have hempty : allBlank [] = true := rfl
  obtain ⟨blanks, hblanks, hread⟩ := hbefore.unixLines.read {} hempty
  obtain ⟨rest, hrest, hend⟩ := hafter.unixLines.read
    (((first.foldl Flattener.feed {}).feedText (cutValue front inner)).feed ['}']) hempty
  rw [Reader.flatten_eq_finish, String.toList_ofList, hunix, hbefore.unixLines.uncommented_append,
    uncommented_interpolation hfront hinner, hcode, Reader.read_append, hread, ← List.append_assoc,
    Reader.read_append, Reader.read_interpolation _ hblanks hfront hinner, hend, Reader.endLine,
    Flattener.feedText_of_allBlank hrest]

/-! ## Parts of segments -/

theorem SingleSegment.of_append_left {front back : List Char} (h : SingleSegment (front ++ back))
    (hfront : Balanced segmentMarks front) : SingleSegment front where
  singleLine := fun hmem => h.singleLine (List.mem_append_left _ hmem)
  balanced := hfront
  noBlockComment := fun hmark => h.noBlockComment (hmark.trans (List.prefix_append _ _).isInfix)
  noLineComment := by
    rintro before after rfl
    exact h.noLineComment before (after ++ back) (by simp)

theorem SingleSegment.of_append_right {front back : List Char} (h : SingleSegment (front ++ back))
    (hfront : QuotesClosed front) (hback : Balanced segmentMarks back)
    (hcomment : ¬ ['/', '/'] <+: back) : SingleSegment back where
  singleLine := fun hmem => h.singleLine (List.mem_append_right _ hmem)
  balanced := hback
  noBlockComment := fun hmark => h.noBlockComment (hmark.trans (List.suffix_append _ _).isInfix)
  noLineComment := by
    rintro before after rfl hquote
    have hwhole := h.noLineComment (front ++ before) after (by simp) (by
      rw [List.foldl_append, hfront]
      exact hquote)
    cases before with
    | nil => exact absurd (List.prefix_append ['/', '/'] after) hcomment
    | cons c before =>
      rwa [List.getLast?_append_of_ne_nil _ (List.cons_ne_nil _ _)] at hwhole

/-- A word of a value outside quotes and parentheses: it is balanced, and so is what stands before
    and after it. No comment begins there if the word is taken out. -/
structure IsWord (property front word back : List Char) : Prop where
  balanced_front : Balanced segmentMarks (declarationText property front)
  balanced_word : Balanced segmentMarks word
  balanced_back : Balanced segmentMarks back
  not_comment : ¬ ['/', '/'] <+: back

namespace IsWord

variable {property front word back : List Char} (h : IsWord property front word back)
  (hsegment : SingleSegment (declarationText property (front ++ word ++ back)))

include h hsegment

theorem singleSegment_front : SingleSegment (declarationText property front) := by
  have htext : declarationText property (front ++ word ++ back) =
      declarationText property front ++ (word ++ back) := by simp [declarationText]
  rw [htext] at hsegment
  exact hsegment.of_append_left h.balanced_front

theorem singleSegment_back : SingleSegment back := by
  have htext : declarationText property (front ++ word ++ back) =
      declarationText property front ++ word ++ back := by simp [declarationText]
  have hclosed : QuotesClosed (declarationText property front ++ word) :=
    quotesClosed_of_passes ((h.balanced_front.passes 0 fun _ => rfl).append
      (h.balanced_word.passes 0 fun _ => rfl))
  rw [htext] at hsegment
  exact hsegment.of_append_right hclosed h.balanced_back h.not_comment

end IsWord

/-! ## Items that are cut short -/

namespace Flattener

variable {state : Flattener} {outer : List (List Char)}

theorem after_append (front back : List Item) :
    (state.after outer front).after outer back = state.after outer (front ++ back) := by
  obtain ⟨blocks, unfinished, rules⟩ := state
  cases blocks <;>
    simp only [after, ownDeclarations, List.filterMap_append, rulesOfItems_append,
      List.append_assoc]

theorem InScope.after (hscope : state.InScope outer) (items : List Item) :
    (state.after outer items).InScope outer := by
  obtain ⟨blocks, unfinished, rules⟩ := state
  cases blocks with
  | nil => exact ⟨rfl, hscope.scope_eq⟩
  | cons block rest => exact ⟨rfl, hscope.scope_eq⟩

theorem after_declaration (property value : List Char) (items : List Item)
    (hscope : state.InScope outer) :
    (state.after outer items).declareItem property value =
      state.after outer (items ++ [.declaration property value]) := by
  rw [← after_append, ← after_declareItem, ((hscope.after items).declareItem _ _).after_nil]

/-- A segment without a colon has no effect unless it opens or closes a block. -/
theorem feedText_of_not_mem (hnone : state.unfinished = none) {text : List Char}
    (hplain : EndsPlain text) (hcolon : ':' ∉ text) : state.feedText text = state := by
  by_cases hblank : allBlank text = true
  · exact feedText_of_allBlank hblank
  · have hcut : cutAt? (· == ':') (trim text) = none :=
      cutAt?_of_not_mem (mt mem_of_mem_dropEnds hcolon)
    rw [feedText_of_not_allBlank hblank, feed, hnone]
    simp [hplain.dropEnd?_eq_none, hplain.trim_ne, hcut]

end Flattener

theorem SingleSegment.endsPlain {text : List Char} (h : SingleSegment text) : EndsPlain text := by
  obtain ⟨front, hfront, hblank⟩ := exists_eq_append_trimStart text
  have hpasses := h.passes
  rw [hfront] at hpasses
  have htrim := passes_trim ((passes_of_allBlank hblank).drop hpasses)
  intro c hc hbrace
  obtain ⟨start, hstart⟩ := List.getLast?_eq_some_iff.mp hc
  rw [hstart] at htrim
  simp only [List.mem_cons, List.not_mem_nil, or_false] at hbrace
  obtain rfl | rfl := hbrace <;> exact htrim.last_not_mem (by decide)

/-- What follows a declaration in print, and the items in it. -/
inductive Ending : (inBlock : Bool) → List Item → List Char → Prop where
  | brace : Ending true [] ['}']
  | semicolon {inBlock : Bool} {items : List Item} {text : List Char} (gap : List Char) :
      allBlank gap = true → Printed inBlock items text →
      Ending inBlock items (';' :: gap ++ text)

theorem printed_declaration_iff {inBlock : Bool} {property value text : List Char}
    {items : List Item} : Printed inBlock (.declaration property value :: items) text ↔
      ∃ tail, text = declarationText property value ++ tail ∧ Ending inBlock items tail := by
  constructor
  · intro hprinted
    cases hprinted with
    | last => exact ⟨_, rfl, .brace⟩
    | declaration gap hgap hrest => exact ⟨_, by simp, .semicolon gap hgap hrest⟩
  · rintro ⟨tail, rfl, hending⟩
    cases hending with
    | brace => exact .last
    | semicolon gap hgap hrest =>
      have h : Printed _ (.declaration property value :: items) _ := .declaration gap hgap hrest
      simpa using h

theorem exists_printed_append {inBlock : Bool} {front back : List Item} {text : List Char}
    (hprinted : Printed inBlock (front ++ back) text) (hne : back ≠ []) :
    ∃ before after, text = before ++ after ∧ Printed false front before ∧
      Printed inBlock back after := by
  induction front generalizing text with
  | nil => exact ⟨[], text, rfl, .done, hprinted⟩
  | cons item front ih =>
    rw [List.cons_append] at hprinted
    generalize hitems : item :: (front ++ back) = items at hprinted
    cases hprinted with
    | done => cases hitems
    | close => cases hitems
    | last =>
      exact absurd (List.append_eq_nil_iff.mp (List.cons.inj hitems).2).2 hne
    | declaration gap hgap hrest =>
      obtain ⟨rfl, rfl⟩ := List.cons.inj hitems
      obtain ⟨before, after, rfl, hbefore, hafter⟩ := ih hrest
      exact ⟨_, after, by simp, .declaration gap hgap hbefore, hafter⟩
    | block gap outerGap hgap hbody houterGap hrest =>
      obtain ⟨rfl, rfl⟩ := List.cons.inj hitems
      obtain ⟨before, after, rfl, hbefore, hafter⟩ := ih hrest
      exact ⟨_, after, by simp, .block gap outerGap hgap hbody houterGap hbefore, hafter⟩

/-- What is left of a value behind an interpolation declares something if it holds a colon. -/
def strayItems (back : List Char) : List Item :=
  match cutAt? (· == ':') back with
  | none => []
  | some (property, value) => [.declaration property value]

/-- A text is laid out as segments in front of any laid out text. -/
def Lays (segments : List (List Char)) (text : List Char) : Prop :=
  ∀ others tail, Laid others tail → Laid (segments ++ others) (text ++ tail)

/-- What is left of a value, and what follows it in the block, is taken in as items of the block
    outside. -/
theorem Ending.exists_segments {inBlock : Bool} {items : List Item} {back tail : List Char}
    (hending : Ending inBlock items tail) (hback : SingleSegment back)
    (hitems : ∀ item ∈ items, item.WellFormed) :
    ∃ segments, Lays segments (back ++ tail) ∧
      ∀ (state : Flattener) outer, state.InScope outer → segments.foldl Flattener.feed state =
        if inBlock then (state.after outer (strayItems back ++ items)).closeBlock
        else state.after outer (strayItems back ++ items) := by
  by_cases hcolon : ':' ∈ back
  · obtain ⟨property, value, rfl, hproperty⟩ := List.eq_append_cons_of_mem hcolon
    have hstray : strayItems (property ++ ':' :: value) = [.declaration property value] := by
      rw [strayItems, cutAt?_append_mark hproperty]
    have hprinted : Printed inBlock (.declaration property value :: items)
        (declarationText property value ++ tail) :=
      printed_declaration_iff.mpr ⟨tail, rfl, hending⟩
    rw [hstray]
    exact hprinted.exists_segments
      (List.forall_mem_cons.mpr ⟨.declaration hproperty hback, hitems⟩)
  · have hstray : strayItems back = [] := by rw [strayItems, cutAt?_of_not_mem hcolon]
    rw [hstray, List.nil_append]
    cases hending with
    | brace =>
      refine ⟨endedSegments back '}', fun others tail h => ?_, fun state outer hscope => ?_⟩
      · have hlaid := Laid.segment '}' hback (by decide) (fun h => absurd h (by decide)) h
        simpa using hlaid
      · have hjunk := Flattener.feedText_of_not_mem hscope.finished hback.endsPlain hcolon
        have hrun : (endedSegments back '}').foldl Flattener.feed state =
            (state.feedText back).feed ['}'] := by
          rw [endedSegments, if_pos rfl, Flattener.feedText]
          split <;> rfl
        rw [if_pos rfl, hscope.after_nil, hrun, hjunk, Flattener.feed_closing hscope.finished]
    | @semicolon _ _ text gap hgap hrest =>
      obtain ⟨segments, hlaid, hrun⟩ := hrest.exists_segments hitems
      refine ⟨trim (back ++ [';']) :: segments, fun others tail h => ?_,
        fun state outer hscope => ?_⟩
      · have hlaid' := Laid.segment ';' hback (by decide)
          (fun h => absurd h (by decide)) ((hlaid others tail h).append_blanks hgap)
        simpa [endedSegments] using hlaid'
      · have hplain : EndsPlain (back ++ [';']) := (endsPlain_concat (by decide)).mpr (by decide)
        have hjunk := Flattener.feedText_of_not_mem hscope.finished hplain (by simpa using hcolon)
        have hblank : ¬ allBlank (back ++ [';']) = true := by
          simp [allBlank, show isBlank ';' = false by decide]
        rw [Flattener.feedText_of_not_allBlank hblank] at hjunk
        rw [List.foldl_cons, hjunk, hrun state outer hscope]

/-! ## Interrupted trees -/

/-- The place of an item in a tree. -/
inductive ItemContext where
  | here (before after : List Item)
  | inside (before : List Item) (selectors : List (List Char)) (context : ItemContext)
      (after : List Item)

namespace ItemContext

/-- The tree with an item at its place. -/
def fill : ItemContext → Item → List Item
  | here before after, item => before ++ item :: after
  | inside before selectors context after, item =>
    before ++ .block selectors (context.fill item) :: after

theorem wellFormed_of_fill (context : ItemContext) {item : Item}
    (hitems : ∀ other ∈ context.fill item, other.WellFormed) : item.WellFormed := by
  induction context with
  | here before after => exact hitems item (by simp [fill])
  | inside before selectors context after ih =>
    have hblock := hitems (.block selectors (context.fill item)) (by simp [fill])
    cases hblock with
    | block _ _ _ hbody => exact ih hbody

variable (cut : Item) (stray : List Item)

/-- What goes outside when the block around the item is closed right after it: what follows, up to
    the end of the block, and `stray` before it if that is where the item itself stands. -/
def expelled : ItemContext → List Item
  | here _ after => stray ++ after
  | inside _ _ _ after => after

/-- What stays in the block when the block around the item is closed right after it. -/
def kept : ItemContext → List Item
  | here before _ => before ++ [cut]
  | inside before selectors context _ =>
    before ++ .block selectors (context.kept) :: context.expelled stray

/-- The tree that is read when each block around the item ends where the block inside it should. -/
def interrupted (context : ItemContext) : List Item :=
  context.kept cut stray ++ context.expelled stray

end ItemContext

section Tree

variable {property front word back inner : List Char}

/-- A tree printed with an interpolation in a value: the texts before and after the declaration up
    to the interpolation are laid out as segments. The brace of the interpolation closes the block
    around the declaration, and the items after it go outside, to where the block is nested. -/
theorem ItemContext.exists_parts {context : ItemContext} {inBlock : Bool} {text : List Char}
    (hitems : ∀ item ∈ context.fill (.declaration property (front ++ word ++ back)),
      item.WellFormed)
    (hword : IsWord property front word back) (hinner : Interpolates inner)
    (hprinted : Printed inBlock
      (context.fill (.declaration property (front ++ interpolation inner ++ back))) text) :
    ∃ before after first last,
      text = before ++ (declarationText property front ++ (interpolation inner ++ after)) ∧
      Lays first before ∧ Lays last after ∧
      ∀ (state : Flattener) outer enclosing, state.InScope outer →
        (state.after outer (context.kept (.declaration property (cutValue front inner))
          (strayItems back))).closeBlock.InScope enclosing →
        last.foldl Flattener.feed (((first.foldl Flattener.feed state).feedText
            (declarationText property (cutValue front inner))).feed ['}']) =
          let closed := (state.after outer
            (context.kept (.declaration property (cutValue front inner))
              (strayItems back))).closeBlock.after enclosing (context.expelled (strayItems back))
          if inBlock then closed.closeBlock else closed := by
  induction context generalizing inBlock text with
  | here before after =>
    obtain ⟨start, rest, rfl, hstart, hrest⟩ :=
      exists_printed_append hprinted (List.cons_ne_nil _ _)
    obtain ⟨tail, rfl, hending⟩ := printed_declaration_iff.mp hrest
    rw [ItemContext.fill, List.forall_mem_append, List.forall_mem_cons] at hitems
    obtain ⟨hbefore, hitem, hafter⟩ := hitems
    obtain ⟨hcolon, hsegment⟩ := hitem
    obtain ⟨first, hfirst, hrunFirst⟩ := hstart.exists_segments hbefore
    obtain ⟨last, hlast, hrunLast⟩ :=
      hending.exists_segments (hword.singleSegment_back hsegment) hafter
    refine ⟨start, back ++ tail, first, last, by simp [declarationText], hfirst, hlast,
      fun state outer enclosing hscope hclosed => ?_⟩
    have hfront := (hword.singleSegment_front hsegment).passes
    rw [hrunFirst state outer hscope, if_neg Bool.false_ne_true,
      Flattener.feedText_cut (hscope.after before).finished hinner hcolon hfront,
      Flattener.after_declaration _ _ _ hscope]
    exact hrunLast _ enclosing hclosed
  | inside before selectors context after ih =>
    obtain ⟨start, rest, rfl, hstart, hrest⟩ :=
      exists_printed_append hprinted (List.cons_ne_nil _ _)
    rw [ItemContext.fill, List.forall_mem_append, List.forall_mem_cons] at hitems
    obtain ⟨hbefore, hitem, hafter⟩ := hitems
    cases hrest with
    | @block _ _ _ _ bodyText text gap outerGap hgap hbody houterGap hrest =>
      cases hitem with
      | block hcomma hsegment hhash hinside =>
        obtain ⟨bodyStart, bodyRest, opening, closing, rfl, hopening, hclosing, hrun⟩ :=
          ih hinside hbody
        obtain ⟨first, hfirst, hrunFirst⟩ := hstart.exists_segments hbefore
        obtain ⟨last, hlast, hrunLast⟩ := hrest.exists_segments hafter
        refine ⟨start ++ (selectorText selectors ++ '{' :: gap ++ bodyStart),
          bodyRest ++ outerGap ++ text,
          first ++ trim (selectorText selectors ++ ['{']) :: opening, closing ++ last, by simp,
          fun others tail h => ?_, fun others tail h => ?_,
          fun state outer enclosing hscope hclosed => ?_⟩
        · have hlaid := Laid.segment '{' hsegment (by decide) (fun _ => hhash)
            ((hopening others tail h).append_blanks hgap)
          simpa [endedSegments] using hfirst _ _ hlaid
        · have hlaid := hclosing _ _ ((hlast others tail h).append_blanks houterGap)
          simpa using hlaid
        · have hinScope := hscope.after before
          have hbodyRun := hrun _ _ outer (hinScope.opened (resolvedSelectors outer selectors))
            hinScope.closeBlock
          simp only [if_true, Flattener.after_closeBlock, Flattener.after_append] at hbodyRun
          rw [List.foldl_append, List.foldl_append, List.foldl_cons, hrunFirst state outer hscope,
            if_neg Bool.false_ne_true, Flattener.feed_opening hinScope.finished,
            hinScope.openBlock_selectorText hcomma, hbodyRun]
          exact hrunLast _ enclosing hclosed

/-- Flattening a printed tree with an interpolation in place of a word of a value: the brace of the
    interpolation ends the value and closes the block. -/
theorem flatten_interpolation {context : ItemContext} {text : List Char}
    (hitems : ∀ item ∈ context.fill (.declaration property (front ++ word ++ back)),
      item.WellFormed)
    (hword : IsWord property front word back) (hinner : Interpolates inner)
    (hprinted : Printed false
      (context.fill (.declaration property (front ++ interpolation inner ++ back))) text) :
    flatten (String.ofList text) = rulesOfItems .nestedFirst topLevel
      (context.interrupted (.declaration property (cutValue front inner))
        (strayItems back)) := by
  obtain ⟨before, after, first, last, rfl, hfirst, hlast, hrun⟩ :=
    context.exists_parts hitems hword hinner hprinted
  have hbefore : Laid first before := by simpa using hfirst [] [] .nil
  have hafter : Laid last after := by simpa using hlast [] [] .nil
  have hstart : Flattener.InScope {} topLevel := ⟨rfl, rfl⟩
  have hfront : SingleSegment (declarationText property front) := by
    obtain ⟨-, hsegment⟩ := context.wellFormed_of_fill hitems
    exact hword.singleSegment_front hsegment
  have hne : declarationText property front ≠ [] := by simp [declarationText]
  -- Outside all blocks there is nothing to close.
  rw [flatten_between hbefore hafter hfront hne hinner.singleSegment,
    ← declarationText_cutValue, hrun {} topLevel topLevel hstart (hstart.after _),
    if_neg Bool.false_ne_true]
  refine Eq.trans ?_ (finish_after _)
  exact congrArg Flattener.finish (@Flattener.after_append {} topLevel _ _)

end Tree

/-- A declaration in a nested block, with one after it and one after the block. -/
def hoverContext : ItemContext :=
  .inside [] [".card".toList]
    (.inside [] ["&:hover".toList] (.here [] [.declaration "color".toList "red".toList])
      [.declaration "margin".toList "0".toList]) []

theorem isWord_of_all {property front word back : List Char}
    (hfront : (declarationText property front).all (!heededMarks.contains ·) = true)
    (hword : word.all (!heededMarks.contains ·) = true)
    (hback : back.all (!heededMarks.contains ·) = true) : IsWord property front word back where
  balanced_front := (SingleSegment.of_all hfront).balanced
  balanced_word := (SingleSegment.of_all hword).balanced
  balanced_back := (SingleSegment.of_all hback).balanced
  not_comment hcomment := by
    have hslash := List.all_eq_true.mp hback '/' (hcomment.subset List.mem_cons_self)
    exact absurd hslash (by decide)

/-- The width is cut short, the color goes to the outer block, and the margin goes outside both. -/
theorem flatten_interpolation_hover :
    (∀ item ∈ hoverContext.fill
        (.declaration "width".toList (" ".toList ++ "10px".toList ++ " auto".toList)),
      item.WellFormed) ∧
    IsWord "width".toList " ".toList "10px".toList " auto".toList ∧ Interpolates "$w".toList ∧
    Printed false
      (hoverContext.fill (.declaration "width".toList
        (" ".toList ++ interpolation "$w".toList ++ " auto".toList)))
      ".card\x7b&:hover\x7bwidth: #\x7b$w\x7d auto;color:red;\x7dmargin:0;\x7d".toList ∧
    flatten (String.ofList
        ".card\x7b&:hover\x7bwidth: #\x7b$w\x7d auto;color:red;\x7dmargin:0;\x7d".toList) =
      [⟨".card:hover", [⟨"width", "#\x7b$w"⟩]⟩, ⟨".card", [⟨"color", "red"⟩]⟩] := by
  have hitems : ∀ item ∈ hoverContext.fill
      (.declaration "width".toList (" ".toList ++ "10px".toList ++ " auto".toList)),
      item.WellFormed := by
    have hdeclaration : ∀ property value : List Char, ':' ∉ property →
        (declarationText property value).all (!heededMarks.contains ·) = true →
        (Item.declaration property value).WellFormed :=
      fun _ _ hcolon hplain => .declaration hcolon (.of_all hplain)
    refine List.forall_mem_singleton.mpr (.block (by decide) (.of_all (by decide)) (by decide) ?_)
    refine List.forall_mem_cons.mpr ⟨.block (by decide) (.of_all (by decide)) (by decide) ?_,
      List.forall_mem_singleton.mpr (hdeclaration _ _ (by decide) (by decide))⟩
    exact List.forall_mem_cons.mpr ⟨hdeclaration _ _ (by decide) (by decide),
      List.forall_mem_singleton.mpr (hdeclaration _ _ (by decide) (by decide))⟩
  have hword : IsWord "width".toList " ".toList "10px".toList " auto".toList :=
    isWord_of_all (by decide) (by decide) (by decide)
  have hinner : Interpolates "$w".toList := .of_all (by decide) (by decide)
  have hprinted : Printed false
      (hoverContext.fill (.declaration "width".toList
        (" ".toList ++ interpolation "$w".toList ++ " auto".toList)))
      ".card\x7b&:hover\x7bwidth: #\x7b$w\x7d auto;color:red;\x7dmargin:0;\x7d".toList :=
    .block [] [] rfl
      (.block [] [] rfl (.declaration [] rfl (.declaration [] rfl .close)) rfl
        (.declaration [] rfl .close))
      rfl .done
  refine ⟨hitems, hword, hinner, hprinted, ?_⟩
  rw [flatten_interpolation hitems hword hinner hprinted]
  decide +kernel

/-- In place of a word an interpolation loses its brace and takes the next declaration out of the
    block. -/
theorem flatten_interpolation_ne :
    IsWord "width".toList [] "10px".toList [] ∧ Interpolates "$w".toList ∧
      flatten ".a\x7bwidth:10px;color:red;\x7d" =
        [⟨".a", [⟨"width", "10px"⟩, ⟨"color", "red"⟩]⟩] ∧
      flatten ".a\x7bwidth:#\x7b$w\x7d;color:red;\x7d" ≠
        [⟨".a", [⟨"width", "#\x7b$w\x7d"⟩, ⟨"color", "red"⟩]⟩] :=
  ⟨isWord_of_all (by decide) (by decide) (by decide),
    .of_all (by decide) (by decide), by decide +kernel, by decide +kernel⟩

end DesignCompiler.Stylesheet
