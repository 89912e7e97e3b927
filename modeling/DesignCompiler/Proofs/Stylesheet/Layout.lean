import DesignCompiler.Proofs.Stylesheet.Segmentation

/-!
# Laid out segments

A text laid out as segments with blanks between them is cut into exactly these segments: its line
breaks all fall between segments, none of its lines holds a comment, and quotes and parentheses are
closed wherever a segment ends.
-/

namespace DesignCompiler.Stylesheet

open Text

/-- The segments that a single segment of text gives together with the mark that ends it. A closing
    brace is a segment of its own. -/
def endedSegments (text : List Char) (mark : Char) : List (List Char) :=
  if mark = '}' then (if allBlank text then [] else [trim text]) ++ [['}']]
  else [trim (text ++ [mark])]

/-- A text laid out as segments, with blanks and line breaks after the marks that end them. A brace
    after `#` ends nothing. -/
inductive Laid : List (List Char) → List Char → Prop where
  | nil : Laid [] []
  | blank {segments : List (List Char)} {c : Char} {text : List Char} :
      isBlank c = true → Laid segments text → Laid segments (c :: text)
  | segment {segments : List (List Char)} {front text : List Char} (mark : Char) :
      SingleSegment front → mark ∈ segmentMarks →
      (mark = '{' → (trimEnd front).getLast? ≠ some '#') →
      Laid segments text → Laid (endedSegments front mark ++ segments) (front ++ mark :: text)

theorem Laid.append_blanks {segments : List (List Char)} {blanks text : List Char}
    (hblanks : allBlank blanks = true) (htext : Laid segments text) :
    Laid segments (blanks ++ text) := by
  induction blanks with
  | nil => exact htext
  | cons c blanks ih =>
    simp only [allBlank, List.all_cons, Bool.and_eq_true] at hblanks
    exact .blank hblanks.1 (ih hblanks.2)

theorem ne_of_mem_segmentMarks {mark : Char} (hmark : mark ∈ segmentMarks) (c : Char)
    (hc : c ∉ segmentMarks := by decide) : mark ≠ c := by
  rintro rfl
  exact hc hmark

/-! ## Lines -/

theorem unixLines_append {front text : List Char} {mark : Char} (hfront : '\n' ∉ front)
    (hmark : mark ≠ '\n') (hreturn : mark ≠ '\r') :
    unixLines (front ++ mark :: text) = front ++ mark :: unixLines text := by
  induction front with
  | nil =>
    rw [List.nil_append, unixLines]
    · rfl
    · rintro rest rfl
      exact absurd rfl hreturn
  | cons c front ih =>
    rw [List.mem_cons, not_or] at hfront
    rw [List.cons_append, unixLines, ih hfront.2]
    · rfl
    · intro rest _ hnext
      cases front with
      | nil => exact hmark (List.cons.inj hnext).1
      | cons d front => exact hfront.2 (by simp [(List.cons.inj hnext).1])

/-- Texts that meet at no line break of two characters. -/
theorem unixLines_append_of_head? {front back : List Char}
    (hbreak : front.getLast? = some '\r' → back.head? ≠ some '\n') :
    unixLines (front ++ back) = unixLines front ++ unixLines back := by
  fun_induction unixLines front with
  | case1 rest ih =>
    rw [List.cons_append, List.cons_append, unixLines, ih fun hlast => hbreak ?_]
    · rfl
    · rw [List.getLast?_cons, List.getLast?_cons, hlast]
      rfl
  | case2 c rest hnot ih =>
    rw [List.cons_append, unixLines, ih fun hlast => hbreak ?_]
    · rfl
    · rw [List.getLast?_cons, hlast]
      rfl
    · rintro tail rfl hrest
      cases rest with
      | nil =>
        rw [List.nil_append] at hrest
        exact hbreak rfl (by rw [hrest]; rfl)
      | cons d rest => exact hnot rest rfl (by rw [(List.cons.inj hrest).1])
  | case3 => rfl

theorem unixLines_of_not_mem {text : List Char} (htext : '\n' ∉ text) : unixLines text = text := by
  fun_induction unixLines text with
  | case1 rest => simp at htext
  | case2 c rest _ ih => rw [ih fun h => htext (List.mem_cons_of_mem c h)]
  | case3 => rfl

theorem unixLines_append_left {front : List Char} (hfront : '\n' ∉ front)
    (hreturn : front.getLast? ≠ some '\r') (text : List Char) :
    unixLines (front ++ text) = front ++ unixLines text := by
  rw [unixLines_append_of_head? fun h => absurd h hreturn, unixLines_of_not_mem hfront]

/-- A carriage return at the end of a text on a line may become part of the line break. -/
theorem exists_unixLines_append {body rest : List Char} (hbody : '\n' ∉ body) :
    ∃ front, (body = front ∨ body = front ++ ['\r']) ∧
      unixLines (body ++ rest) = front ++ unixLines rest := by
  by_cases hbreak : body.getLast? = some '\r' → rest.head? ≠ some '\n'
  · refine ⟨body, .inl rfl, ?_⟩
    rw [unixLines_append_of_head? hbreak, unixLines_of_not_mem hbody]
  · simp only [Classical.not_imp, not_not] at hbreak
    obtain ⟨front, rfl⟩ := List.getLast?_eq_some_iff.mp hbreak.1
    obtain ⟨more, rfl⟩ := List.head?_eq_some_iff.mp hbreak.2
    have hfront : '\n' ∉ front := fun h => hbody (List.mem_append_left _ h)
    refine ⟨front, .inr rfl, ?_⟩
    rw [List.append_assoc, unixLines_append_of_head? (by simp), unixLines_of_not_mem hfront]
    rfl

theorem unixLines_head? {text : List Char} {c : Char} (hc : c ≠ '\n')
    (hhead : (unixLines text).head? = some c) : text.head? = some c := by
  fun_induction unixLines text with
  | case1 rest => exact absurd (Option.some.inj hhead).symm hc
  | case2 d rest => exact hhead
  | case3 => exact hhead

/-- Line breaks of two characters stand between segments like all others. -/
theorem Laid.unixLines {segments : List (List Char)} {text : List Char}
    (htext : Laid segments text) : Laid segments (unixLines text) := by
  induction htext with
  | nil => exact .nil
  | @blank segments c text hblank _ ih =>
    by_cases hbreak : c = '\r' ∧ ∃ rest, text = '\n' :: rest
    · obtain ⟨rfl, rest, rfl⟩ := hbreak
      simpa [Stylesheet.unixLines] using ih
    · rw [Stylesheet.unixLines]
      · exact .blank hblank ih
      · rintro rest rfl rfl
        exact hbreak ⟨rfl, rest, rfl⟩
  | @segment segments front text mark hfront hmark hhash _ ih =>
    rw [unixLines_append hfront.singleLine (ne_of_mem_segmentMarks hmark '\n')
      (ne_of_mem_segmentMarks hmark '\r')]
    exact .segment mark hfront hmark hhash ih

/-- Each line of a laid out text is laid out with its share of the segments. -/
theorem Laid.lines {segments : List (List Char)} {text : List Char} (htext : Laid segments text) :
    ∃ parts, List.Forall₂ Laid parts (splitOn (· == '\n') text) ∧ parts.flatten = segments := by
  induction htext with
  | nil => exact ⟨[[]], .cons .nil .nil, rfl⟩
  | @blank segments c text hblank _ ih =>
    obtain ⟨parts, hparts, hflatten⟩ := ih
    by_cases hc : c = '\n'
    · subst hc
      refine ⟨[] :: parts, ?_, hflatten⟩
      rw [splitOn_cons_of_separates (by rfl)]
      exact .cons .nil hparts
    · obtain ⟨line, lines, hsplit⟩ := exists_splitOn_eq_cons (· == '\n') text
      rw [hsplit] at hparts
      cases hparts with
      | cons hline hlines =>
        refine ⟨_ :: _, ?_, hflatten⟩
        rw [splitOn_cons_of_not_separates (by simpa using hc) hsplit]
        exact .cons (.blank hblank hline) hlines
  | @segment segments front text mark hfront hmark hhash _ ih =>
    obtain ⟨parts, hparts, hflatten⟩ := ih
    obtain ⟨line, lines, hsplit⟩ := exists_splitOn_eq_cons (· == '\n') text
    rw [hsplit] at hparts
    cases hparts with
    | @cons part _ parts _ hline hlines =>
      refine ⟨(endedSegments front mark ++ part) :: parts, ?_, by simpa using hflatten⟩
      have hmarked : splitOn (· == '\n') (mark :: text) = (mark :: line) :: lines :=
        splitOn_cons_of_not_separates
          (by simpa using ne_of_mem_segmentMarks hmark '\n') hsplit
      rw [splitOn_append (fun c hc => by
        rw [beq_eq_false_iff_ne]
        rintro rfl
        exact hfront.singleLine hc) hmarked]
      exact .cons (.segment mark hfront hmark hhash hline) hlines

/-! ## Comments -/

theorem withoutBlockComments_of_not_infix {line : List Char} (hline : ¬ commentStart <:+: line) :
    withoutBlockComments line = (line, false) := by
  rw [withoutBlockComments]
  split
  · rfl
  · rename_i hcut
    rw [cut?_eq_none_iff.mpr hline] at hcut
    cases hcut

/-- A laid out text holds no block comment, since no mark between segments belongs to one. -/
theorem Laid.not_infix {segments : List (List Char)} {text : List Char}
    (htext : Laid segments text) : ¬ commentStart <:+: text := by
  induction htext with
  | nil => simp [commentStart]
  | @blank segments c text hblank _ ih =>
    rw [List.infix_cons_iff, not_or]
    refine ⟨fun hprefix => ?_, ih⟩
    have := (List.cons_prefix_cons.mp hprefix).1
    exact absurd this.symm (ne_of_isBlank hblank '/')
  | @segment segments front text mark hfront hmark _ _ ih =>
    rw [List.infix_append_iff]
    rintro (hinside | hafter | ⟨before, after, hsplit, hsuffix, hprefix⟩)
    · exact hfront.noBlockComment hinside
    · rcases List.infix_cons_iff.mp hafter with hprefix | hinfix
      · exact absurd (List.cons_prefix_cons.mp hprefix).1.symm (ne_of_mem_segmentMarks hmark '/')
      · exact ih hinfix
    · cases after with
      | nil =>
        rw [List.append_nil] at hsplit
        exact hfront.noBlockComment (hsplit ▸ hsuffix.isInfix)
      | cons c after =>
        have hc : c = mark := (List.cons_prefix_cons.mp hprefix).1
        have hmem : mark ∈ commentStart := by rw [hsplit, ← hc]; simp
        simp only [commentStart, List.mem_cons, List.not_mem_nil, or_false] at hmem
        obtain hslash | hstar := hmem
        · exact absurd hslash (ne_of_mem_segmentMarks hmark '/')
        · exact absurd hstar (ne_of_mem_segmentMarks hmark '*')

/-- Where each `//` outside quotes follows a colon, no line comment starts. The text before `text`
    on its line is `front`. -/
theorem beforeLineComment_append (front text rest : List Char)
    (hsafe : ∀ before after, text = before ++ '/' :: '/' :: after →
      (front ++ before).foldl Quote.after .outside = .outside →
      (front ++ before).getLast? = some ':')
    (hend : rest.head? ≠ some '/') :
    beforeLineComment (front.foldl Quote.after .outside) (front.getLast? == some ':')
        (text ++ rest) =
      text ++ beforeLineComment ((front ++ text).foldl Quote.after .outside)
        ((front ++ text).getLast? == some ':') rest := by
  induction text generalizing front with
  | nil => simp
  | cons c text ih =>
    have hstart : ¬ (decide (front.foldl Quote.after .outside = .outside) &&
        !(front.getLast? == some ':') && c == '/' && (text ++ rest).head? == some '/') = true := by
      simp only [Bool.and_eq_true, decide_eq_true_eq, Bool.not_eq_true', beq_eq_false_iff_ne,
        beq_iff_eq]
      rintro ⟨⟨⟨houtside, hcolon⟩, rfl⟩, hnext⟩
      cases text with
      | nil => exact hend hnext
      | cons d text =>
        obtain rfl : d = '/' := by simpa using hnext
        exact hcolon (by simpa using hsafe [] text rfl (by simpa using houtside))
    have hrest := ih (front ++ [c]) fun before after htext hout => by
      have h := hsafe (c :: before) after (by rw [htext]; rfl) (by simpa using hout)
      simpa using h
    rw [List.cons_append, beforeLineComment, if_neg (by simpa using hstart)]
    simp only [List.foldl_append, List.foldl_cons, List.foldl_nil, List.getLast?_append,
      List.getLast?_singleton, Option.some_or, List.append_assoc, List.singleton_append] at hrest
    simp only [List.foldl_append, List.foldl_cons, List.getLast?_append] at hrest ⊢
    rw [show (c == ':') = (some c == some ':') by simp, hrest]
    simp

/-- A laid out line holds no line comment. -/
theorem Laid.beforeLineComment_eq {segments : List (List Char)} {line : List Char}
    (hline : Laid segments line) : beforeLineComment .outside false line = line := by
  induction hline with
  | nil => rfl
  | @blank segments c text hblank _ ih =>
    have hquote : Quote.after .outside c = .outside := by
      simp [Quote.after, ne_of_isBlank hblank '\'', ne_of_isBlank hblank '"']
    have hcolon : (c == ':') = false := by simpa using ne_of_isBlank hblank ':'
    rw [beforeLineComment, if_neg (by simp [ne_of_isBlank hblank '/']), hquote, hcolon, ih]
  | @segment segments front text mark hfront hmark _ _ ih =>
    have hslash : mark ≠ '/' := ne_of_mem_segmentMarks hmark '/'
    have h := beforeLineComment_append [] front (mark :: text)
      (by simpa using hfront.noLineComment) (by simpa using hslash)
    have hquote : Quote.after .outside mark = .outside := by
      simp [Quote.after, ne_of_mem_segmentMarks hmark '\'', ne_of_mem_segmentMarks hmark '"']
    have hcolon : (mark == ':') = false := by simpa using ne_of_mem_segmentMarks hmark ':'
    rw [List.nil_append, hfront.passes.foldl_after] at h
    rw [show beforeLineComment .outside false (front ++ mark :: text) = _ from h, beforeLineComment,
      if_neg (by simp [hslash]), hquote, hcolon, ih]

/-- All that a laid out line loses with its comments are the blanks at its ends. -/
theorem Laid.stripComments_eq {segments : List (List Char)} {line : List Char}
    (hline : Laid segments line) :
    stripComments false line = (if (trim line).isEmpty then none else some (trim line), false) := by
  simp only [stripComments, Bool.false_eq_true, if_false,
    withoutBlockComments_of_not_infix hline.not_infix, hline.beforeLineComment_eq]

/-! ## Segments -/

/-- The characters before the mark of a segment: those of the segment, and the blanks `current`
    before it. -/
theorem cleanSegments_mark {front current text : List Char} {mark : Char}
    (hcurrent : allBlank current = true) (hmark : mark ∈ segmentMarks)
    (hhash : mark = '{' → (trimEnd front).getLast? ≠ some '#') :
    cleanSegments (segmentsFrom .outside 0 (front.reverse ++ current) (mark :: text)) =
      endedSegments front mark ++ cleanSegments (segmentsFrom .outside 0 [] text) := by
  have hall : allBlank (front.reverse ++ current) = allBlank front := by
    rw [allBlank_append, allBlank_reverse, hcurrent, Bool.and_true]
  have hfront : trim (front.reverse ++ current).reverse = trim front := by
    rw [List.reverse_append, List.reverse_reverse,
      trim_append_of_allBlank_left (by simpa using hcurrent)]
  have hended : ∀ c, isBlank c = false → ∀ segments,
      cleanSegments ((c :: (front.reverse ++ current)).reverse :: segments) =
        [trim (front ++ [c])] ++ cleanSegments segments := by
    intro c hc segments
    rw [cleanSegments_cons, List.reverse_cons, List.reverse_append, List.reverse_reverse,
      List.append_assoc, trim_append_of_allBlank_left (by simpa using hcurrent), if_neg]
    simp [allBlank, hc]
  simp only [segmentMarks, List.mem_cons, List.not_mem_nil, or_false] at hmark
  obtain rfl | rfl | rfl := hmark
  · have hhead : (trimStart (front.reverse ++ current)).head? ≠ some '#' := by
      rw [head?_trimStart_append_of_allBlank hcurrent, ← List.getLast?_reverse]
      exact hhash rfl
    rw [segmentsFrom, if_neg (by decide), if_pos (by simp [hhead]), hended _ (by decide)]
    rfl
  · rw [segmentsFrom, if_neg (by decide), if_neg (by simp), if_pos (by decide), hall,
      endedSegments, if_pos rfl]
    have hclose :
        ∀ segments, cleanSegments (['}'] :: segments) = ['}'] :: cleanSegments segments := by
      intro segments
      rw [cleanSegments_cons, if_neg (by decide)]
      rfl
    split
    · rw [hclose]
      rfl
    · rename_i hblank
      rw [cleanSegments_cons, hclose, allBlank_reverse, hall, if_neg hblank, hfront]
      simp [Quote.after]
  · rw [segmentsFrom, if_neg (by decide), if_neg (by simp), if_neg (by decide),
      if_pos (by decide), hended _ (by decide)]
    rfl

/-- A laid out line is cut into its segments. -/
theorem Laid.cleanSegments_segments {segments : List (List Char)} {line : List Char}
    (hline : Laid segments line) : cleanSegments (Stylesheet.segments line) = segments := by
  suffices hcurrent : ∀ current, allBlank current = true →
      cleanSegments (segmentsFrom .outside 0 current line) = segments from hcurrent [] rfl
  induction hline with
  | nil =>
    intro current hcurrent
    rw [segmentsFrom, if_pos hcurrent]
    rfl
  | @blank segments c text hblank _ ih =>
    intro current hcurrent
    have hpass := segmentsFrom_of_passes
      (@passes_of_allBlank .outside 0 [c] (by simpa [allBlank] using hblank)) current text
    rw [List.singleton_append] at hpass
    rw [hpass]
    exact ih _ (by simpa [allBlank, hblank] using hcurrent)
  | @segment segments front text mark hfront hmark hhash _ ih =>
    intro current hcurrent
    rw [segmentsFrom_of_passes hfront.passes, cleanSegments_mark hcurrent hmark hhash, ih [] rfl]

/-- The segments that drive the machine, in order. -/
def sourceSegments (source : List Char) : List (List Char) :=
  (codeLines false (splitOn (· == '\n') (unixLines source))).flatMap
    fun line => cleanSegments (segments line)

theorem flatten_eq (source : String) :
    flatten source = ((sourceSegments source.toList).foldl Flattener.feed {}).finish := by
  rw [sourceSegments, List.foldl_flatMap]
  rfl

/-- A line of code has its segments also when its ends are trimmed, and a blank one has none. -/
theorem flatMap_trimmed_code (code : List Char) :
    (if (trim code).isEmpty then none else some (trim code)).toList.flatMap
        (fun line => cleanSegments (segments line)) = cleanSegments (segments code) := by
  rw [← cleanSegments_segments_trim code]
  by_cases hempty : trim code = []
  · rw [hempty]
    rfl
  · simp [hempty]

private theorem codeLines_of_laid {parts : List (List (List Char))}
    {source : List (List Char)} (hsource : List.Forall₂ Laid parts source) :
    (codeLines false source).flatMap (fun line => cleanSegments (segments line)) =
      parts.flatten := by
  induction hsource with
  | nil => rfl
  | @cons part line parts source hline _ ih =>
    rw [codeLines, hline.stripComments_eq, List.flatMap_append, flatMap_trimmed_code,
      hline.cleanSegments_segments, ih, List.flatten_cons]

/-- A laid out source drives the machine with its segments. -/
theorem Laid.sourceSegments_eq {segments : List (List Char)} {source : List Char}
    (hsource : Laid segments source) : sourceSegments source = segments := by
  obtain ⟨parts, hparts, hflatten⟩ := hsource.unixLines.lines
  rw [sourceSegments, codeLines_of_laid hparts, hflatten]

end DesignCompiler.Stylesheet
