import DesignCompiler.Proofs.Stylesheet.Sections
import DesignCompiler.Proofs.Stylesheet.Spots

/-!
# Comments that are put into a sheet

A comment more leaves the rules of a sheet as they are, at the end of a line as well as between
segments. The mark of a block comment counts inside a line comment too, so there it must be closed
on the line.
-/

namespace DesignCompiler.Stylesheet

open Text

/-! ## Line comments -/

/-- A line comment has begun on the line. -/
def InLineComment (line : List Char) : Prop :=
  ∃ before after, line = before ++ '/' :: '/' :: after ∧ QuotesClosed before ∧
    before.getLast? ≠ some ':'

/-- What stands in a line comment is not read. -/
theorem beforeLineComment_of_comment {quote : Quote} {afterColon : Bool} {before : List Char}
    (hquote : before.foldl Quote.after quote = .outside)
    (hcolon : (before.getLast?.map (· == ':')).getD afterColon = false)
    (after after' : List Char) :
    beforeLineComment quote afterColon (before ++ '/' :: '/' :: after) =
      beforeLineComment quote afterColon (before ++ '/' :: '/' :: after') := by
  induction before generalizing quote afterColon with
  | nil =>
    obtain rfl : quote = .outside := hquote
    obtain rfl : afterColon = false := hcolon
    rfl
  | cons c before ih =>
    have hnext : (before.getLast?.map (· == ':')).getD (c == ':') = false := by
      rw [List.getLast?_cons] at hcolon
      cases hlast : before.getLast? with
      | none => simpa [hlast] using hcolon
      | some d => simpa [hlast] using hcolon
    have hhead : (before ++ '/' :: '/' :: after).head? =
        (before ++ '/' :: '/' :: after').head? := by
      cases before <;> rfl
    rw [List.cons_append, List.cons_append, beforeLineComment, beforeLineComment, hhead,
      ih hquote hnext]

theorem InLineComment.beforeLineComment_append {line : List Char} (h : InLineComment line)
    (more : List Char) :
    beforeLineComment .outside false (line ++ more) = beforeLineComment .outside false line := by
  obtain ⟨before, after, rfl, hquote, hcolon⟩ := h
  have hlast : (before.getLast?.map (· == ':')).getD false = false := by
    cases hlast : before.getLast? with
    | none => rfl
    | some c => simpa [hlast] using hcolon
  rw [List.append_assoc]
  exact beforeLineComment_of_comment hquote hlast _ _

/-- Where no line comment has begun, a line is code. -/
theorem beforeLineComment_append_of_not_inLineComment {line more : List Char}
    (hline : ¬ InLineComment line) (hmore : more.head? ≠ some '/') :
    beforeLineComment .outside false (line ++ more) =
      line ++ beforeLineComment (line.foldl Quote.after .outside) (line.getLast? == some ':')
        more := by
  have hsafe : ∀ before after, line = before ++ '/' :: '/' :: after →
      ([] ++ before).foldl Quote.after .outside = .outside →
      ([] ++ before).getLast? = some ':' := by
    intro before after heq hquote
    by_contra hcolon
    exact hline ⟨before, after, heq, hquote, hcolon⟩
  exact beforeLineComment_append [] line more hsafe hmore

/-- The beginning of a line comment that is put to the end of a line. -/
def lineCommentStart : List Char := [' ', '/', '/']

/-- Of a line comment at its end, a line keeps the blank before it at most. -/
theorem beforeLineComment_append_comment {line : List Char}
    (hline : QuotesClosed line ∨ InLineComment line) (body : List Char) :
    ∃ blanks ∈ [[], [' ']], beforeLineComment .outside false (line ++ (lineCommentStart ++ body)) =
      beforeLineComment .outside false line ++ blanks := by
  by_cases hcomment : InLineComment line
  · exact ⟨[], by simp, by rw [hcomment.beforeLineComment_append, List.append_nil]⟩
  · have hquote : line.foldl Quote.after .outside = .outside := hline.resolve_right hcomment
    have hwhole := @beforeLineComment_append_of_not_inLineComment _ [] hcomment (by simp)
    rw [List.append_nil] at hwhole
    refine ⟨[' '], by simp, ?_⟩
    rw [hwhole, beforeLineComment_append_of_not_inLineComment hcomment (by simp [lineCommentStart]),
      hquote]
    simp [lineCommentStart, beforeLineComment, Quote.after]

/-- The line ends with the mark of a segment, outside quotes, parentheses and comments. A brace
    right after `#` is no such mark. -/
def EndsSegment (line : List Char) : Prop :=
  ∃ front mark, line = front ++ [mark] ∧ mark ∈ segmentMarks ∧ Place.past {} front = {} ∧
    (mark = '{' → (trimEnd front).getLast? ≠ some '#') ∧ ¬ InLineComment line

/-- At the end of a segment the machine has taken in all of the line. -/
theorem EndsSegment.exists_read {line : List Char} (h : EndsSegment line) (hline : '\n' ∉ line)
    (machine : Flattener) :
    ∃ next : Flattener, Reader.read { machine } line = { machine := next } := by
  obtain ⟨front, mark, rfl, hmark, hplace, hhash, -⟩ := h
  have hfront : '\n' ∉ front := fun h => hline (List.mem_append_left _ h)
  have hbreak : mark ≠ '\n' := ne_of_mem_segmentMarks hmark '\n'
  have hends : (Reader.read { machine } front).Ends mark := by
    refine ⟨hmark, by rw [Reader.place_read _ hfront, hplace], fun hbrace hlast => hhash hbrace ?_⟩
    exact getLast?_trimEnd_of_suffix (Reader.begun_read_suffix { machine } front) hlast
  rw [Reader.read_append, Reader.read_cons, Reader.read_nil, Reader.step, if_neg hbreak,
    if_pos hends]
  split <;> exact ⟨_, rfl⟩

/-- What comes after the end of a segment is read afresh. -/
theorem EndsSegment.uncommented_append {line : List Char} (h : EndsSegment line)
    (hline : '\n' ∉ line) (hstart : ¬ commentStart <:+: line) (rest : List Char) :
    uncommented .outside false (line ++ rest) = line ++ uncommented .outside false rest := by
  obtain ⟨front, mark, rfl, hmark, hplace, -, hcomment⟩ := h
  have hcode : Commented .outside '\n' (front ++ [mark]) (front ++ [mark]) := by
    refine commented_self hline hstart fun before after heq hquote => ?_
    by_contra hcolon
    refine hcomment ⟨before, after, heq, hquote, fun hlast => hcolon ?_⟩
    rw [hlast]
    rfl
  have hclosed : QuotesClosed (front ++ [mark]) := by
    have hfront : QuotesClosed front := by
      rw [QuotesClosed, ← Place.quote_past {} front, hplace]
    exact (hfront.append_iff).mpr (quotesClosed_of_mem_segmentMarks hmark)
  have hread := @Commented.uncommented_append _ _ _ _ rest hcode fun hslash => by
    rw [List.getLast?_concat] at hslash
    exact absurd hslash (ne_of_mem_segmentMarks hmark '/')
  rw [hclosed, List.getLast?_concat] at hread
  have hcolon : (mark == ':') = false := beq_false_of_ne (ne_of_mem_segmentMarks hmark ':')
  rwa [Option.getD_some, hcolon] at hread

/-! ## Comments more -/

/-- A block comment at the end of a segment makes no difference to the reader. -/
theorem read_blockComment {before kept body : List Char}
    (hspot : Spot.past (.line []) before = .line kept) (hends : EndsSegment kept)
    (hbody : ¬ commentEnd <:+: body) (rest : List Char) :
    Reader.read {}
        (uncommented .outside false (before ++ (commentStart ++ (body ++ (commentEnd ++ rest))))) =
      Reader.read {} (uncommented .outside false (before ++ rest)) := by
  obtain ⟨hvalid, machine, hread⟩ := Spot.exists_read before
  rw [hspot] at hvalid hread
  obtain ⟨hline, hstart⟩ := Spot.isValid_line_iff.mp hvalid
  rw [hread, hread]
  by_cases hbreak : '\n' ∈ body
  · -- The line ends in the comment, where the machine is between segments.
    have hbreaks : ∀ c ∈ body.filter (· == '\n'), c = '\n' := fun c hc =>
      beq_iff_eq.mp (List.mem_filter.mp hc).2
    obtain ⟨next, hnext⟩ := hends.exists_read hline machine
    simp only [Spot.text]
    rw [hends.uncommented_append hline hstart, hends.uncommented_append hline hstart,
      uncommented_lines hbody rest hbreak, Reader.read_append _ kept, Reader.read_append _ kept,
      hnext, Reader.read_newlines next hbreaks]
  · exact congrArg _ (uncommented_closed hline hstart hbreak hbody rest)

/-- A line comment at the end of a line makes no difference to the machine. -/
theorem endLine_lineComment {before kept body more rest : List Char}
    (hspot : Spot.past (.line []) before = .line kept)
    (hkept : QuotesClosed kept ∨ InLineComment kept) (hline : '\n' ∉ body)
    (hbody : Spot.past (.line (kept ++ lineCommentStart)) body =
      .line (kept ++ (lineCommentStart ++ more)))
    (hrest : ∀ c ∈ rest.head?, c = '\n') :
    (Reader.read {}
        (uncommented .outside false (before ++ (lineCommentStart ++ (body ++ rest))))).endLine =
      (Reader.read {} (uncommented .outside false (before ++ rest))).endLine := by
  obtain ⟨hvalid, machine, hread⟩ := Spot.exists_read before
  rw [hspot] at hvalid hread
  have hmark : Spot.past (.line kept) lineCommentStart = .line (kept ++ lineCommentStart) := by
    simp [Spot.past, Spot.step, lineCommentStart]
  obtain ⟨hcomment, hcode⟩ := @Spot.IsValid.past_line _ hvalid (lineCommentStart ++ body)
    (by simp [lineCommentStart, hline])
  rw [Spot.past_append, hmark, hbody] at hcomment hcode
  have hwith := hcode rest
  rw [List.append_assoc] at hwith
  rw [hread, hread, hwith]
  simp only [Spot.text]
  obtain ⟨blanks, hblanks, hend⟩ := beforeLineComment_append_comment hkept more
  have hplain : allBlank blanks = true ∧ '\n' ∉ blanks := by
    simp only [List.mem_cons, List.not_mem_nil, or_false] at hblanks
    obtain rfl | rfl := hblanks <;> decide
  have hfresh : ∀ c ∈ (uncommented .outside false rest).head?, c = '\n' := by
    cases rest with
    | nil => simp [uncommented_nil]
    | cons c rest =>
      obtain rfl := hrest c rfl
      rw [uncommented_newline]
      simp
  obtain ⟨hkeptLine, hkeptStart⟩ := Spot.isValid_line_iff.mp hvalid
  obtain ⟨hnextLine, hnextStart⟩ := Spot.isValid_line_iff.mp hcomment
  rw [uncommented_line hnextLine hnextStart hrest, uncommented_line hkeptLine hkeptStart hrest,
    hend, List.append_assoc, Reader.read_append,
    Reader.endLine_read_blanks _ hplain.1 hplain.2 hfresh, ← Reader.read_append]

/-! ### Sheets with line breaks of two characters -/

/-- A line ends between the texts. -/
inductive LineEnds (before : List Char) : List Char → Prop where
  | last : LineEnds before []
  | lineFeed {rest : List Char} : before.getLast? ≠ some '\r' → LineEnds before ('\n' :: rest)
  | carriageReturn {rest : List Char} : LineEnds before ('\r' :: '\n' :: rest)

theorem LineEnds.unixLines_append {before rest : List Char} (h : LineEnds before rest) :
    unixLines (before ++ rest) = unixLines before ++ unixLines rest := by
  refine unixLines_append_of_head? fun hreturn => ?_
  cases h with
  | last => simp
  | lineFeed hlast => exact absurd hreturn hlast
  | carriageReturn => simp

theorem LineEnds.head?_unixLines {before rest : List Char} (h : LineEnds before rest) :
    ∀ c ∈ (unixLines rest).head?, c = '\n' := by
  cases h with
  | last => simp [unixLines]
  | lineFeed => simp [unixLines]
  | carriageReturn => simp [unixLines]

/-- Other marks than line breaks are found in a text as before. -/
theorem commentEnd_infix_of_unixLines {text : List Char} (h : commentEnd <:+: unixLines text) :
    commentEnd <:+: text := by
  fun_induction unixLines text with
  | case1 rest ih =>
    obtain hprefix | hinfix := List.infix_cons_iff.mp h
    · exact absurd (List.cons_prefix_cons.mp hprefix).1 (by decide)
    · exact (ih hinfix).trans (List.suffix_append ['\r', '\n'] rest).isInfix
  | case2 c rest _ ih =>
    obtain hprefix | hinfix := List.infix_cons_iff.mp h
    · obtain ⟨rfl, tail, hrest⟩ := List.cons_prefix_cons.mp hprefix
      obtain ⟨more, rfl⟩ := List.head?_eq_some_iff.mp
        (unixLines_head? (c := '/') (by decide) (by rw [← hrest]; rfl))
      exact (List.prefix_append commentEnd more).isInfix
    · exact (ih hinfix).trans (List.suffix_cons c rest).isInfix
  | case3 => exact h

/-- The spot after the beginning of a sheet. -/
def spotAfter (before : List Char) : Spot := .past (.line []) (unixLines before)

/-- A carriage return stays on its line. -/
theorem Spot.past_return {spot : Spot} {text kept : List Char}
    (h : spot.past (text ++ ['\r']) = .line kept) :
    ∃ front, kept = front ++ ['\r'] ∧ spot.past text = .line front := by
  rw [past_append] at h
  cases hspot : spot.past text with
  | line front =>
    rw [hspot] at h
    exact ⟨front, (Spot.line.inj h).symm, rfl⟩
  | comment front body =>
    rw [hspot] at h
    cases h

/-- A line comment without the carriage return at its end. -/
theorem Spot.exists_past_of_return {kept body more : List Char}
    (h : past (.line (kept ++ lineCommentStart)) (body ++ ['\r']) =
      .line (kept ++ (lineCommentStart ++ more))) :
    ∃ more, past (.line (kept ++ lineCommentStart)) body =
      .line (kept ++ (lineCommentStart ++ more)) := by
  obtain ⟨front, hfront, hpast⟩ := past_return h
  rw [← List.append_assoc] at hfront
  rcases List.eq_nil_or_concat more with rfl | ⟨more, c, rfl⟩
  · rw [List.append_nil] at hfront
    have hlast := congrArg List.getLast? hfront
    rw [List.getLast?_concat, List.getLast?_append_of_ne_nil _ (by decide)] at hlast
    exact absurd hlast (by decide)
  · rw [List.concat_eq_append, ← List.append_assoc] at hfront
    exact ⟨more, by rw [hpast, ← (List.append_inj' hfront rfl).1, List.append_assoc]⟩

/-- The end of a segment is no end of a line. -/
theorem getLast?_ne_of_endsSegment {before kept : List Char} (hspot : spotAfter before = .line kept)
    (hends : EndsSegment kept) : before.getLast? ≠ some '\r' := by
  intro hreturn
  obtain ⟨text, rfl⟩ := List.getLast?_eq_some_iff.mp hreturn
  rw [spotAfter, unixLines_append_of_head? (by simp)] at hspot
  obtain ⟨front, hfront, -⟩ := Spot.past_return hspot
  obtain ⟨start, mark, hkept, hmark, -⟩ := hends
  obtain ⟨-, hlast⟩ := List.append_inj' (hfront.symm.trans hkept) rfl
  have hne : mark ≠ '\r' := ne_of_mem_segmentMarks hmark '\r'
  exact hne (List.singleton_inj.mp hlast).symm

/-- A sheet, and the same with a comment more: at the end of a line outside quotes and block
    comments, or at the end of a segment. A line comment closes on its line what it opens. -/
inductive AddsComment : List Char → List Char → Prop where
  | line {before kept body more rest : List Char} :
      spotAfter before = .line kept → QuotesClosed kept ∨ InLineComment kept →
      LineEnds before rest → '\n' ∉ body →
      Spot.past (.line (kept ++ lineCommentStart)) body =
        .line (kept ++ (lineCommentStart ++ more)) →
      AddsComment (before ++ rest) (before ++ (lineCommentStart ++ (body ++ rest)))
  | block {before kept body rest : List Char} :
      spotAfter before = .line kept → EndsSegment kept → ¬ commentEnd <:+: body →
      AddsComment (before ++ rest) (before ++ (commentStart ++ (body ++ (commentEnd ++ rest))))

/-- A comment more makes no difference to the rules of a sheet. -/
theorem flatten_addsComment {sheet commented : List Char} (h : AddsComment sheet commented) :
    flatten (String.ofList commented) = flatten (String.ofList sheet) := by
  rw [Reader.flatten_eq_finish, Reader.flatten_eq_finish, String.toList_ofList,
    String.toList_ofList]
  cases h with
  | @line before kept body more rest hspot hkept hends hline hbody =>
    obtain ⟨front, hfront, hunix⟩ := @exists_unixLines_append body rest hline
    have hcommented : unixLines (before ++ (lineCommentStart ++ (body ++ rest))) =
        unixLines before ++ (lineCommentStart ++ (front ++ unixLines rest)) := by
      rw [unixLines_append_of_head? fun _ => by simp [lineCommentStart],
        unixLines_append_left (by decide) (by decide), hunix]
    have hclosed : ∃ more, Spot.past (.line (kept ++ lineCommentStart)) front =
        .line (kept ++ (lineCommentStart ++ more)) := by
      obtain rfl | rfl := hfront
      · exact ⟨more, hbody⟩
      · exact Spot.exists_past_of_return hbody
    obtain ⟨more, hmore⟩ := hclosed
    have hfrontLine : '\n' ∉ front := by
      obtain rfl | rfl := hfront
      · exact hline
      · exact fun h => hline (List.mem_append_left _ h)
    rw [hcommented, hends.unixLines_append,
      endLine_lineComment hspot hkept hfrontLine hmore hends.head?_unixLines]
  | @block before kept body rest hspot hends hbody =>
    have hreturn := getLast?_ne_of_endsSegment hspot hends
    have hcommented : unixLines (before ++ (commentStart ++ (body ++ (commentEnd ++ rest)))) =
        unixLines before ++
          (commentStart ++ (unixLines body ++ (commentEnd ++ unixLines rest))) := by
      rw [unixLines_append_of_head? fun h => absurd h hreturn,
        unixLines_append_left (by decide) (by decide),
        unixLines_append_of_head? fun _ => by simp [commentEnd],
        unixLines_append_left (by decide) (by decide)]
    rw [hcommented, unixLines_append_of_head? fun h => absurd h hreturn,
      read_blockComment hspot hends (mt commentEnd_infix_of_unixLines hbody)]

theorem not_inLineComment_of_not_mem {line : List Char} (hline : '/' ∉ line) :
    ¬ InLineComment line := by
  rintro ⟨before, after, rfl, -⟩
  exact hline (by simp)

/-- The first line of a sheet. -/
def cardLine : List Char := ".card\x7b color:red;".toList

/-- The rest of the sheet. -/
def cardRest : List Char := ['\r', '\n', '\x7d']

/-- A note on the line, with an apostrophe, a brace and a block comment in it. -/
def cardNote : List Char := " don't \x7d /* see http://x */".toList

/-- A note of two lines, with a quotation mark and the beginning of a line comment in it. -/
def cardLines : List Char := "\";\n// \x7b".toList

theorem flatten_addsComment_card :
    (AddsComment (cardLine ++ cardRest)
        (cardLine ++ (lineCommentStart ++ (cardNote ++ cardRest))) ∧
      flatten (String.ofList (cardLine ++ (lineCommentStart ++ (cardNote ++ cardRest)))) =
        flatten (String.ofList (cardLine ++ cardRest))) ∧
    AddsComment (cardLine ++ cardRest)
        (cardLine ++ (commentStart ++ (cardLines ++ (commentEnd ++ cardRest)))) ∧
      flatten (String.ofList
          (cardLine ++ (commentStart ++ (cardLines ++ (commentEnd ++ cardRest))))) =
        flatten (String.ofList (cardLine ++ cardRest)) := by
  have hspot : spotAfter cardLine = .line cardLine := by decide +kernel
  have hends : EndsSegment cardLine :=
    ⟨".card\x7b color:red".toList, ';', by decide, by decide, by decide, by decide,
      not_inLineComment_of_not_mem (by decide)⟩
  have hline : AddsComment (cardLine ++ cardRest)
      (cardLine ++ (lineCommentStart ++ (cardNote ++ cardRest))) :=
    @AddsComment.line _ _ _ " don't \x7d ".toList _ hspot (.inl (by rfl)) .carriageReturn
      (by decide) (by decide +kernel)
  have hblock : AddsComment (cardLine ++ cardRest)
      (cardLine ++ (commentStart ++ (cardLines ++ (commentEnd ++ cardRest)))) :=
    .block hspot hends (by decide)
  exact ⟨⟨hline, flatten_addsComment hline⟩, hblock, flatten_addsComment hblock⟩

/-- The mark of a block comment opens one inside a line comment and inside quotes too, and the
    comment goes on until one closes, over the lines after it and over another comment. -/
theorem flatten_comment_mark_ne :
    flatten ".a\x7bcolor:red;\x7d // see /*\n.b\x7bcolor:blue;\x7d" ≠
        flatten ".a\x7bcolor:red;\x7d\n.b\x7bcolor:blue;\x7d" ∧
      flatten ".a\x7bcontent:\"/*\";/**/\n\x7d\n.b\x7bcolor:blue;\x7d" ≠
        flatten ".a\x7bcontent:\"/*\";\n\x7d\n.b\x7bcolor:blue;\x7d" := by
  constructor <;> decide +kernel

end DesignCompiler.Stylesheet
