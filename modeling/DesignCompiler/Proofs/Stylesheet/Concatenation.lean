import DesignCompiler.Proofs.Stylesheet.Merging
import DesignCompiler.Proofs.Stylesheet.Stack
import DesignCompiler.Proofs.Stylesheet.Transparency

/-!
# Sheets one after another

Whatever a sheet leaves open goes on in the lines after it. Where it leaves nothing open it hands on
nothing but its rules, and what follows on lines of its own is flattened as if it stood alone.
-/

namespace DesignCompiler.Stylesheet

open Text

/-! ## Blanks at the end of a line -/

section Blank

variable {c : Char} (hblank : isBlank c = true)

include hblank

private theorem not_mem_commentStart : c ∉ commentStart := by
  simp [commentStart, ne_of_isBlank hblank '/', ne_of_isBlank hblank '*']

private theorem not_mem_commentEnd : c ∉ commentEnd := by
  simp [commentEnd, ne_of_isBlank hblank '/', ne_of_isBlank hblank '*']

/-- A blank at the end of a line goes with the block comment that is open there, if there is one. -/
theorem withoutBlockComments_concat (line : List Char) :
    withoutBlockComments (line ++ [c]) =
      (if (withoutBlockComments line).2 then (withoutBlockComments line).1
        else (withoutBlockComments line).1 ++ [c], (withoutBlockComments line).2) := by
  have hstart := cut?_concat (not_mem_commentStart hblank) (List.cons_ne_nil _ _)
  have hend := cut?_concat (not_mem_commentEnd hblank) (List.cons_ne_nil _ _)
  fun_induction withoutBlockComments line with
  | case1 line hcut =>
    apply withoutBlockComments_of_not_infix
    rw [← cut?_eq_none_iff, hstart, hcut]
    rfl
  | case2 line before inside hcut hopen =>
    have hcut' : cut? commentStart (line ++ [c]) = some (before, inside ++ [c]) := by
      rw [hstart, hcut]
      rfl
    have hopen' : cut? commentEnd (inside ++ [c]) = none := by
      rw [hend, hopen]
      rfl
    exact withoutBlockComments_of_open hcut' hopen'
  | case3 line before inside hcut removed after hclosed ih =>
    have hcut' : cut? commentStart (line ++ [c]) = some (before, inside ++ [c]) := by
      rw [hstart, hcut]
      rfl
    have hclosed' : cut? commentEnd (inside ++ [c]) = some (removed, after ++ [c]) := by
      rw [hend, hclosed]
      rfl
    rw [← ih, List.append_assoc]
    exact withoutBlockComments_of_closed hcut' hclosed'

private theorem trim_beforeLineComment_concat (line : List Char) :
    trim (beforeLineComment .outside false (line ++ [c])) =
      trim (beforeLineComment .outside false line) := by
  by_cases hcomment : InLineComment line
  · rw [hcomment.beforeLineComment_append]
  · have hslash : [c].head? ≠ some '/' := by simp [ne_of_isBlank hblank '/']
    have hwhole := @beforeLineComment_append_of_not_inLineComment _ [] hcomment (by simp)
    rw [List.append_nil] at hwhole
    rw [hwhole, beforeLineComment_append_of_not_inLineComment hcomment hslash]
    have hend : ∀ quote afterColon, beforeLineComment quote afterColon [c] = [c] := by
      intro quote afterColon
      simp [beforeLineComment]
    rw [hend, beforeLineComment, List.append_nil,
      trim_append_of_allBlank_right (by simpa [allBlank] using hblank)]

/-- A blank at the end of a line makes no difference to its code. -/
theorem stripComments_concat (inComment : Bool) (line : List Char) :
    stripComments inComment (line ++ [c]) = stripComments inComment line := by
  have hcode : ∀ visible,
      trim (beforeLineComment .outside false (withoutBlockComments (visible ++ [c])).1) =
        trim (beforeLineComment .outside false (withoutBlockComments visible).1) ∧
      (withoutBlockComments (visible ++ [c])).2 = (withoutBlockComments visible).2 := by
    intro visible
    rw [withoutBlockComments_concat hblank]
    refine ⟨?_, rfl⟩
    split
    · rfl
    · exact trim_beforeLineComment_concat hblank _
  cases inComment with
  | false => simp only [stripComments, Bool.false_eq_true, if_false, hcode]
  | true =>
    have hend := cut?_concat (not_mem_commentEnd hblank) (List.cons_ne_nil _ _) line
    simp only [stripComments, if_true, hend]
    cases cut? commentEnd line with
    | none => rfl
    | some pair => simp only [Option.map_some, hcode]

end Blank

/-! ## Lines after lines -/

namespace Run

theorem openAfter_append (inComment : Bool) (front back : List (List Char)) :
    openAfter inComment (front ++ back) = openAfter (openAfter inComment front) back :=
  List.foldl_append

end Run

open Run

theorem codeLines_append (inComment : Bool) (front back : List (List Char)) :
    codeLines inComment (front ++ back) =
      codeLines inComment front ++ codeLines (openAfter inComment front) back := by
  induction front generalizing inComment with
  | nil => rfl
  | cons line front ih =>
    simp only [List.cons_append, codeLines, ih, List.append_assoc]
    rfl

/-- A blank at the end of the last line makes no difference to the code of the lines. -/
private theorem codeLines_concat_blank {c : Char} (hblank : isBlank c = true) (inComment : Bool)
    (front : List (List Char)) (last : List Char) :
    codeLines inComment (front ++ [last ++ [c]]) = codeLines inComment (front ++ [last]) ∧
      openAfter inComment (front ++ [last ++ [c]]) = openAfter inComment (front ++ [last]) := by
  have hlast : ∀ inComment,
      codeLines inComment [last ++ [c]] = codeLines inComment [last] ∧
        openAfter inComment [last ++ [c]] = openAfter inComment [last] := by
    intro inComment
    constructor
    · simp only [codeLines, stripComments_concat hblank]
    · exact congrArg Prod.snd (stripComments_concat hblank inComment last)
  simp only [codeLines_append, openAfter_append, hlast, and_self]

/-- The line breaks that sheets are put together with. -/
def lineBreaks : List String := ["\n", "\r\n"]

/-- The lines of two sheets are those of the first and those of the second. A carriage return at the
    end of the first may become part of the line break. -/
theorem exists_sourceLines_append (front back : String) {lineBreak : String}
    (hbreak : lineBreak ∈ lineBreaks) :
    ∃ lines, sourceLines (front ++ lineBreak ++ back) = lines ++ sourceLines back ∧
      ∀ inComment, codeLines inComment lines = codeLines inComment (sourceLines front) ∧
        openAfter inComment lines = openAfter inComment (sourceLines front) := by
  have hunix : unixLines (lineBreak.toList ++ back.toList) = '\n' :: unixLines back.toList := by
    simp only [lineBreaks, List.mem_cons, List.not_mem_nil, or_false] at hbreak
    obtain rfl | rfl := hbreak <;> simp [unixLines]
  by_cases hends : LineEnds front.toList (lineBreak.toList ++ back.toList)
  · refine ⟨sourceLines front, ?_, fun _ => ⟨rfl, rfl⟩⟩
    rw [sourceLines, String.toList_append, String.toList_append, List.append_assoc,
      hends.unixLines_append, hunix, splitOn_append_cons (by rfl)]
    rfl
  · obtain ⟨text, hfront, rfl⟩ : ∃ text, front.toList = text ++ ['\r'] ∧ lineBreak = "\n" := by
      simp only [lineBreaks, List.mem_cons, List.not_mem_nil, or_false] at hbreak
      obtain rfl | rfl := hbreak
      · have hreturn : front.toList.getLast? = some '\r' := by
          by_contra hlast
          exact hends (.lineFeed hlast)
        obtain ⟨text, htext⟩ := List.getLast?_eq_some_iff.mp hreturn
        exact ⟨text, htext, rfl⟩
      · exact absurd .carriageReturn hends
    obtain ⟨pieces, last, hpieces, hwhole⟩ :=
      @exists_splitOn_append (· == '\n') ['\r'] (unixLines text) (by simp)
    have hlines : sourceLines front = pieces ++ [last ++ ['\r']] := by
      rw [sourceLines, hfront, unixLines_append_of_head? (by simp)]
      exact hwhole
    refine ⟨pieces ++ [last], ?_, fun inComment => ?_⟩
    · have hbreak : unixLines ('\r' :: ("\n".toList ++ back.toList)) =
          '\n' :: unixLines back.toList := rfl
      rw [sourceLines, String.toList_append, String.toList_append, hfront, List.append_assoc,
        List.append_assoc, List.singleton_append, unixLines_append_of_head? (by simp), hbreak,
        splitOn_append_cons (by rfl), hpieces]
      rfl
    · rw [hlines]
      have h := codeLines_concat_blank (c := '\r') (by decide) inComment pieces last
      exact ⟨h.1.symm, h.2.symm⟩

/-- The code of two sheets: that of the first, and that of the second after what the first leaves
    open. -/
theorem codeLines_sourceLines_append (front back : String) {lineBreak : String}
    (hbreak : lineBreak ∈ lineBreaks) (inComment : Bool) :
    codeLines inComment (sourceLines (front ++ lineBreak ++ back)) =
      codeLines inComment (sourceLines front) ++
        codeLines (openAfter inComment (sourceLines front)) (sourceLines back) := by
  obtain ⟨lines, hlines, hfront⟩ := exists_sourceLines_append front back hbreak
  rw [hlines, codeLines_append, (hfront inComment).1, (hfront inComment).2]

/-- The machine goes on where the first sheet leaves it. -/
theorem machineAfter_append (front back : String) {lineBreak : String}
    (hbreak : lineBreak ∈ lineBreaks) :
    machineAfter (front ++ lineBreak ++ back) =
      (codeLines (openAfter false (sourceLines front)) (sourceLines back)).foldl
        Flattener.feedLine (machineAfter front) := by
  rw [machineAfter, codeLines_sourceLines_append front back hbreak, List.foldl_append]
  rfl

/-! ## Rules emitted before -/

namespace Flattener

/-- The state with rules emitted before its own. -/
def prefixed (rules : List FlatRule) (state : Flattener) : Flattener :=
  { state with rules := rules ++ state.rules }

variable (rules : List FlatRule) (state : Flattener)

theorem declare_prefixed (declaration : Declaration) :
    (state.prefixed rules).declare declaration = (state.declare declaration).prefixed rules := by
  obtain ⟨blocks, unfinished, emitted⟩ := state
  cases blocks <;> rfl

theorem closeBlock_prefixed :
    (state.prefixed rules).closeBlock = state.closeBlock.prefixed rules := by
  obtain ⟨blocks, unfinished, emitted⟩ := state
  cases blocks with
  | nil => rfl
  | cons block outer => simp only [prefixed, closeBlock, List.append_assoc]

theorem value_prefixed (property text : List Char) :
    (state.prefixed rules).value property text = (state.value property text).prefixed rules := by
  rw [value, value]
  cases terminated? text with
  | none => rfl
  | some complete =>
    exact declare_prefixed rules { state with unfinished := none }
      (Declaration.ofText property complete)

/-- The machine does not look back at the rules that it has emitted. -/
theorem feed_prefixed (segment : List Char) :
    (state.prefixed rules).feed segment = (state.feed segment).prefixed rules := by
  rw [feed, feed, show (state.prefixed rules).unfinished = state.unfinished from rfl]
  cases state.unfinished with
  | some u =>
    dsimp only
    split
    · rw [declare_prefixed, closeBlock_prefixed]
    · exact value_prefixed rules state _ _
  | none =>
    cases dropEnd? ['{'] segment with
    | some selector => rfl
    | none =>
      dsimp only
      split
      · exact closeBlock_prefixed rules state
      · cases cutAt? (· == ':') segment with
        | none => rfl
        | some pair =>
          dsimp only
          split
          · exact value_prefixed rules state _ _
          · rfl

theorem foldl_feedLine_prefixed (lines : List (List Char)) :
    lines.foldl feedLine (state.prefixed rules) = (lines.foldl feedLine state).prefixed rules := by
  apply List.foldl_hom (prefixed rules)
  intro state line
  exact List.foldl_hom (prefixed rules) fun state segment => feed_prefixed rules state segment

theorem finish_prefixed : (state.prefixed rules).finish = rules ++ state.finish :=
  List.append_assoc ..

end Flattener

/-! ## Sheets that leave nothing open -/

/-- No block, no value and no comment is open. -/
structure Stacked.AtRest (state : Stacked) : Prop where
  length_frames : state.frames.length = 1
  unfinished_eq : state.unfinished = none
  inComment_eq : state.inComment = false

/-- At rest the machine is as at the start, but for the rules that it has emitted. -/
theorem Stacked.AtRest.machineAfter_eq {source : String} (h : (stateAfter source).AtRest) :
    machineAfter source = Flattener.prefixed (flatten source) {} ∧
      openAfter false (sourceLines source) = false := by
  obtain ⟨stray, hstate⟩ := exists_stateAfter_eq source
  rw [hstate] at h
  rw [flatten_eq_finish_machineAfter]
  refine ⟨?_, h.inComment_eq⟩
  have hlength := h.length_frames
  have hunfinished := h.unfinished_eq
  generalize machineAfter source = machine at hlength hunfinished ⊢
  obtain ⟨blocks, unfinished, rules⟩ := machine
  obtain rfl : unfinished = none := hunfinished
  obtain rfl : blocks = [] := by simpa [ofMachine] using hlength
  simp [Flattener.prefixed, Flattener.finish]

/-- A sheet that leaves nothing open hands on nothing but its rules: what comes after it is
    flattened as if it stood alone, and gives its values to the properties in the style table before
    those of the first sheet. -/
theorem flatten_append_of_atRest {front : String} (h : (stateAfter front).AtRest)
    {lineBreak : String} (hbreak : lineBreak ∈ lineBreaks) (back : String) :
    flatten (front ++ lineBreak ++ back) = flatten front ++ flatten back ∧
      (∀ name, (StyleTable.ofSource (front ++ lineBreak ++ back)).contains name =
        ((StyleTable.ofSource front).contains name || (StyleTable.ofSource back).contains name)) ∧
      ∀ name property, (StyleTable.ofSource (front ++ lineBreak ++ back)).value? name property =
        ((StyleTable.ofSource back).value? name property).or
          ((StyleTable.ofSource front).value? name property) := by
  have hrules : flatten (front ++ lineBreak ++ back) = flatten front ++ flatten back := by
    rw [flatten_eq_finish_machineAfter, machineAfter_append front back hbreak, h.machineAfter_eq.1,
      h.machineAfter_eq.2, Flattener.foldl_feedLine_prefixed, Flattener.finish_prefixed]
    rfl
  refine ⟨hrules, fun name => ?_, fun name property => ?_⟩
  · simp only [StyleTable.ofSource, hrules, StyleTable.contains_ofRules, List.any_append]
  · simp only [StyleTable.ofSource, hrules, StyleTable.value?_ofRules, ruleValues_append,
      List.getLast?_append]

/-- A sheet that ends with a declaration outside all blocks and a closing brace too many. -/
def restingSheet : String := ".a\x7bcolor:red;width:1px;\x7d\ncolor:green;\x7d\r"

/-- A sheet that begins with a closing brace too many and ends in a block. -/
def brokenSheet : String := "\x7d\n.a\x7bcolor:blue;"

theorem flatten_append_brokenSheet :
    (stateAfter restingSheet).AtRest ∧ "\n" ∈ lineBreaks ∧
      flatten (restingSheet ++ "\n" ++ brokenSheet) =
        flatten restingSheet ++ flatten brokenSheet ∧
      (StyleTable.ofSource (restingSheet ++ "\n" ++ brokenSheet)).value? "a" "color" =
        some "blue" ∧
      (StyleTable.ofSource (restingSheet ++ "\n" ++ brokenSheet)).value? "a" "width" =
        some "1px" := by
  have hrest : (stateAfter restingSheet).AtRest :=
    ⟨by decide +kernel, by decide +kernel, by decide +kernel⟩
  have hbreak : "\n" ∈ lineBreaks := by decide
  obtain ⟨hrules, -, hvalue⟩ := flatten_append_of_atRest hrest hbreak brokenSheet
  refine ⟨hrest, hbreak, hrules, ?_, ?_⟩
  · rw [hvalue]
    decide +kernel
  · rw [hvalue]
    decide +kernel

end DesignCompiler.Stylesheet
