import DesignCompiler.Proofs.Stylesheet.Layout

/-!
# Flattening printed trees

The machine that flattening drives, fed with the segments of a printed tree, emits the rules of the
tree: those of nested blocks first, then those of a block itself.
-/

namespace DesignCompiler.Stylesheet

open Text

/-! ## Selectors -/

theorem selectorList_trim (text : List Char) : selectorList (trim text) = selectorList text := by
  have hcomma : ∀ c, isBlank c = true → (c == ',') = false := by
    intro c hblank
    simpa using ne_of_isBlank hblank ','
  rw [selectorList, selectorList, map_trim_splitOn_trim hcomma]

theorem selectorList_selectorText {selectors : List (List Char)}
    (hcomma : ∀ selector ∈ selectors, ',' ∉ selector) :
    selectorList (selectorText selectors) = properSelectors selectors := by
  cases selectors with
  | nil => rfl
  | cons selector selectors =>
    rw [selectorList, selectorText, splitOn_intercalate (List.cons_ne_nil _ _) hcomma,
      properSelectors]
    congr 1
    funext text
    cases text <;> rfl

/-- The machine resolves selectors as the tree does. -/
theorem combineSelectors_map_ofList {outer selectors : List (List Char)} {text : List Char}
    (htext : selectorList text = properSelectors selectors) :
    combineSelectors (outer.map String.ofList) (String.ofList text) =
      (resolvedSelectors outer selectors).map String.ofList := by
  rw [combineSelectors, String.toList_ofList, htext, resolvedSelectors]
  by_cases hproper : properSelectors selectors = []
  · rw [if_pos hproper, hproper]
    rfl
  · simp only [if_neg hproper, List.isEmpty_eq_false_iff.mpr hproper, Bool.false_eq_true, if_false,
      List.flatMap_map, List.map_flatMap, List.map_map, String.toList_ofList]
    refine List.flatMap_congr fun parent _ => ?_
    refine List.map_congr_left fun child _ => ?_
    simp only [Function.comp_apply, resolveSelector, nestedSelector, List.isEmpty_iff,
      List.contains_iff_mem]

/-! ## Single segments -/

/-- A character of a property name. -/
def isPropertyChar (c : Char) : Bool := isAsciiAlphanumeric c || c == '_' || c == '-'

private theorem passes_of_isPropertyChar {text : List Char}
    (h : ∀ c ∈ text, isPropertyChar c = true) : Passes .outside 0 text .outside 0 := by
  induction text with
  | nil => exact .nil
  | cons c text ih =>
    have hc := h c List.mem_cons_self
    have hne : ∀ mark, isPropertyChar mark = false → c ≠ mark := by
      rintro mark hmark rfl
      rw [hmark] at hc
      cases hc
    refine .cons (fun _ _ => ?_) ?_
    · simp [segmentMarks, hne '{' (by decide), hne '}' (by decide), hne ';' (by decide)]
    · have hquote : Quote.after .outside c = .outside := by
        simp [Quote.after, hne '\'' (by decide), hne '"' (by decide)]
      have hdepth : parenthesesAfter 0 c = 0 := by
        simp [parenthesesAfter, hne '(' (by decide), hne ')' (by decide)]
      rw [hquote, if_pos rfl, hdepth]
      exact ih fun d hd => h d (List.mem_cons_of_mem c hd)

/-- A scanner passes over the name of a property and the blanks around it. -/
theorem passes_of_isPropertyName {property : List Char}
    (hname : Flattener.isPropertyName (trim property) = true) :
    Passes .outside 0 property .outside 0 := by
  obtain ⟨front, back, hproperty, hfront, hback⟩ := exists_eq_append_trim property
  rw [Flattener.isPropertyName, Bool.and_eq_true, List.all_eq_true] at hname
  have h := ((passes_of_allBlank hfront).append (passes_of_isPropertyChar hname.2)).append
    (passes_of_allBlank hback)
  rwa [← hproperty] at h

/-- The value of a declaration is passed over, also from its first character that is not blank. -/
theorem passes_trimStart_value {property value : List Char}
    (hname : Flattener.isPropertyName (trim property) = true)
    (hsegment : SingleSegment (declarationText property value)) :
    Passes .outside 0 (trimStart value) .outside 0 := by
  have hcolon : Passes .outside 0 [':'] .outside 0 := .cons (fun _ _ => by decide) .nil
  obtain ⟨front, hfront, hblank⟩ := exists_eq_append_trimStart value
  have hbefore : Passes .outside 0 (property ++ [':'] ++ front) .outside 0 :=
    ((passes_of_isPropertyName hname).append hcolon).append (passes_of_allBlank hblank)
  refine hbefore.drop ?_
  have htext : property ++ [':'] ++ front ++ trimStart value = declarationText property value := by
    conv_rhs => rw [declarationText, hfront]
    simp
  rw [htext]
  exact hsegment.passes

/-- A text keeps its blanks inside quotes and parentheses, so trimming its end opens neither. -/
theorem passes_trim {text : List Char} (htext : Passes .outside 0 (trimStart text) .outside 0) :
    Passes .outside 0 (trim text) .outside 0 := by
  obtain ⟨back, hback, hblank⟩ := exists_trimStart_eq_append text
  rw [hback] at htext
  obtain ⟨middle, inner, hfront, hblanks⟩ := htext.of_append
  obtain ⟨rfl, rfl⟩ := hblanks.unique (passes_of_allBlank hblank)
  exact hfront

/-! ## Steps of the machine -/

theorem dropEnd?_of_passes {text : List Char} {mark : Char}
    (htext : Passes .outside 0 text .outside 0) (hmark : mark ∈ segmentMarks) :
    dropEnd? [mark] text = none := by
  cases text using List.reverseRecOn with
  | nil => rfl
  | append_singleton front c =>
    have hc : c ∉ segmentMarks := htext.last_not_mem
    rw [dropEnd?_singleton_concat, if_neg]
    rintro rfl
    exact hc hmark

theorem ofText_terminated {property value : List Char} :
    Declaration.ofText property (trimStart value ++ [';']) =
      ⟨String.ofList property, String.ofList (trim value)⟩ := by
  have hdrop : dropTerminator (trimStart (trimStart value) ++ [';']) =
      trimStart (trimStart value) := by
    rw [dropTerminator, dropEnd?_singleton_concat, if_pos rfl, Option.getD_some]
  have hvalue : trimEnd (trimStart (trimStart value)) = trim value :=
    (trim_eq_trimEnd _).symm.trans (trim_trimStart value)
  rw [Declaration.ofText, trim_concat (by decide), hdrop, hvalue]

/-- A trimmed value without a terminator stays as it is. -/
theorem ofText_trim_of_unterminated {property value : List Char}
    (hdrop : dropEnd? [';'] (trim value) = none) :
    Declaration.ofText property (trim value) =
      ⟨String.ofList property, String.ofList (trim value)⟩ := by
  have hkept : dropTerminator (trim value) = trim value := by
    rw [dropTerminator, hdrop, Option.getD_none]
  rw [Declaration.ofText, trim_trim, hkept, (isTrimmed_trim value).trimEnd_eq]

theorem ofText_trim {property value : List Char}
    (hvalue : Passes .outside 0 (trim value) .outside 0) :
    Declaration.ofText property (trim value) =
      ⟨String.ofList property, String.ofList (trim value)⟩ :=
  ofText_trim_of_unterminated (dropEnd?_of_passes hvalue (by decide))

theorem trimStart_declarationText (property value : List Char) :
    trimStart (declarationText property value) = declarationText (trimStart property) value :=
  trimStart_append_cons (by decide)

theorem trim_declarationText (property value : List Char) :
    trim (declarationText property value) =
      declarationText (trimStart property) (trimEnd value) := by
  rw [trim_eq_trimEnd, trimStart_declarationText, declarationText,
    trimEnd_append_cons (by decide), declarationText]

namespace Flattener

variable {state : Flattener}

/-- What the machine makes of a declaration: nothing unless it has the name of a property. -/
def declareItem (state : Flattener) (property value : List Char) : Flattener :=
  match (Item.declaration property value).declaration? with
  | some declaration => state.declare declaration
  | none => state

theorem declareItem_of_name {property value : List Char}
    (hname : isPropertyName (trim property) = true) :
    state.declareItem property value =
      state.declare ⟨String.ofList (trim property), String.ofList (trim value)⟩ := by
  rw [declareItem, Item.declaration?, if_pos hname]

theorem declareItem_of_not_name {property value : List Char}
    (hname : ¬ isPropertyName (trim property) = true) :
    state.declareItem property value = state := by
  rw [declareItem, Item.declaration?, if_neg hname]

/-- A segment that neither opens nor closes a block begins a declaration. -/
theorem feed_declarationText {property value : List Char} (hstate : state.unfinished = none)
    (hcolon : ':' ∉ property) (hopen : dropEnd? ['{'] (declarationText property value) = none) :
    state.feed (declarationText property value) =
      if isPropertyName (trim property) then state.value (trim property) (trim value)
      else state := by
  have hclose : (declarationText property value == ['}']) = false := by
    rw [beq_eq_false_iff_ne]
    intro h
    have hmem : ':' ∈ declarationText property value := by simp [declarationText]
    rw [h] at hmem
    simp at hmem
  have hcut : cutAt? (· == ':') (declarationText property value) = some (property, value) :=
    cutAt?_append_mark hcolon value
  rw [feed, hstate]
  simp only [hopen, hclose, hcut, Bool.false_eq_true, if_false]

/-- A declaration with its `;` goes to the innermost block. -/
theorem feed_declaration {property value : List Char} (hstate : state.unfinished = none)
    (hcolon : ':' ∉ property) (hsegment : SingleSegment (declarationText property value)) :
    state.feed (trim (declarationText property value ++ [';'])) =
      state.declareItem property value := by
  have htext : trim (declarationText property value ++ [';']) =
      declarationText (trimStart property) (value ++ [';']) := by
    rw [trim_concat (by decide), trimStart_declarationText, declarationText, declarationText,
      List.append_assoc]
    rfl
  have hopen : dropEnd? ['{'] (declarationText (trimStart property) (value ++ [';'])) = none := by
    rw [declarationText, ← List.cons_append, ← List.append_assoc, dropEnd?_singleton_concat,
      if_neg (by decide)]
  have hfinished : { state with unfinished := none } = state := by
    rw [← hstate]
  rw [htext, feed_declarationText hstate (mt mem_of_mem_trimStart hcolon) hopen, trim_trimStart]
  by_cases hname : isPropertyName (trim property) = true
  · have hterminated :
        terminated? (trimStart value ++ [';']) = some (trimStart value ++ [';']) := by
      rw [terminated?, terminatedFrom_of_passes (passes_trimStart_value hname hsegment)]
      rfl
    rw [if_pos hname, declareItem_of_name hname, trim_concat (by decide), Flattener.value,
      hterminated]
    simp only [ofText_terminated, hfinished]
  · rw [if_neg hname, declareItem_of_not_name hname]

/-- The last declaration of a block, without its `;`, and the brace that closes the block. -/
theorem feed_last {property value : List Char} (hstate : state.unfinished = none)
    (hcolon : ':' ∉ property) (hsegment : SingleSegment (declarationText property value)) :
    (state.feed (trim (declarationText property value))).feed ['}'] =
      (state.declareItem property value).closeBlock := by
  have htext := trim_declarationText property value
  have hopen : dropEnd? ['{'] (declarationText (trimStart property) (trimEnd value)) = none := by
    rw [← htext]
    obtain ⟨front, hfront, hblank⟩ := exists_eq_append_trimStart (declarationText property value)
    have hpasses := hsegment.passes
    rw [hfront] at hpasses
    exact dropEnd?_of_passes (passes_trim ((passes_of_allBlank hblank).drop hpasses)) (by decide)
  rw [htext, feed_declarationText hstate (mt mem_of_mem_trimStart hcolon) hopen, trim_trimStart,
    trim_trimEnd]
  by_cases hname : isPropertyName (trim property) = true
  · have hvalue := passes_trim (passes_trimStart_value hname hsegment)
    have hunterminated : terminated? (trim value) = none := by
      have h := terminatedFrom_of_passes hvalue []
      rw [List.append_nil] at h
      rw [terminated?, h]
      rfl
    rw [if_pos hname, declareItem_of_name hname, Flattener.value, hunterminated, feed]
    simp only [beq_self_eq_true, if_true, ofText_trim hvalue]
    cases hblocks : state.blocks <;> simp [declare, closeBlock, hblocks]
  · rw [if_neg hname, declareItem_of_not_name hname, feed, hstate]
    rfl

/-- The brace in front of a block opens it inside the innermost one. -/
theorem feed_opening {text : List Char} (hstate : state.unfinished = none) :
    state.feed (trim (text ++ ['{'])) = state.openBlock (trim text) := by
  rw [feed, hstate, trim_concat (by decide), dropEnd?_singleton_concat, if_pos rfl]
  simp only [trim_trimStart]

/-- A lone closing brace closes the innermost block. -/
theorem feed_closing (hstate : state.unfinished = none) :
    state.feed ['}'] = state.closeBlock := by
  rw [feed, hstate]
  rfl

/-! ## Runs of the machine -/

/-- The selectors that a block opened now is nested in. -/
def scope (state : Flattener) : List String :=
  match state.blocks with
  | [] => [""]
  | block :: _ => block.selectors

theorem openBlock_eq (state : Flattener) (selector : List Char) :
    state.openBlock selector =
      { state with
        blocks := ⟨combineSelectors state.scope (String.ofList selector), []⟩ :: state.blocks } :=
  rfl

/-- No value is unfinished, and blocks opened now are nested in the selectors `outer`. -/
structure InScope (state : Flattener) (outer : List (List Char)) : Prop where
  finished : state.unfinished = none
  scope_eq : state.scope = outer.map String.ofList

/-- The state in which items inside blocks with selectors `outer` leave the machine: the rules of
    nested blocks are emitted, and declarations wait in the innermost block. -/
def after (state : Flattener) (outer : List (List Char)) (items : List Item) : Flattener where
  blocks := match state.blocks with
    | [] => []
    | block :: rest =>
      { block with declarations := block.declarations ++ ownDeclarations items } :: rest
  unfinished := none
  rules := state.rules ++ rulesOfItems .nestedFirst outer items

variable {outer : List (List Char)}

theorem InScope.after_nil (hscope : state.InScope outer) : state.after outer [] = state := by
  obtain ⟨blocks, unfinished, rules⟩ := state
  obtain rfl : unfinished = none := hscope.finished
  cases blocks <;> simp [after, ownDeclarations, rulesOfItems]

theorem InScope.declareItem (hscope : state.InScope outer) (property value : List Char) :
    (state.declareItem property value).InScope outer := by
  obtain ⟨blocks, unfinished, rules⟩ := state
  rw [Flattener.declareItem]
  split
  · cases blocks with
    | nil => exact hscope
    | cons block rest => exact ⟨hscope.finished, hscope.scope_eq⟩
  · exact hscope

theorem after_declareItem (property value : List Char) (items : List Item) :
    (state.declareItem property value).after outer items =
      state.after outer (.declaration property value :: items) := by
  obtain ⟨blocks, unfinished, rules⟩ := state
  rw [Flattener.declareItem]
  cases hdeclaration : (Item.declaration property value).declaration? <;> cases blocks <;>
    simp [after, Flattener.declare, ownDeclarations, rulesOfItems, Item.rules, hdeclaration]

/-- The state with a block opened in it. -/
def opened (state : Flattener) (resolved : List (List Char)) : Flattener :=
  { state with blocks := ⟨resolved.map String.ofList, []⟩ :: state.blocks }

/-- The selectors of a block are resolved against those in scope. -/
theorem InScope.openBlock_selectorText (hscope : state.InScope outer)
    {selectors : List (List Char)} (hcomma : ∀ selector ∈ selectors, ',' ∉ selector) :
    state.openBlock (trim (selectorText selectors)) =
      state.opened (resolvedSelectors outer selectors) := by
  have htext : selectorList (trim (selectorText selectors)) = properSelectors selectors := by
    rw [selectorList_trim, selectorList_selectorText hcomma]
  rw [openBlock_eq, hscope.scope_eq, combineSelectors_map_ofList htext, opened]

theorem InScope.opened (hscope : state.InScope outer) (resolved : List (List Char)) :
    (state.opened resolved).InScope resolved := ⟨hscope.finished, rfl⟩

theorem InScope.closeBlock (hscope : state.InScope outer) {resolved : List (List Char)}
    {body : List Item} : ((state.opened resolved).after resolved body).closeBlock.InScope outer :=
  ⟨rfl, hscope.scope_eq⟩

theorem rules_block (resolved : List (List Char)) (declarations : List Declaration) :
    Block.rules ⟨resolved.map String.ofList, declarations⟩ = ownRules resolved declarations := by
  have hempty : (fun selector : List Char => decide (String.ofList selector ≠ "")) =
      fun selector => decide (selector ≠ []) := by
    funext selector
    simp [← String.ofList_nil]
  simp only [Block.rules, ownRules, List.isEmpty_iff, List.filter_map, List.map_map,
    Function.comp_def, hempty]

/-- Once the body of a nested block has run and the block is closed, its rules are emitted. -/
theorem after_closeBlock (selectors : List (List Char)) (body items : List Item) :
    ((state.opened (resolvedSelectors outer selectors)).after (resolvedSelectors outer selectors)
        body).closeBlock.after outer items =
      state.after outer (.block selectors body :: items) := by
  have hown : ownDeclarations (.block selectors body :: items) = ownDeclarations items := rfl
  simp only [after, Flattener.opened, Flattener.closeBlock, List.nil_append, rules_block,
    rulesOfItems, Item.rules, EmissionOrder.arrange, List.append_assoc, hown]

end Flattener

open Flattener

private theorem not_allBlank_declarationText (property value : List Char) :
    allBlank (declarationText property value) = false := by
  simp [declarationText, allBlank, show isBlank ':' = false by decide]

/-- A printed tree is laid out as segments that make the machine emit the rules of the tree. Within
    a block the last of them closes it. -/
theorem Printed.exists_segments {inBlock : Bool} {items : List Item} {text : List Char}
    (hprinted : Printed inBlock items text) (hitems : ∀ item ∈ items, item.WellFormed) :
    ∃ segments,
      (∀ others tail, Laid others tail → Laid (segments ++ others) (text ++ tail)) ∧
      ∀ (state : Flattener) outer, state.InScope outer →
        segments.foldl feed state =
          if inBlock then (state.after outer items).closeBlock else state.after outer items := by
  induction hprinted with
  | done =>
    refine ⟨[], fun others tail h => h, fun state outer hscope => ?_⟩
    exact hscope.after_nil.symm
  | close =>
    refine ⟨[['}']], fun others tail h => ?_, fun state outer hscope => ?_⟩
    · exact .segment '}' .nil (by decide) (by decide) h
    · rw [if_pos rfl, hscope.after_nil]
      exact feed_closing hscope.finished
  | @last property value =>
    cases hitems _ List.mem_cons_self with
    | declaration hcolon hsegment =>
      refine ⟨[trim (declarationText property value), ['}']], fun others tail h => ?_,
        fun state outer hscope => ?_⟩
      · have hlaid := Laid.segment '}' hsegment (by decide) (fun h => absurd h (by decide)) h
        simpa [endedSegments, not_allBlank_declarationText] using hlaid
      · rw [if_pos rfl, ← after_declareItem, (hscope.declareItem _ _).after_nil]
        exact feed_last hscope.finished hcolon hsegment
  | @declaration inBlock property value text rest gap hgap _ ih =>
    obtain ⟨segments, hlaid, hrun⟩ := ih fun item hitem =>
      hitems item (List.mem_cons_of_mem _ hitem)
    cases hitems _ List.mem_cons_self with
    | declaration hcolon hsegment =>
      refine ⟨trim (declarationText property value ++ [';']) :: segments, fun others tail h => ?_,
        fun state outer hscope => ?_⟩
      · have hlaid' := Laid.segment ';' hsegment (by decide)
          (fun h => absurd h (by decide)) ((hlaid others tail h).append_blanks hgap)
        simpa [endedSegments] using hlaid'
      · rw [List.foldl_cons, feed_declaration hscope.finished hcolon hsegment,
          hrun _ outer (hscope.declareItem _ _), after_declareItem]
  | @block inBlock selectors body rest bodyText text gap outerGap hgap _ houterGap _
      ihBody ihRest =>
    obtain ⟨segments, hlaid, hrun⟩ :=
      ihRest fun item hitem => hitems item (List.mem_cons_of_mem _ hitem)
    cases hitems _ List.mem_cons_self with
    | block hcomma hsegment hhash hbody =>
      obtain ⟨bodySegments, hbodyLaid, hbodyRun⟩ := ihBody hbody
      refine ⟨trim (selectorText selectors ++ ['{']) :: bodySegments ++ segments,
        fun others tail h => ?_, fun state outer hscope => ?_⟩
      · have hinside := hbodyLaid _ _ ((hlaid others tail h).append_blanks houterGap)
        have hlaid' := Laid.segment '{' hsegment (by decide) (fun _ => hhash)
          (hinside.append_blanks hgap)
        simpa [endedSegments] using hlaid'
      · rw [List.cons_append, List.foldl_cons, feed_opening hscope.finished,
          hscope.openBlock_selectorText hcomma, List.foldl_append,
          hbodyRun _ _ (hscope.opened _), if_pos rfl, hrun _ outer hscope.closeBlock,
          after_closeBlock]

/-- The run of the machine over a whole printed sheet. -/
theorem Printed.flatten_eq_finish {sheet : List Item} {text : List Char}
    (hprinted : Printed false sheet text) (hsheet : ∀ item ∈ sheet, item.WellFormed) :
    flatten (String.ofList text) = (after {} topLevel sheet).finish := by
  obtain ⟨segments, hlaid, hrun⟩ := hprinted.exists_segments hsheet
  have htext : Laid segments text := by simpa using hlaid [] [] .nil
  rw [flatten_eq, String.toList_ofList, htext.sourceSegments_eq]
  exact congrArg finish (hrun {} topLevel ⟨rfl, rfl⟩)

theorem finish_after (sheet : List Item) :
    (after {} topLevel sheet).finish = rulesOfItems .nestedFirst topLevel sheet := by
  simp [after, finish]

/-- Flattening a printed tree gives the rules of the tree: depth first, a block after the blocks
    nested in it. -/
theorem flatten_printed {sheet : List Item} {text : List Char}
    (hsheet : ∀ item ∈ sheet, item.WellFormed) (hprinted : Printed false sheet text) :
    flatten (String.ofList text) = rulesOfItems .nestedFirst topLevel sheet := by
  rw [hprinted.flatten_eq_finish hsheet, finish_after]

/-- Two levels, with a list of selectors and a declaration after a nested block. -/
def cardSheet : List Item :=
  [.block [".card".toList]
    [.block ["&:hover".toList, ".icon".toList] [.declaration "width".toList " 1px".toList],
      .declaration "color".toList "red".toList]]

/-- The sheet on one line, its last declaration without `;`. -/
theorem flatten_printed_cardSheet :
    flatten ".card\x7b&:hover,.icon\x7bwidth: 1px;\x7dcolor:red\x7d" =
      [⟨".card:hover", [⟨"width", "1px"⟩]⟩, ⟨".card .icon", [⟨"width", "1px"⟩]⟩,
        ⟨".card", [⟨"color", "red"⟩]⟩] := by
  have hsheet : ∀ item ∈ cardSheet, item.WellFormed := by
    simp only [cardSheet, List.forall_mem_singleton]
    refine .block (by decide) (.of_all (by decide)) (by decide) ?_
    refine List.forall_mem_cons.mpr ⟨.block (by decide) (.of_all (by decide)) (by decide) ?_,
      List.forall_mem_singleton.mpr ?_⟩
    · simp only [List.forall_mem_singleton]
      exact .declaration (by decide) (.of_all (by decide))
    · exact .declaration (by decide) (.of_all (by decide))
  have hprinted : Printed false cardSheet
      ".card\x7b&:hover,.icon\x7bwidth: 1px;\x7dcolor:red\x7d".toList :=
    .block [] [] rfl
      (.block [] [] rfl (.declaration [] rfl .close) rfl .last)
      rfl .done
  rw [show ".card\x7b&:hover,.icon\x7bwidth: 1px;\x7dcolor:red\x7d" = String.ofList
    ".card\x7b&:hover,.icon\x7bwidth: 1px;\x7dcolor:red\x7d".toList by simp,
    flatten_printed hsheet hprinted]
  decide +kernel

/-- A selector that ends in `#` makes an interpolation of the brace after it, so no block opens, and
    a name that no property can have declares nothing. -/
theorem flatten_interpolation_mark :
    SingleSegment ['.', 'a', '#'] ∧ SingleSegment "color:red".toList ∧
      Printed false [.block [['.', 'a', '#']] [.declaration "color".toList "red".toList]]
        ".a#\x7bcolor:red;\x7d".toList ∧
      flatten ".a#\x7bcolor:red;\x7d" ≠ [⟨".a#", [⟨"color", "red"⟩]⟩] ∧
      flatten ".a\x7b$w:1px;\x7d" ≠ [⟨".a", [⟨"$w", "1px"⟩]⟩] := by
  refine ⟨.of_all (by decide), .of_all (by decide), ?_, by decide +kernel, by decide +kernel⟩
  exact .block [] [] rfl (.declaration [] rfl .close) rfl .done

end DesignCompiler.Stylesheet
