import DesignCompiler.Stylesheet.Flatten

/-!
# Nested stylesheets

A nested stylesheet as a tree, the flat rules that it stands for, and its printed forms. In a
printed form blanks and line breaks stand only after `{`, `;` and `}`, and the last declaration of
a block may lack its `;`.
-/

namespace DesignCompiler.Stylesheet

open Text

/-- What a block holds: declarations, and blocks nested in it. The selectors of a block are what
    commas separate in front of its brace. -/
inductive Item where
  | declaration (property value : List Char)
  | block (selectors : List (List Char)) (body : List Item)

/-! ## The rules of a tree -/

/-- The selectors that count: trimmed, without blank ones. -/
def properSelectors (selectors : List (List Char)) : List (List Char) :=
  (selectors.map trim).filter (· ≠ [])

/-- A selector inside a block: `&` stands for the selector of the block, and a selector without it
    is a descendant. Outside all blocks the parent is empty. -/
def nestedSelector (parent child : List Char) : List Char :=
  if parent = [] then child
  else if '&' ∈ child then replaceChar '&' parent child
  else parent ++ ' ' :: child

/-- The selectors that those of a block resolve to inside blocks with selectors `outer`, parent by
    parent. A block without proper selectors has those of its parents. -/
def resolvedSelectors (outer selectors : List (List Char)) : List (List Char) :=
  if properSelectors selectors = [] then outer
  else outer.flatMap fun parent => (properSelectors selectors).map (nestedSelector parent)

/-- The selectors outside all blocks. -/
def topLevel : List (List Char) := [[]]

/-- The declaration that an item is, its value trimmed, if it has the name of a property. -/
def Item.declaration? : Item → Option Declaration
  | .declaration property value =>
    if Flattener.isPropertyName (trim property) then
      some ⟨String.ofList (trim property), String.ofList (trim value)⟩
    else none
  | .block _ _ => none

/-- The declarations of a block itself, in source order. Other names than those of properties
    declare nothing. -/
def ownDeclarations (body : List Item) : List Declaration := body.filterMap Item.declaration?

/-- One rule for each selector that is not empty, if there is anything to declare. -/
def ownRules (resolved : List (List Char)) (declarations : List Declaration) : List FlatRule :=
  if declarations = [] then []
  else (resolved.filter (· ≠ [])).map fun selector => ⟨String.ofList selector, declarations⟩

/-- Where the rules of a block itself stand among those of the blocks nested in it. -/
inductive EmissionOrder where
  | nestedFirst
  | ownFirst

/-- The rules of a block itself and those nested in it, arranged. -/
def EmissionOrder.arrange (order : EmissionOrder) (own nested : List FlatRule) : List FlatRule :=
  match order with
  | .nestedFirst => nested ++ own
  | .ownFirst => own ++ nested

mutual

/-- The flat rules of an item inside blocks with the given selectors. -/
def Item.rules (order : EmissionOrder) (outer : List (List Char)) : Item → List FlatRule
  | .declaration _ _ => []
  | .block selectors body =>
    order.arrange (ownRules (resolvedSelectors outer selectors) (ownDeclarations body))
      (rulesOfItems order (resolvedSelectors outer selectors) body)

/-- The flat rules of items, one item after another. -/
def rulesOfItems (order : EmissionOrder) (outer : List (List Char)) : List Item → List FlatRule
  | [] => []
  | item :: rest => item.rules order outer ++ rulesOfItems order outer rest

end

theorem rulesOfItems_append {order : EmissionOrder} {outer : List (List Char)}
    (front back : List Item) : rulesOfItems order outer (front ++ back) =
      rulesOfItems order outer front ++ rulesOfItems order outer back := by
  induction front with
  | nil => rfl
  | cons item front ih => rw [List.cons_append, rulesOfItems, rulesOfItems, ih, List.append_assoc]

/-! ## Well-formed trees -/

/-- Text with balanced quotes and parentheses, and none of the characters `forbidden` outside
    both. -/
inductive Balanced : List Char → List Char → Prop where
  | nil {forbidden : List Char} : Balanced forbidden []
  | plain {forbidden : List Char} {c : Char} {rest : List Char} :
      c ∉ ['\'', '"', '(', ')'] → c ∉ forbidden → Balanced forbidden rest →
      Balanced forbidden (c :: rest)
  | quoted {forbidden : List Char} {quote : Char} {inside rest : List Char} :
      quote ∈ ['\'', '"'] → quote ∉ inside → Balanced forbidden rest →
      Balanced forbidden (quote :: inside ++ quote :: rest)
  | parentheses {forbidden inside rest : List Char} :
      Balanced [] inside → Balanced forbidden rest →
      Balanced forbidden ('(' :: inside ++ ')' :: rest)

/-- The marks that end a segment. -/
def segmentMarks : List Char := ['{', '}', ';']

/-- Text that no scanner cuts or cuts short: a single line, balanced, without the marks of a segment
    outside quotes and parentheses, without comments. Right after a colon `//` starts no
    comment. -/
structure SingleSegment (text : List Char) : Prop where
  singleLine : '\n' ∉ text
  balanced : Balanced segmentMarks text
  noBlockComment : ¬ commentStart <:+: text
  noLineComment : ∀ before after, text = before ++ '/' :: '/' :: after →
    before.foldl Quote.after .outside = .outside → before.getLast? = some ':'

theorem SingleSegment.nil : SingleSegment [] where
  singleLine := List.not_mem_nil
  balanced := .nil
  noBlockComment := by simp [commentStart]
  noLineComment := by
    intro before after htext
    simp at htext

/-- The characters that one of the scanners heeds. -/
def heededMarks : List Char := '\n' :: '/' :: ['\'', '"', '(', ')'] ++ segmentMarks

/-- Text without any of the characters that scanners heed is a single segment. -/
theorem SingleSegment.of_all {text : List Char}
    (htext : text.all (!heededMarks.contains ·) = true) : SingleSegment text := by
  have hfree : ∀ c ∈ text, c ∉ heededMarks := by simpa using htext
  have hne : ∀ mark ∈ heededMarks, mark ∉ text := fun mark hmark hmem => hfree mark hmem hmark
  refine ⟨hne '\n' (by decide), ?_, fun hinside => ?_, fun before after heq => ?_⟩
  · clear hne htext
    induction text with
    | nil => exact .nil
    | cons c text ih =>
      have hc := hfree c List.mem_cons_self
      refine .plain (fun h => hc ?_) (fun h => hc ?_) (ih fun d hd => hfree d (.tail c hd))
      · exact List.mem_append_left _ (.tail _ (.tail _ h))
      · exact List.mem_append_right _ h
  · exact absurd (List.IsInfix.subset hinside (by decide : '/' ∈ commentStart))
      (hne '/' (by decide))
  · exact absurd (by simp [heq]) (hne '/' (by decide))

/-- The selectors of a block as they are written. -/
def selectorText (selectors : List (List Char)) : List Char := [','].intercalate selectors

/-- A declaration as it is written, without its `;`. -/
def declarationText (property value : List Char) : List Char := property ++ ':' :: value

/-- A tree whose texts are single segments. A list of selectors does not end in `#`, which would
    make an interpolation of the brace after it. -/
inductive Item.WellFormed : Item → Prop where
  | declaration {property value : List Char} :
      ':' ∉ property →
      SingleSegment (declarationText property value) →
      Item.WellFormed (.declaration property value)
  | block {selectors : List (List Char)} {body : List Item} :
      (∀ selector ∈ selectors, ',' ∉ selector) →
      SingleSegment (selectorText selectors) →
      (trimEnd (selectorText selectors)).getLast? ≠ some '#' →
      (∀ item ∈ body, item.WellFormed) →
      Item.WellFormed (.block selectors body)

/-! ## Printed trees -/

/-- The printed forms of items at the top level, and of the body of a block through its closing
    brace. -/
inductive Printed : (inBlock : Bool) → List Item → List Char → Prop where
  | done : Printed false [] []
  | close : Printed true [] ['}']
  | last {property value : List Char} :
      Printed true [.declaration property value] (declarationText property value ++ ['}'])
  | declaration {inBlock : Bool} {property value text : List Char} {rest : List Item}
      (gap : List Char) :
      allBlank gap = true → Printed inBlock rest text →
      Printed inBlock (.declaration property value :: rest)
        (declarationText property value ++ ';' :: gap ++ text)
  | block {inBlock : Bool} {selectors : List (List Char)} {body rest : List Item}
      {bodyText text : List Char} (gap outerGap : List Char) :
      allBlank gap = true → Printed true body bodyText →
      allBlank outerGap = true → Printed inBlock rest text →
      Printed inBlock (.block selectors body :: rest)
        (selectorText selectors ++ '{' :: gap ++ bodyText ++ outerGap ++ text)

end DesignCompiler.Stylesheet
