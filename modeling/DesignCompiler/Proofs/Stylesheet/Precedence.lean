import DesignCompiler.Proofs.Stylesheet.Expansion
import DesignCompiler.Proofs.Stylesheet.Merging

/-!
# Precedence

A stylesheet compiler expands a nested sheet into a flat one that gives the rules of a block before
those of the blocks nested in it. Flattening gives them after these. Since the last value counts,
the innermost of several nested blocks wins in the one table and the outermost in the other.
-/

namespace DesignCompiler.Stylesheet

open Text

/-! ## Contending blocks -/

/-- The value that a block itself gives a property of a class. -/
def ownValue? (name property : String) (resolved : List (List Char))
    (declarations : List Declaration) : Option String :=
  if resolved.any fun selector => lastClassName? (String.ofList selector) = some name then
    (declaredValues property declarations).getLast?
  else none

mutual

/-- The values that contend for a property of a class in an item. -/
def Item.contenders (name property : String) (outer : List (List Char)) : Item → List String
  | .declaration _ _ => []
  | .block selectors body =>
    (ownValue? name property (resolvedSelectors outer selectors) (ownDeclarations body)).toList ++
      contenders name property (resolvedSelectors outer selectors) body

/-- The values that contend for a property of a class: those of the last block in source order that
    gives it a value and of the blocks around it, the outermost first. -/
def contenders (name property : String) (outer : List (List Char)) : List Item → List String
  | [] => []
  | item :: rest =>
    if contenders name property outer rest = [] then item.contenders name property outer
    else contenders name property outer rest

end

private theorem getLast?_flatMap_ite {α β : Type} {p : α → Bool} (values : List β)
    (xs : List α) :
    (xs.flatMap fun x => if p x then values else []).getLast? =
      if xs.any p then values.getLast? else none := by
  induction xs with
  | nil => rfl
  | cons x xs ih =>
    rw [List.flatMap_cons, List.getLast?_append, ih, List.any_cons]
    cases p x <;> cases xs.any p <;> cases hlast : values.getLast? <;> simp [hlast]

theorem getLast?_ruleValues_ownRules (name property : String) (resolved : List (List Char))
    (declarations : List Declaration) :
    (ruleValues name property (ownRules resolved declarations)).getLast? =
      ownValue? name property resolved declarations := by
  rw [ownRules, ownValue?]
  split
  · rename_i hempty
    subst hempty
    simp [ruleValues, declaredValues]
  · have hany : ((resolved.filter (· ≠ [])).any fun selector =>
        lastClassName? (String.ofList selector) = some name) =
        resolved.any fun selector => lastClassName? (String.ofList selector) = some name := by
      rw [List.any_filter]
      congr 1
      funext selector
      cases selector <;> simp [show lastClassName? (String.ofList []) = none by decide +kernel]
    rw [ruleValues, List.flatMap_map, ← hany, ← getLast?_flatMap_ite]
    simp only [decide_eq_true_eq]

/-- The contender that wins. -/
def EmissionOrder.winner (order : EmissionOrder) (values : List String) : Option String :=
  match order with
  | .nestedFirst => values.head?
  | .ownFirst => values.getLast?

mutual

/-- Where the rules of a block come after those nested in it, the outermost contender wins, else the
    innermost. -/
theorem Item.getLast?_ruleValues (order : EmissionOrder) (name property : String)
    (outer : List (List Char)) : ∀ item : Item,
      (ruleValues name property (item.rules order outer)).getLast? =
        order.winner (item.contenders name property outer)
  | .declaration _ _ => by
    cases order <;> rfl
  | .block selectors body => by
    have hbody := getLast?_ruleValues order name property (resolvedSelectors outer selectors) body
    have hown := getLast?_ruleValues_ownRules name property (resolvedSelectors outer selectors)
      (ownDeclarations body)
    rw [Item.rules, Item.contenders]
    cases order with
    | nestedFirst =>
      rw [EmissionOrder.arrange, ruleValues_append, List.getLast?_append, hown, hbody,
        EmissionOrder.winner, EmissionOrder.winner, List.head?_append, Option.head?_toList]
    | ownFirst =>
      rw [EmissionOrder.arrange, ruleValues_append, List.getLast?_append, hown, hbody,
        EmissionOrder.winner, EmissionOrder.winner, List.getLast?_append]
      congr 1
      cases ownValue? name property _ (ownDeclarations body) <;> rfl

theorem getLast?_ruleValues (order : EmissionOrder) (name property : String)
    (outer : List (List Char)) : ∀ items : List Item,
      (ruleValues name property (rulesOfItems order outer items)).getLast? =
        order.winner (contenders name property outer items)
  | [] => by
    cases order <;> rfl
  | item :: rest => by
    rw [rulesOfItems, ruleValues_append, List.getLast?_append,
      getLast?_ruleValues order name property outer rest,
      Item.getLast?_ruleValues order name property outer item, contenders]
    cases hrest : contenders name property outer rest with
    | nil => cases order <;> rfl
    | cons value values => cases order <;> simp [EmissionOrder.winner, List.getLast?_cons]

end

mutual

/-- The order of rules has no part in which rules there are. -/
theorem Item.any_rules (order : EmissionOrder) (p : FlatRule → Bool) (outer : List (List Char)) :
    ∀ item : Item, (item.rules order outer).any p = (item.rules .ownFirst outer).any p
  | .declaration _ _ => rfl
  | .block selectors body => by
    have hbody := any_rulesOfItems order p (resolvedSelectors outer selectors) body
    rw [Item.rules, Item.rules]
    cases order with
    | nestedFirst =>
      rw [EmissionOrder.arrange, EmissionOrder.arrange, List.any_append, List.any_append, hbody,
        Bool.or_comm]
    | ownFirst => rfl

theorem any_rulesOfItems (order : EmissionOrder) (p : FlatRule → Bool) (outer : List (List Char)) :
    ∀ items : List Item,
      (rulesOfItems order outer items).any p = (rulesOfItems .ownFirst outer items).any p
  | [] => rfl
  | item :: rest => by
    rw [rulesOfItems, rulesOfItems, List.any_append, List.any_append,
      Item.any_rules order p outer item, any_rulesOfItems order p outer rest]

end

/-! ## Tables -/

theorem ofSource_printed {sheet : List Item} {text : List Char}
    (hsheet : ∀ item ∈ sheet, item.WellFormed) (hprinted : Printed false sheet text) :
    StyleTable.ofSource (String.ofList text) =
      StyleTable.ofRules (rulesOfItems .nestedFirst topLevel sheet) := by
  rw [StyleTable.ofSource, hprinted.flatten_eq_finish hsheet, finish_after]

/-- The table of an expansion is that of the rules of the nested sheet, those of a block itself
    first. -/
theorem IsExpansion.ofSource_eq {sheet flat : List Item} {text : List Char}
    (hexpansion : IsExpansion sheet flat) (hflat : ∀ item ∈ flat, item.WellFormed)
    (hprinted : Printed false flat text) :
    StyleTable.ofSource (String.ofList text) =
      StyleTable.ofRules (rulesOfItems .ownFirst topLevel sheet) := by
  rw [ofSource_printed hflat hprinted, rulesOfItems_of_isFlat hexpansion.isFlat,
    hexpansion.rules_eq]

/-- With a compiler that expands the sheet, the table has the classes that it has without one. A
    property has the value of its innermost contender instead of the outermost, so the tables agree
    where these two are the same. -/
theorem compile_expansion {sheet flat : List Item} {text css : List Char} {run : Preprocessor}
    (hsheet : ∀ item ∈ sheet, item.WellFormed) (hprinted : Printed false sheet text)
    (hexpansion : IsExpansion sheet flat) (hflat : ∀ item ∈ flat, item.WellFormed)
    (hcss : Printed false flat css)
    (hrun : run (String.ofList text) = .ok (String.ofList css)) :
    let plain := StyleTable.compile (String.ofList text) none
    let expanded := StyleTable.compile (String.ofList text) (some run)
    (∀ name, plain.contains name = expanded.contains name) ∧
      (∀ name property,
        plain.value? name property = (contenders name property topLevel sheet).head? ∧
        expanded.value? name property = (contenders name property topLevel sheet).getLast?) ∧
      ((∀ name property, plain.value? name property = expanded.value? name property) ↔
        ∀ name property, (contenders name property topLevel sheet).head? =
          (contenders name property topLevel sheet).getLast?) := by
  intro plain expanded
  have hplain : plain = StyleTable.ofRules (rulesOfItems .nestedFirst topLevel sheet) :=
    ofSource_printed hsheet hprinted
  have hexpanded : expanded = StyleTable.ofRules (rulesOfItems .ownFirst topLevel sheet) := by
    rw [← hexpansion.ofSource_eq hflat hcss]
    simp only [expanded, StyleTable.compile, hrun]
  have hvalue : ∀ name property,
      plain.value? name property = (contenders name property topLevel sheet).head? ∧
        expanded.value? name property = (contenders name property topLevel sheet).getLast? := by
    intro name property
    rw [hplain, hexpanded, StyleTable.value?_ofRules, StyleTable.value?_ofRules,
      getLast?_ruleValues, getLast?_ruleValues]
    exact ⟨rfl, rfl⟩
  refine ⟨fun name => ?_, hvalue, ?_⟩
  · rw [hplain, hexpanded, StyleTable.contains_ofRules, StyleTable.contains_ofRules,
      any_rulesOfItems]
  · refine forall₂_congr fun name property => ?_
    rw [(hvalue name property).1, (hvalue name property).2]

/-- Two nested blocks that set the same property of a class. -/
def hoverSheet : List Item :=
  [.block [".a".toList]
    [.declaration "color".toList "red".toList,
      .block ["&:hover".toList] [.declaration "color".toList "blue".toList]]]

/-- The expansion of the two blocks. -/
def hoverExpansion : List Item :=
  [.block [".a".toList] [.declaration "color".toList "red".toList],
    .block [".a:hover".toList] [.declaration "color".toList "blue".toList]]

theorem expansion_hoverSheet : expansion hoverSheet = hoverExpansion := by
  rfl

theorem isExpansion_hoverExpansion : IsExpansion hoverSheet hoverExpansion :=
  expansion_hoverSheet ▸ isExpansion_expansion hoverSheet

theorem printed_hoverSheet :
    Printed false hoverSheet ".a\x7bcolor:red;&:hover\x7bcolor:blue;\x7d\x7d".toList :=
  .block [] [] rfl
    (.declaration [] rfl
      (.block [] [] rfl (.declaration [] rfl .close) rfl .close))
    rfl .done

theorem printed_hoverExpansion :
    Printed false hoverExpansion ".a\x7bcolor:red;\x7d.a:hover\x7bcolor:blue;\x7d".toList :=
  .block [] [] rfl (.declaration [] rfl .close) rfl
    (.block [] [] rfl (.declaration [] rfl .close) rfl .done)

private theorem wellFormed_color {value : List Char}
    (hvalue : value ∈ ["red".toList, "blue".toList]) :
    Item.WellFormed (.declaration "color".toList value) := by
  simp only [List.mem_cons, List.not_mem_nil, or_false] at hvalue
  obtain rfl | rfl := hvalue <;> exact .declaration (by decide) (.of_all (by decide))

theorem wellFormed_hoverSheet : ∀ item ∈ hoverSheet, item.WellFormed := by
  rw [hoverSheet, List.forall_mem_singleton]
  refine .block (by decide) (.of_all (by decide)) (by decide) ?_
  rw [List.forall_mem_cons, List.forall_mem_singleton]
  refine ⟨wellFormed_color (by decide),
    .block (by decide) (.of_all (by decide)) (by decide) ?_⟩
  rw [List.forall_mem_singleton]
  exact wellFormed_color (by decide)

theorem wellFormed_hoverExpansion : ∀ item ∈ hoverExpansion, item.WellFormed := by
  rw [hoverExpansion, List.forall_mem_cons, List.forall_mem_singleton]
  refine ⟨.block (by decide) (.of_all (by decide)) (by decide) ?_,
    .block (by decide) (.of_all (by decide)) (by decide) ?_⟩
  · rw [List.forall_mem_singleton]
    exact wellFormed_color (by decide)
  · rw [List.forall_mem_singleton]
    exact wellFormed_color (by decide)

/-- The outer block wins in the one table and the inner block in the other. -/
theorem compile_expansion_hoverSheet :
    let run : Preprocessor := fun _ => .ok ".a\x7bcolor:red;\x7d.a:hover\x7bcolor:blue;\x7d"
    let source := ".a\x7bcolor:red;&:hover\x7bcolor:blue;\x7d\x7d"
    (StyleTable.compile source none).value? "a" "color" = some "red" ∧
      (StyleTable.compile source (some run)).value? "a" "color" = some "blue" := by
  intro run source
  have hrun : run (String.ofList source.toList) = .ok (String.ofList
      ".a\x7bcolor:red;\x7d.a:hover\x7bcolor:blue;\x7d".toList) := by simp [run]
  have hvalue := (compile_expansion wellFormed_hoverSheet printed_hoverSheet
    isExpansion_hoverExpansion wellFormed_hoverExpansion printed_hoverExpansion hrun).2.1
      "a" "color"
  have hcontenders : contenders "a" "color" topLevel hoverSheet = ["red", "blue"] := by
    decide +kernel
  rw [hcontenders, String.ofList_toList] at hvalue
  exact hvalue

/-- The two tables differ, although the block sets the property before the nested block does. -/
theorem compile_hoverSheet_ne :
    let run : Preprocessor := fun _ => .ok ".a\x7bcolor:red;\x7d.a:hover\x7bcolor:blue;\x7d"
    let source := ".a\x7bcolor:red;&:hover\x7bcolor:blue;\x7d\x7d"
    (∀ item ∈ hoverSheet, item.WellFormed) ∧ Printed false hoverSheet source.toList ∧
      IsExpansion hoverSheet hoverExpansion ∧ (∀ item ∈ hoverExpansion, item.WellFormed) ∧
      Printed false hoverExpansion ".a\x7bcolor:red;\x7d.a:hover\x7bcolor:blue;\x7d".toList ∧
      (StyleTable.compile source none).value? "a" "color" ≠
        (StyleTable.compile source (some run)).value? "a" "color" :=
  ⟨wellFormed_hoverSheet, printed_hoverSheet, isExpansion_hoverExpansion,
    wellFormed_hoverExpansion, printed_hoverExpansion, by decide +kernel⟩

end DesignCompiler.Stylesheet
