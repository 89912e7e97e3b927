import DesignCompiler.Proofs.Stylesheet.Flattening

/-!
# Expansions

What a stylesheet compiler makes of a nested sheet: a flat sheet in which the rules of a block come
before those of the blocks nested in it.
-/

namespace DesignCompiler.Stylesheet

open Text

/-- Whether an item is a declaration. -/
def Item.isDeclaration : Item → Bool
  | .declaration _ _ => true
  | .block _ _ => false

/-- An item without blocks in blocks. -/
def Item.IsFlat : Item → Prop
  | .declaration _ _ => True
  | .block _ body => ∀ item ∈ body, item.isDeclaration = true

/-- A flat sheet with the rules of a nested one, those of a block itself first. How selectors are
    collected into lists is left open. -/
structure IsExpansion (sheet flat : List Item) : Prop where
  isFlat : ∀ item ∈ flat, item.IsFlat
  rules_eq : rulesOfItems .ownFirst topLevel flat = rulesOfItems .ownFirst topLevel sheet

theorem rulesOfItems_of_isDeclaration {order : EmissionOrder} {outer : List (List Char)}
    {items : List Item} (hitems : ∀ item ∈ items, item.isDeclaration = true) :
    rulesOfItems order outer items = [] := by
  induction items with
  | nil => rfl
  | cons item items ih =>
    rw [List.forall_mem_cons] at hitems
    cases item with
    | declaration => exact ih hitems.2
    | block => exact absurd hitems.1 Bool.false_ne_true

/-- Without nesting the order is of no account. -/
theorem rulesOfItems_of_isFlat {outer : List (List Char)} {items : List Item}
    (hitems : ∀ item ∈ items, item.IsFlat) :
    rulesOfItems .nestedFirst outer items = rulesOfItems .ownFirst outer items := by
  induction items with
  | nil => rfl
  | cons item items ih =>
    rw [List.forall_mem_cons] at hitems
    have hitem : item.rules .nestedFirst outer = item.rules .ownFirst outer := by
      cases item with
      | declaration => rfl
      | block selectors body =>
        simp only [Item.rules, EmissionOrder.arrange, rulesOfItems_of_isDeclaration hitems.1,
          List.nil_append, List.append_nil]
    rw [rulesOfItems, rulesOfItems, hitem, ih hitems.2]

/-! ## An expansion of every sheet -/

/-- The block that a flat rule makes. -/
def Item.ofRule (rule : FlatRule) : Item :=
  .block [rule.selector.toList]
    (rule.declarations.map fun d => .declaration d.property.toList d.value.toList)

/-- The expansion that gives each rule a block of its own. -/
def expansion (sheet : List Item) : List Item :=
  (rulesOfItems .ownFirst topLevel sheet).map Item.ofRule

/-- A declaration that is its own trimmed form. -/
structure Declaration.IsClean (declaration : Declaration) : Prop where
  isTrimmed_property : IsTrimmed declaration.property.toList
  isPropertyName : Flattener.isPropertyName declaration.property.toList = true
  isTrimmed_value : IsTrimmed declaration.value.toList

/-- A rule with something to declare for a selector that is its own trimmed form. -/
structure FlatRule.IsClean (rule : FlatRule) : Prop where
  selector_ne : rule.selector.toList ≠ []
  isTrimmed_selector : IsTrimmed rule.selector.toList
  declarations_ne : rule.declarations ≠ []
  isClean_declarations : ∀ declaration ∈ rule.declarations, declaration.IsClean

theorem rules_ofRule {rule : FlatRule} (hrule : rule.IsClean) :
    (Item.ofRule rule).rules .ownFirst topLevel = [rule] := by
  have hbody : ∀ item ∈ rule.declarations.map (fun d =>
      Item.declaration d.property.toList d.value.toList), item.isDeclaration = true := by
    intro item hitem
    obtain ⟨d, -, rfl⟩ := List.mem_map.mp hitem
    rfl
  have hselectors : resolvedSelectors topLevel [rule.selector.toList] = [rule.selector.toList] := by
    simp [resolvedSelectors, properSelectors, topLevel, nestedSelector,
      hrule.isTrimmed_selector.trim_eq, hrule.selector_ne]
  have hdeclarations : ownDeclarations (rule.declarations.map fun d =>
      .declaration d.property.toList d.value.toList) = rule.declarations := by
    rw [ownDeclarations, List.filterMap_map]
    conv_rhs => rw [← List.filterMap_some (l := rule.declarations)]
    refine List.filterMap_congr fun d hd => ?_
    have hclean := hrule.isClean_declarations d hd
    simp only [Function.comp_apply, Item.declaration?, hclean.isTrimmed_property.trim_eq,
      hclean.isPropertyName, hclean.isTrimmed_value.trim_eq, if_true, String.ofList_toList]
  rw [Item.ofRule, Item.rules, hselectors, hdeclarations, rulesOfItems_of_isDeclaration hbody,
    EmissionOrder.arrange, ownRules, if_neg hrule.declarations_ne]
  simp [hrule.selector_ne]

theorem rulesOfItems_map_ofRule {rules : List FlatRule} (hrules : ∀ rule ∈ rules, rule.IsClean) :
    rulesOfItems .ownFirst topLevel (rules.map Item.ofRule) = rules := by
  induction rules with
  | nil => rfl
  | cons rule rules ih =>
    rw [List.forall_mem_cons] at hrules
    rw [List.map_cons, rulesOfItems, rules_ofRule hrules.1, ih hrules.2, List.singleton_append]

/-! ## The rules of a tree are clean -/

theorem isTrimmed_replaceChar {parent child : List Char} (hparent : IsTrimmed parent)
    (hne : parent ≠ []) (hchild : IsTrimmed child) : IsTrimmed (replaceChar '&' parent child) := by
  have hpiece : ∀ c, (if c == '&' then parent else [c]) ≠ [] := by
    intro c
    split
    · exact hne
    · exact List.cons_ne_nil _ _
  constructor
  · cases child with
    | nil => simp [replaceChar]
    | cons c rest =>
      rw [replaceChar, List.flatMap_cons, List.head?_append_of_ne_nil _ (hpiece c)]
      split
      · exact hparent.1
      · simpa using hchild.1 c rfl
  · cases child using List.reverseRecOn with
    | nil => simp [replaceChar]
    | append_singleton rest c =>
      rw [replaceChar, List.flatMap_append, List.flatMap_singleton,
        List.getLast?_append_of_ne_nil _ (hpiece c)]
      split
      · exact hparent.2
      · simpa using hchild.2 c (by simp)

theorem isTrimmed_nestedSelector {parent child : List Char} (hparent : IsTrimmed parent)
    (hchild : IsTrimmed child) (hne : child ≠ []) : IsTrimmed (nestedSelector parent child) := by
  rw [nestedSelector]
  split
  · exact hchild
  · rename_i hparentNe
    split
    · exact isTrimmed_replaceChar hparent hparentNe hchild
    · constructor
      · rw [List.head?_append_of_ne_nil _ hparentNe]
        exact hparent.1
      · rw [List.getLast?_append_of_ne_nil _ (List.cons_ne_nil _ _),
          List.getLast?_cons_of_ne_nil hne]
        exact hchild.2

theorem isTrimmed_of_mem_resolvedSelectors {outer : List (List Char)}
    (selectors : List (List Char)) (houter : ∀ parent ∈ outer, IsTrimmed parent) :
    ∀ selector ∈ resolvedSelectors outer selectors, IsTrimmed selector := by
  intro selector hselector
  rw [resolvedSelectors] at hselector
  split at hselector
  · exact houter selector hselector
  · obtain ⟨parent, hparent, hselector⟩ := List.mem_flatMap.mp hselector
    obtain ⟨child, hchild, rfl⟩ := List.mem_map.mp hselector
    obtain ⟨hmem, hne⟩ := List.mem_filter.mp hchild
    obtain ⟨text, -, rfl⟩ := List.mem_map.mp hmem
    exact isTrimmed_nestedSelector (houter parent hparent) (isTrimmed_trim text)
      (by simpa using hne)

theorem isClean_of_mem_ownDeclarations {body : List Item} :
    ∀ declaration ∈ ownDeclarations body, declaration.IsClean := by
  intro declaration hdeclaration
  obtain ⟨item, -, hitem⟩ := List.mem_filterMap.mp hdeclaration
  cases item with
  | block => cases hitem
  | declaration property value =>
    rw [Item.declaration?] at hitem
    split at hitem
    · rename_i hname
      obtain rfl := Option.some.inj hitem
      exact ⟨by simpa using isTrimmed_trim property, by simpa using hname,
        by simpa using isTrimmed_trim value⟩
    · cases hitem

theorem isClean_of_mem_ownRules {resolved : List (List Char)} {declarations : List Declaration}
    (hresolved : ∀ selector ∈ resolved, IsTrimmed selector)
    (hdeclarations : ∀ declaration ∈ declarations, declaration.IsClean) :
    ∀ rule ∈ ownRules resolved declarations, rule.IsClean := by
  intro rule hrule
  rw [ownRules] at hrule
  split at hrule
  · cases hrule
  · rename_i hne
    obtain ⟨selector, hselector, rfl⟩ := List.mem_map.mp hrule
    obtain ⟨hmem, hselectorNe⟩ := List.mem_filter.mp hselector
    exact ⟨by simpa using hselectorNe, by simpa using hresolved selector hmem, hne, hdeclarations⟩

mutual

theorem Item.isClean_of_mem_rules {outer : List (List Char)}
    (houter : ∀ parent ∈ outer, IsTrimmed parent) :
    ∀ item : Item, ∀ rule ∈ item.rules .ownFirst outer, rule.IsClean
  | .declaration _ _ => by simp [Item.rules]
  | .block selectors body => by
    have hresolved := isTrimmed_of_mem_resolvedSelectors selectors houter
    intro rule hrule
    rw [Item.rules, EmissionOrder.arrange, List.mem_append] at hrule
    obtain hown | hnested := hrule
    · exact isClean_of_mem_ownRules hresolved isClean_of_mem_ownDeclarations rule hown
    · exact isClean_of_mem_rulesOfItems hresolved body rule hnested

/-- The rules of a tree are their own trimmed form. -/
theorem isClean_of_mem_rulesOfItems {outer : List (List Char)}
    (houter : ∀ parent ∈ outer, IsTrimmed parent) :
    ∀ items : List Item, ∀ rule ∈ rulesOfItems .ownFirst outer items, rule.IsClean
  | [] => by simp [rulesOfItems]
  | item :: rest => by
    intro rule hrule
    rw [rulesOfItems, List.mem_append] at hrule
    obtain hitem | hrest := hrule
    · exact Item.isClean_of_mem_rules houter item rule hitem
    · exact isClean_of_mem_rulesOfItems houter rest rule hrest

end

/-- Every sheet has an expansion. -/
theorem isExpansion_expansion (sheet : List Item) : IsExpansion sheet (expansion sheet) where
  isFlat := by
    intro item hitem
    obtain ⟨rule, -, rfl⟩ := List.mem_map.mp hitem
    intro item hitem
    obtain ⟨declaration, -, rfl⟩ := List.mem_map.mp hitem
    rfl
  rules_eq := by
    have houter : ∀ parent ∈ topLevel, IsTrimmed parent := by simp [topLevel, IsTrimmed]
    have hclean := isClean_of_mem_rulesOfItems houter sheet
    exact rulesOfItems_map_ofRule hclean

end DesignCompiler.Stylesheet
