import DesignCompiler.Proofs.Synthesis.Calls

/-!
# Parts in a composed widget

What an element is composed of stays nested in its widget: boxes, rows, columns and stacks only wrap
their parts. The exception is a placed part of the size of an icon, which a stack reduces to the
vector icon in it.
-/

namespace DesignCompiler.Synthesis

open Dart Style

variable {sub : Expr}

/-! ## Wrappers -/

theorem nested_rotate {style : ResolvedStyle} {widget : Expr} (hsub : Nested sub widget) :
    Nested sub (style.rotate widget) := by
  unfold ResolvedStyle.rotate rotated
  split
  · exact .of_child [_] hsub
  · exact hsub

theorem nested_clip {style : ResolvedStyle} {widget : Expr} (hsub : Nested sub widget) :
    Nested sub (style.clip widget) := by
  unfold ResolvedStyle.clip
  split
  · split
    · exact .of_child [_] hsub
    · exact .of_child [] hsub
  · exact hsub

theorem nested_overflowBox {enabled : Bool} {body : Expr} {size : Size} (hsub : Nested sub body) :
    Nested sub (overflowBox enabled body size) := by
  unfold overflowBox
  dsimp only
  split
  · split
    · exact .of_child [_, _, _, _, _] hsub
    · exact hsub
  · exact hsub

theorem nested_container {style : ResolvedStyle} {decoration : Option Expr} {content : Expr}
    (hsub : Nested sub content) : Nested sub (container style decoration content) := by
  unfold container
  dsimp only
  split
  · exact hsub
  · exact .of_child _ hsub

theorem nested_finalizeBox {options : CompileOptions} {subject : Subject} {body : Expr}
    {size : Size} {inputOwned : Bool} (hsub : Nested sub body) :
    Nested sub (finalizeBox options subject body size inputOwned) := by
  refine nested_container ?_
  split
  · exact .of_child _ (nested_overflowBox hsub)
  · exact hsub

/-! ## Rows and columns -/

theorem nested_flexChild {determinate : Bool} {kid : Part} (hsub : Nested sub kid.widget) :
    Nested sub (flexChild determinate kid) := by
  unfold flexChild
  split
  · exact .of_child [_] hsub
  · exact hsub

private theorem mem_intersperse {α : Type} {separator x : α} {xs : List α} (hx : x ∈ xs) :
    x ∈ xs.intersperse separator := by
  induction xs with
  | nil => cases hx
  | cons y ys ih =>
    cases ys with
    | nil => exact hx
    | cons z zs =>
      rw [List.intersperse_cons_cons]
      obtain rfl | hrest := List.mem_cons.mp hx
      · exact List.mem_cons_self
      · exact List.mem_cons_of_mem _ (List.mem_cons_of_mem _ (ih hrest))

theorem mem_withGaps_of_mem {config : FlexConfig} {widgets : List Expr} {widget : Expr}
    (hwidget : widget ∈ widgets) : widget ∈ withGaps config widgets := by
  unfold withGaps
  split
  · exact mem_intersperse hwidget
  · exact hwidget

theorem nested_flexBox {config : FlexConfig} {kids : List Part} {determinate : Bool} {kid : Part}
    (hkid : kid ∈ kids) (hsub : Nested sub kid.widget) :
    Nested sub (flexBox config kids determinate) := by
  have hmem : flexChild determinate kid ∈ withGaps config (kids.map (flexChild determinate)) :=
    mem_withGaps_of_mem (List.mem_map_of_mem hkid)
  have hchild : Nested sub (flexChild determinate kid) := nested_flexChild hsub
  unfold flexBox
  split
  · exact .of_children (by simp) hmem hchild
  · exact .of_children (by simp) hmem hchild

/-- Children in the flow make a body, which holds them all. -/
theorem exists_composeFlow {flex : Option FlexConfig} {kids : List Part}
    {hasAbsolute determinate : Bool} {kid : Part} (hkid : kid ∈ kids)
    (hsub : Nested sub kid.widget) :
    ∃ body, composeFlow flex kids hasAbsolute determinate = some body ∧ Nested sub body := by
  rw [composeFlow.eq_def]
  split
  · cases hkid
  · exact ⟨_, rfl, nested_flexBox hkid hsub⟩
  · split
    · obtain rfl := List.mem_singleton.mp hkid
      exact ⟨_, rfl, hsub⟩
    · exact ⟨_, rfl, .of_children (by simp) (List.mem_map_of_mem hkid) hsub⟩

/-! ## Stacks -/

/-- A stack reduces the part to the vector icon in it. -/
def Part.IsReduced (thresholds : Thresholds) (kid : Part) : Prop :=
  kid.isAbsolute = true ∧ thresholds.isIconSized kid.size = true ∧ vectorIcon? kid.widget ≠ none

theorem nested_layer {thresholds : Thresholds} {kid : Part} (habsolute : kid.isAbsolute = true)
    (hkid : ¬ kid.IsReduced thresholds) (hsub : Nested sub kid.widget) :
    Nested sub (layer thresholds kid) := by
  have hpositioned : Nested sub (positioned (edgesOf kid) kid.widget) := by
    unfold positioned
    split
    · exact hsub
    · exact .of_child _ hsub
  unfold layer
  dsimp only
  split
  · rename_i hsize
    cases hicon : vectorIcon? kid.widget with
    | none =>
      rw [simplifyIcon?, hicon]
      exact hpositioned
    | some icon => exact absurd ⟨habsolute, hsize, by rw [hicon]; simp⟩ hkid
  · exact hpositioned

theorem nested_composeStack_of_body {body : Expr} {kids : List Part} {isRoot : Bool}
    {thresholds : Thresholds} (hsub : Nested sub body) :
    Nested sub (composeStack (some body) kids isRoot thresholds) :=
  .of_children (List.mem_cons_of_mem _ (List.mem_singleton.mpr rfl)) List.mem_cons_self hsub

theorem nested_composeStack {flowBody : Option Expr} {kids : List Part} {isRoot : Bool}
    {thresholds : Thresholds} {kid : Part} (hkid : kid ∈ kids) (habsolute : kid.isAbsolute = true)
    (hreduced : ¬ kid.IsReduced thresholds) (hsub : Nested sub kid.widget) :
    Nested sub (composeStack flowBody kids isRoot thresholds) := by
  have hlayer : Nested sub (layer thresholds kid) := nested_layer habsolute hreduced hsub
  have hlayers : ∃ widget ∈ stackLayers flowBody kids isRoot thresholds, Nested sub widget := by
    rw [stackLayers.eq_def]
    split
    · exact ⟨_, List.mem_cons_of_mem _ (List.mem_map_of_mem hkid), hlayer⟩
    · split
      · rename_i index hindex
        -- The base of the stack is taken out of the others, so the part is one or among these.
        obtain ⟨place, hplace, rfl⟩ := List.getElem_of_mem hkid
        by_cases hbase : place = index
        · subst hbase
          refine ⟨kids[place].widget, List.mem_append_left _ ?_, hsub⟩
          simp [List.getElem?_eq_getElem hplace]
        · refine ⟨_, List.mem_append_right _ (List.mem_map_of_mem ?_), hlayer⟩
          rw [List.mem_eraseIdx_iff_getElem]
          exact ⟨place, hplace, hbase, rfl⟩
      · exact ⟨_, List.mem_append_right _ (List.mem_map_of_mem hkid), hlayer⟩
  obtain ⟨widget, hmem, hwidget⟩ := hlayers
  exact .of_children (List.mem_cons_of_mem _ (List.mem_singleton.mpr rfl)) hmem hwidget

/-! ## Composition -/

/-- A part that is not reduced stays in the composed widget. -/
theorem nested_compose {options : CompileOptions} {subject : Subject} {kids : List Part}
    {kid : Part} (hkid : kid ∈ kids) (hreduced : ¬ kid.IsReduced options.thresholds)
    (hsub : Nested sub kid.widget) : Nested sub (compose options subject none kids).widget := by
  refine nested_rotate (nested_clip (nested_finalizeBox ?_))
  cases habsolute : kid.isAbsolute with
  | false =>
    have hflow : kid ∈ kids.filter (!·.isAbsolute) := by
      rw [List.mem_filter, habsolute]
      exact ⟨hkid, rfl⟩
    generalize hbody : flowBody? subject none _ _ _ = flowBody
    obtain ⟨body, rfl, hnested⟩ : ∃ body, flowBody = some body ∧ Nested sub body := by
      obtain ⟨body, hsome, hnested⟩ := exists_composeFlow hflow hsub
      exact ⟨body, hbody.symm.trans hsome, hnested⟩
    split
    · exact hnested
    · exact nested_composeStack_of_body hnested
  | true =>
    have hmem : kid ∈ (kids.filter Part.isAbsolute).mergeSort fun a b => a.zIndex ≤ b.zIndex := by
      rw [List.mem_mergeSort, List.mem_filter]
      exact ⟨hkid, habsolute⟩
    rw [if_neg]
    · exact nested_composeStack hmem habsolute hreduced hsub
    · rw [List.isEmpty_iff]
      exact List.ne_nil_of_mem hmem

/-- A control stays in the widget that is composed of it alone. -/
theorem nested_compose_control {options : CompileOptions} {subject : Subject} {widget : Expr} :
    Nested widget (compose options subject (some widget) []).widget := by
  refine nested_rotate (nested_clip (nested_finalizeBox ?_))
  rw [if_pos (by simp)]
  exact .here

end DesignCompiler.Synthesis
