import DesignCompiler.Control.Widget
import DesignCompiler.Proofs.Dart.ParentData
import DesignCompiler.Style.Resolved
import Mathlib.Data.Option.Basic

/-!
# Values and controls

The expressions of styles hold no widget that needs its place, and neither do form controls. Both
may stand anywhere.
-/

namespace DesignCompiler

open Dart Style

/-! ## Styles -/

@[simp]
theorem free_color (color : Color) : Free color.toExpr := by
  cases color with
  | argb rgba => exact free_call (by decide) (by simp) (by simp)
  | _ => exact free_ident _

@[simp]
theorem free_insets (insets : Insets) : Free insets.toExpr :=
  free_call (by decide) (by simp) (by simp)

@[simp]
theorem free_radius (corners : Corners) : Free (radiusExpr corners) := by
  have hcircular : ∀ radius, Free (.call "Radius.circular" [.num radius] []) := fun radius =>
    free_call (by decide) (by simp) (by simp)
  rw [radiusExpr]
  split
  · exact free_call (by decide) (by simp) (by simp)
  · exact free_named (by decide) (by simp [hcircular])

@[simp]
theorem free_border (border : Border) : Free border.toExpr := free_named (by decide) (by simp)

@[simp]
theorem free_shadow (shadow : BoxShadow) : Free shadow.toExpr := by
  have hoffset : Free (.call "Offset" [.num shadow.offsetX, .num shadow.offsetY] []) :=
    free_call (by decide) (by simp) (by simp)
  exact free_named (by decide) (by simp [hoffset])

@[simp]
theorem free_linearGradient (gradient : LinearGradient) : Free gradient.toExpr := by
  have hcolors : Free (.list (gradient.colors.map Color.toExpr)) := free_list (by simp)
  exact free_named (by decide) (by simp [hcolors])

@[simp]
theorem free_gradient (gradient : Gradient) : Free gradient.toExpr := by
  cases gradient with
  | linear gradient => exact free_linearGradient gradient
  | themeDefault => exact free_call (by decide) (by simp) (by simp)

@[simp]
theorem free_textStyle (style : TextStyle) : Free style.toExpr := free_named (by decide) (by simp)

theorem free_decoration {decoration : Decoration} {omitBackground : Bool} {e : Expr}
    (he : decoration.toExpr? omitBackground = some e) : Free e := by
  have hshadows : Free (.list (decoration.shadows.map BoxShadow.toExpr)) := free_list (by simp)
  rw [Decoration.toExpr?, Option.ite_none_left_eq_some] at he
  obtain rfl := Option.some.inj he.2
  refine free_named (by decide) ?_
  simp only [freeArguments_append, freeArguments_optional]
  refine ⟨⟨⟨⟨?_, by simp⟩, by simp⟩, by simp⟩, ?_⟩
  · cases omitBackground <;> simp
  · split <;> simp [hshadows]

@[simp]
theorem free_rotated {angle : Option Float} {widget : Expr} (hwidget : Free widget) :
    Free (rotated angle widget) := by
  cases angle with
  | none => exact hwidget
  | some angle => exact free_named (by decide) (by simp [hwidget])

@[simp]
theorem free_rotate {style : ResolvedStyle} {widget : Expr} (hwidget : Free widget) :
    Free (style.rotate widget) := free_rotated hwidget

@[simp]
theorem free_clip {style : ResolvedStyle} {widget : Expr} (hwidget : Free widget) :
    Free (style.clip widget) := by
  rw [ResolvedStyle.clip]
  split
  · split
    · exact free_named (by decide) (by simp [hwidget])
    · exact free_named (by decide) (by simp [hwidget])
  · exact hwidget

/-! ## Controls -/

namespace Control

open Markup

theorem free_radioOption (label : String) : Free (radioOptionExpr label) :=
  free_named (by decide) (by simp)

theorem free_rippleButton (title : String) : Free (rippleButton title) :=
  free_named (by decide) (by simp)

theorem free_checkbox {vocabulary : Vocabulary} {styles : StyleTable} {node : Node}
    {semantic : Semantic} (hsemantic : checkbox? vocabulary styles node = some semantic) :
    Free semantic.widget := by
  simp only [checkbox?, Option.bind_eq_bind, Option.bind_eq_some_iff, Option.pure_def,
    Option.some.injEq] at hsemantic
  obtain ⟨box, -, title, -, rfl⟩ := hsemantic
  refine free_named (by decide) (freeArguments_append.mpr ⟨by simp, ?_⟩)
  exact freeArguments_optional_map free_color

theorem free_radioGroup {vocabulary : Vocabulary} {styles : StyleTable} {node : Node}
    {semantic : Semantic} (hsemantic : radioGroup? vocabulary styles node = some semantic) :
    Free semantic.widget := by
  simp only [radioGroup?, Option.bind_eq_bind, Option.bind_eq_some_iff, Option.pure_def,
    Option.some.injEq] at hsemantic
  obtain ⟨options, -, -, -, selected, -, rfl⟩ := hsemantic
  have hoptions : Free (.list (options.map fun option => radioOptionExpr option.label)) :=
    free_list (by simp [free_radioOption])
  refine free_named (by decide) ?_
  simp only [freeArguments_append]
  exact ⟨⟨by simp [hoptions], freeArguments_optional_map free_color⟩,
    freeArguments_optional_map free_color⟩

theorem free_button {node : Node} {semantic : Semantic} (hsemantic : button? node = some semantic) :
    Free semantic.widget := by
  rw [button?] at hsemantic
  split at hsemantic
  · obtain rfl := Option.some.inj hsemantic
    exact free_rippleButton _
  · obtain ⟨title, -, rfl⟩ := Option.map_eq_some_iff.mp hsemantic
    exact free_rippleButton title

theorem free_singleRadio (element : Element) : Free (singleRadio element) := by
  have hoption : ∀ label, Free (.list [radioOptionExpr label]) := fun label =>
    free_list (by simp [free_radioOption])
  exact free_named (by decide) (by simp [hoption])

theorem free_textInput (element : Element) (inputType : String) (texts : List String) :
    Free (textInput element inputType texts) := by
  have hdate : ∀ seed : DateSeed, Free seed.toExpr := fun seed =>
    free_call (by decide) (by simp) (by simp)
  rw [textInput]
  dsimp only
  refine iteInduction (motive := Free) (fun _ => ?_) fun _ => ?_
  · refine free_named (by decide) (freeArguments_append.mpr ⟨by simp, ?_⟩)
    exact freeArguments_optional_map hdate
  · refine free_named (by decide) (freeArguments_append.mpr ⟨by simp, ?_⟩)
    split <;> simp

theorem free_input {node : Node} {semantic : Semantic} (hsemantic : input? node = some semantic) :
    Free semantic.widget := by
  obtain ⟨element, -, rfl⟩ := Option.map_eq_some_iff.mp hsemantic
  dsimp only
  split
  · exact free_singleRadio element
  · exact free_textInput element _ _

/-- Every control may stand anywhere. -/
theorem free_semantic {vocabulary : Vocabulary} {styles : StyleTable} {element : Element}
    {children : List Node} {semantic : Semantic}
    (hsemantic : semantic? vocabulary styles element children = some semantic) :
    Free semantic.widget := by
  obtain ⟨kind, -, hkind⟩ := List.exists_of_findSome?_eq_some hsemantic
  cases kind with
  | checkbox => exact free_checkbox hkind
  | radioGroup => exact free_radioGroup hkind
  | button => exact free_button hkind
  | input => exact free_input hkind

end Control

end DesignCompiler
