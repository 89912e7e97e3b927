import DesignCompiler.Page.Source
import DesignCompiler.Proofs.Synthesis.Tracking
import Mathlib.Data.List.Nodup

/-!
# What a document needs

The calls in a root widget are those of a fixed list of callees. For each widget among them that the
project provides, for identifiers of the asset catalog and for the width of the viewport the
document has one import, and for each companion widget its class. It has no others.
-/

namespace DesignCompiler

open Dart Style Markup Asset

/-! ## Callees -/

namespace Synthesis

/-- All callees of a root widget. -/
def widgetCallees : List String := plainCallees ++ leafWidgets

/-- A call of one of them. -/
def IsWidgetCall (callee : String) (_args : List Expr) : Prop := callee ∈ widgetCallees

instance : AllowsPlain IsWidgetCall where
  allows _ _ hplain := List.mem_append_left leafWidgets hplain

/-- The callees of a widget while it is synthesized, whatever the assets are. -/
def calleeTracker : Tracker where
  Valid _ := True
  Grows _ _ := True
  Shows _ := IsWidgetCall
  refl _ := trivial
  trans _ _ _ _ _ := trivial
  mono _ _ _ _ _ h := h
  plain _ := inferInstance

theorem admits_callees (scene : Scene) (node : Node) : calleeTracker.Admits scene node := by
  have hleaf : ∀ callee ∈ leafWidgets, callee ∈ widgetCallees := fun _ hcallee =>
    List.mem_append_right plainCallees hcallee
  intro element children _
  constructor
  · intro semantic assets hsemantic
    refine callsIn_semantic (fun callee args hcallee => ?_) hsemantic
    exact hleaf callee (List.mem_append_right assetWidgets hcallee)
  · intro _ isRoot assets _
    refine Tracker.at_image trivial fun _ => ?_
    refine ⟨trivial, trivial, fun found hfound => ⟨callsIn_reference hfound, ?_⟩, fun _ _ _ => ?_⟩
    · exact fun callee hcallee => hleaf callee (List.mem_append_left inputWidgets hcallee)
    · exact hleaf vectorWidget (by decide)

/-- Every call in a root widget is one of the fixed callees. -/
theorem callsIn_root (scene : Scene) (root : Node) (assets : AssetRegistry) (style : ResolvedStyle)
    (mode : GenerationMode) :
    CallsIn IsWidgetCall (Page.wrapRoot (scene.synthesize root assets).1.widget style mode) := by
  obtain ⟨-, -, hcalls⟩ :=
    calleeTracker.at_node true root assets (admits_callees scene root) trivial
  exact callsIn_wrapRoot (scene.free_synthesize root assets) hcalls fun _ _ _ h => h

end Synthesis

namespace Page

open Synthesis

/-! ## Uses -/

theorem usesIdentStartingWith_iff {root : Expr} {start : String} :
    root.usesIdentStartingWith start = true ↔
      ∃ path : String, start.toList <+: path.toList ∧ Nested (.ident path) root := by
  simp only [Expr.usesIdentStartingWith, List.any_eq_true, mem_subterms_iff]
  constructor
  · rintro ⟨sub, hsub, hident⟩
    cases sub with
    | ident path => exact ⟨path, List.isPrefixOf_iff_prefix.mp hident, hsub⟩
    | _ => simp [Expr.isIdentStartingWith] at hident
  · rintro ⟨path, hstart, hnested⟩
    exact ⟨_, hnested, List.isPrefixOf_iff_prefix.mpr hstart⟩

theorem any_isAvailable_iff {root : Expr} :
    root.subterms.any isAvailable = true ↔ Nested (.extent .available) root := by
  simp only [List.any_eq_true, mem_subterms_iff]
  constructor
  · rintro ⟨sub, hsub, havailable⟩
    unfold isAvailable at havailable
    split at havailable
    · exact hsub
    · cases havailable
  · exact fun hnested => ⟨_, hnested, rfl⟩

/-! ## Imports -/

/-- The widgets that the project provides, with their libraries in the app. -/
def providedWidgets : List (String × String) := [
  ("AppInput", "src/ui/widgets/app_input.dart"),
  ("_GeneratedDateTimeField", "src/ui/widgets/app_input_full_time.dart"),
  ("_GeneratedRadioGroup", "src/ui/widgets/app_radio_button.dart"),
  ("AppRadioOption", "src/ui/widgets/app_radio_button.dart"),
  ("_GeneratedCheckbox", "src/ui/widgets/base/checkbox/app_checkbox.dart"),
  ("RippleButton", "src/ui/widgets/base/ripple_button.dart"),
  ("AppTextGradient", "src/ui/widgets/app_text_gradient.dart")]

/-- The imports that every document has. -/
def commonImports (package : String) : List String :=
  [importOf "flutter" "material.dart", importOf package "src/utils/app_colors.dart"]

/-- The imports of what occurs in a root widget. -/
inductive Needs (root : Expr) (package : String) : String → Prop where
  | widget {callee path : String} :
      (callee, path) ∈ providedWidgets → Calls root callee →
        Needs root package (importOf package path)
  | vector :
      Calls root "SvgPicture.asset" → Needs root package (importOf "flutter_svg" "flutter_svg.dart")
  | catalog {path : String} :
      "AppAssets.".toList <+: path.toList → Nested (.ident path) root →
      Needs root package (importOf package "src/utils/app_assets.dart")
  | viewport :
      Nested (.extent .available) root → Needs root package (importOf "get" "get.dart")

theorem mem_widgetImports_iff {root : Expr} {package statement : String} :
    statement ∈ (widgetLibraries.filter fun library => library.1.any root.usesCallee).map
        (fun library => importOf package library.2) ↔
      ∃ callee path, (callee, path) ∈ providedWidgets ∧ Calls root callee ∧
        importOf package path = statement := by
  have hprovided : ∀ callee path, (callee, path) ∈ providedWidgets ↔
      ∃ library ∈ widgetLibraries, callee ∈ library.1 ∧ library.2 = path := by
    have hflat : providedWidgets =
        widgetLibraries.flatMap fun library =>
          library.1.map fun callee => (callee, library.2) := rfl
    intro callee path
    simp only [hflat, List.mem_flatMap, List.mem_map, Prod.mk.injEq]
    constructor
    · rintro ⟨library, hmem, _, hcallee, rfl, rfl⟩
      exact ⟨library, hmem, hcallee, rfl⟩
    · rintro ⟨library, hmem, hcallee, rfl⟩
      exact ⟨library, hmem, callee, hcallee, rfl, rfl⟩
  simp only [List.mem_map, List.mem_filter, List.any_eq_true, usesCallee_iff]
  constructor
  · rintro ⟨⟨callees, path⟩, ⟨hmem, callee, hcallee, hcalls⟩, rfl⟩
    exact ⟨callee, path, (hprovided callee path).mpr ⟨_, hmem, hcallee, rfl⟩, hcalls, rfl⟩
  · rintro ⟨callee, path, hmem, hcalls, rfl⟩
    obtain ⟨library, hlibrary, hcallee, rfl⟩ := (hprovided callee path).mp hmem
    exact ⟨library, ⟨hlibrary, callee, hcallee, hcalls⟩, rfl⟩

theorem mem_imports_iff {root : Expr} {package statement : String} :
    statement ∈ imports root package ↔
      statement ∈ commonImports package ∨ Needs root package statement := by
  unfold imports
  simp only [List.mem_append, List.mem_ite_nil_right, mem_widgetImports_iff, usesCallee_iff,
    usesIdentStartingWith_iff, any_isAvailable_iff, List.mem_singleton]
  constructor
  · rintro ((((hcommon | ⟨hvector, rfl⟩) | ⟨⟨path, hstart, hident⟩, rfl⟩) |
      ⟨callee, path, hmem, hcalls, rfl⟩) | ⟨hviewport, rfl⟩)
    · exact .inl hcommon
    · exact .inr (.vector hvector)
    · exact .inr (.catalog hstart hident)
    · exact .inr (.widget hmem hcalls)
    · exact .inr (.viewport hviewport)
  · rintro (hcommon | hneeds)
    · exact .inl (.inl (.inl (.inl hcommon)))
    · cases hneeds with
      | widget hmem hcalls => exact .inl (.inr ⟨_, _, hmem, hcalls, rfl⟩)
      | vector hvector => exact .inl (.inl (.inl (.inr ⟨hvector, rfl⟩)))
      | catalog hstart hident => exact .inl (.inl (.inr ⟨⟨_, hstart, hident⟩, rfl⟩))
      | viewport hviewport => exact .inr ⟨hviewport, rfl⟩

/-- The libraries that a document may import: their packages and paths. -/
def libraries (package : String) : List (String × String) :=
  [("flutter", "material.dart"), (package, "src/utils/app_colors.dart"),
    ("flutter_svg", "flutter_svg.dart"), (package, "src/utils/app_assets.dart")] ++
    widgetLibraries.map (fun library => (package, library.2)) ++ [("get", "get.dart")]

/-- The end of a statement that imports a library of any package. -/
def importEnd (path : String) : String := "/" ++ path ++ "';"

theorem importEnd_suffix (package path : String) :
    (importEnd path).toList <:+ (importOf package path).toList := by
  have happend : importOf package path = "import 'package:" ++ package ++ importEnd path := by
    unfold importOf importEnd
    simp only [String.append_assoc]
  rw [happend, String.toList_append]
  exact List.suffix_append _ _

/-- No document imports a library twice, whatever its package is called. -/
theorem nodup_imports (root : Expr) (package : String) : (imports root package).Nodup := by
  have hends : ((libraries package).map Prod.snd).Pairwise fun path other =>
      ¬ (importEnd path).toList <:+ (importEnd other).toList ∧
        ¬ (importEnd other).toList <:+ (importEnd path).toList := by
    have hpaths : (libraries package).map Prod.snd = (libraries "").map Prod.snd := rfl
    rw [hpaths]
    decide +kernel
  have hall : ((libraries package).map fun library => importOf library.1 library.2).Nodup := by
    rw [List.pairwise_map] at hends
    refine List.pairwise_map.mpr (hends.imp fun {library other} hend heq => ?_)
    -- The ends of one text are ends of each other.
    have hother := importEnd_suffix other.1 other.2
    rw [← heq] at hother
    obtain h | h := List.suffix_or_suffix_of_suffix (importEnd_suffix library.1 library.2) hother
    · exact hend.1 h
    · exact hend.2 h
  refine hall.sublist ?_
  have hite : ∀ (needed : Bool) (statement : String),
      (if needed = true then [statement] else []).Sublist [statement] := by
    intro needed statement
    cases needed <;> simp
  unfold imports libraries
  simp only [List.map_append, List.map_map, List.map_cons, List.map_nil]
  refine .append (.append ?_ (List.filter_sublist.map _)) (hite _ _)
  rw [List.append_assoc]
  exact .append (.refl _) (.append (hite _ _) (hite _ _))

/-! ## Companions -/

theorem mem_companionsOf_iff {root : Expr} {companion : Companion} :
    companion ∈ companionsOf root ↔
      companion ∈ [dateField, radioGroup, checkbox] ∧ Calls root companion.name := by
  rw [companionsOf, List.mem_filter, usesCallee_iff]

theorem nodup_companionsOf (root : Expr) : ((companionsOf root).map Companion.name).Nodup := by
  have hall : ([dateField, radioGroup, checkbox].map Companion.name).Nodup := by decide +kernel
  exact hall.sublist (List.filter_sublist.map _)

/-! ## Documents -/

/-- A document has what its root widget needs and nothing else: the root widget calls known callees
only, each thing that it uses is imported once, its companions are defined once, and so is nothing
that it does not use. -/
structure Provides (package : String) (root : Expr) : Prop where
  callee_mem : ∀ callee, Calls root callee → callee ∈ widgetCallees
  count_import : ∀ statement, Needs root package statement →
    (imports root package).count statement = 1
  needed : ∀ statement ∈ imports root package,
    statement ∈ commonImports package ∨ Needs root package statement
  count_companion : ∀ callee : String, "_Generated".toList <+: callee.toList → Calls root callee →
    ((companionsOf root).map Companion.name).count callee = 1
  used : ∀ companion ∈ companionsOf root, Calls root companion.name
  defines : ∀ companion ∈ companionsOf root,
    companion.lines.head? = some ("class " ++ companion.name ++ " extends StatefulWidget \x7b")

end Page

end DesignCompiler
