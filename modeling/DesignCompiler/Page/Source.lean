import DesignCompiler.Page.Companion
import DesignCompiler.Dart.Render
import DesignCompiler.Text.Class
import DesignCompiler.Text.Lowercase
import DesignCompiler.Text.Search

/-!
# The document

A document imports what its root widget uses, defines the component as a stateless widget and ends
with the companion widgets that the root uses.
-/

namespace DesignCompiler.Page

open Dart Text

/-- The statement that imports a library of a package. -/
def importOf (package path : String) : String :=
  "import 'package:" ++ package ++ "/" ++ path ++ "';"

/-- The libraries of the app that widgets come from. -/
def widgetLibraries : List (List String × String) := [
  (["AppInput"], "src/ui/widgets/app_input.dart"),
  (["_GeneratedDateTimeField"], "src/ui/widgets/app_input_full_time.dart"),
  (["_GeneratedRadioGroup", "AppRadioOption"], "src/ui/widgets/app_radio_button.dart"),
  (["_GeneratedCheckbox"], "src/ui/widgets/base/checkbox/app_checkbox.dart"),
  (["RippleButton"], "src/ui/widgets/base/ripple_button.dart"),
  (["AppTextGradient"], "src/ui/widgets/app_text_gradient.dart")]

/-- Whether the expression is the width of the viewport. -/
def isAvailable : Expr → Bool
  | .extent .available => true
  | _ => false

/-- The imports that a root widget needs, in order. -/
def imports (root : Expr) (package : String) : List String :=
  let ifNeeded (needed : Bool) (package path : String) : List String :=
    if needed then [importOf package path] else []
  [importOf "flutter" "material.dart", importOf package "src/utils/app_colors.dart"] ++
    ifNeeded (root.usesCallee "SvgPicture.asset") "flutter_svg" "flutter_svg.dart" ++
    ifNeeded (root.usesIdentStartingWith "AppAssets.") package "src/utils/app_assets.dart" ++
    (widgetLibraries.filter fun library => library.1.any root.usesCallee).map
      (fun library => importOf package library.2) ++
    ifNeeded (root.subterms.any isAvailable) "get" "get.dart"

/-- The lines of the component before its widget. -/
def componentOpening (name : String) : String :=
  "class " ++ name ++ " extends StatelessWidget \x7b\n" ++
  "  const " ++ name ++ "(\x7bsuper.key\x7d);\n\n" ++
  "  @override\n" ++
  "  Widget build(BuildContext context) \x7b\n"

/-- The document of a component with a root widget. -/
def render (name : String) (root : Expr) (package : String) : String :=
  let returning := "    return "
  "\n".intercalate (imports root package) ++ "\n\n" ++ componentOpening name ++
    returning ++ root.render 4 returning.length ++ ";\n  \x7d\n\x7d\n" ++
    String.join ((companionsOf root).map fun companion => "\n" ++ companion.source ++ "\n")

/-- The text with an underscore wherever a capital follows a small letter or a digit. -/
def splitCamel : List Char → List Char
  | c :: d :: rest =>
    if (('a' ≤ c && c ≤ 'z') || isAsciiDigit c) && ('A' ≤ d && d ≤ 'Z') then
      c :: '_' :: splitCamel (d :: rest)
    else c :: splitCamel (d :: rest)
  | rest => rest

/-- The maximal runs of ASCII letters and digits in a text. -/
def nameParts (text : List Char) : List (List Char) :=
  (splitOn (!isAsciiAlphanumeric ·) text).filter (!·.isEmpty)

/-- A part of a name in lower case with a capital in front. -/
def titleCase (part : List Char) : List Char :=
  match lowerAscii part with
  | [] => []
  | c :: rest => c.toUpper :: rest

/-- The class name of a component from the stem of a file: the parts of the stem capitalized and
    joined. It begins with a letter and is never empty. -/
def componentName (stem : String) : String :=
  let parts := nameParts (splitCamel stem.toList)
  let name := parts.flatMap titleCase
  if name.isEmpty then "FigmaWidget"
  else if name.head?.any isAsciiLetter then String.ofList name
  else "Figma" ++ String.ofList name

end DesignCompiler.Page
