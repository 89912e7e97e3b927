import DesignCompiler.Dart.Expr
import DesignCompiler.Style.Length

/-!
# Spacing and corners

Padding and margin are a shorthand, or four separate properties. The radii of corners are a
shorthand.
-/

namespace DesignCompiler

open Dart

/-- The expression of insets. -/
def Insets.toExpr (insets : Insets) : Expr :=
  .call "EdgeInsets.fromLTRB"
    [.num insets.left, .num insets.top, .num insets.right, .num insets.bottom] []

namespace Style

/-- The insets of a property: its shorthand, else its four sides, a missing one being zero, when one
    of them is not zero. -/
def spacing? (props : PropertyMap) (name : String) : Option Insets :=
  match (props.get? name).bind fun raw => boxInsets? raw.toList with
  | some insets => some insets
  | none =>
    let side (edge : String) : Float := (propertyLength? props (name ++ "-" ++ edge)).getD 0.0
    let insets : Insets := ⟨side "top", side "right", side "bottom", side "left"⟩
    if insets.isZero then none else some insets

/-- The corner radii of a box. -/
def borderRadius? (props : PropertyMap) : Option Corners :=
  ((props.get? "border-radius").bind fun raw => boxInsets? raw.toList).map Corners.ofInsets

/-- The expression of corner radii. -/
def radiusExpr (corners : Corners) : Expr :=
  match corners.uniform? with
  | some radius => .call "BorderRadius.circular" [.num radius] []
  | none =>
    let circular (radius : Float) : Expr := .call "Radius.circular" [.num radius] []
    .named "BorderRadius.only" [
      ("topLeft", circular corners.topLeft),
      ("topRight", circular corners.topRight),
      ("bottomRight", circular corners.bottomRight),
      ("bottomLeft", circular corners.bottomLeft)]

end Style

end DesignCompiler
