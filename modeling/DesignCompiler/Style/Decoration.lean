import DesignCompiler.Style.Border
import DesignCompiler.Style.Gradient
import DesignCompiler.Style.Shadow
import DesignCompiler.Style.Spacing

/-!
# Decorations

How a box is painted: its background, its corners, its border and its shadows.
-/

namespace DesignCompiler.Style

open Dart

/-- How a box is painted. -/
structure Decoration where
  color : Option Color := none
  gradient : Option Gradient := none
  radius : Option Corners := none
  border : Option Border := none
  shadows : List BoxShadow := []

namespace Decoration

/-- The background of a box. -/
def background? (props : PropertyMap) : Option (List Char) :=
  (props.get? "background" <|> props.get? "background-color").map String.toList

/-- The gradient of a box: from its background image, or from its background where there is no
    image. -/
def gradient? (vocabulary : Vocabulary) (props : PropertyMap) : Option Gradient :=
  let image := (props.get? "background-image" <|> props.get? "backgroundImage").map String.toList
  ((image <|> (background? props).filter isLinearGradient).filter isLinearGradient).map fun raw =>
    ((parseLinearGradient? vocabulary raw).map Gradient.linear).getD .themeDefault

/-- The solid color of a box, when its background is no gradient. -/
def color? (vocabulary : Vocabulary) (props : PropertyMap) : Option Color :=
  ((background? props).filter (!isLinearGradient ·)).bind (parseColor? vocabulary)

/-- The decoration that properties declare. -/
def ofProperties (vocabulary : Vocabulary) (props : PropertyMap) : Decoration where
  color := color? vocabulary props
  gradient := gradient? vocabulary props
  radius := borderRadius? props
  border := parseBorder? vocabulary props
  shadows := parseShadows vocabulary props

/-- The expression of a decoration, if it paints anything. The solid color is left out for widgets
    that paint a background of their own. -/
def toExpr? (d : Decoration) (omitBackground : Bool) : Option Expr :=
  let arguments :=
    Expr.optional "color" (if omitBackground then none else d.color.map Color.toExpr) ++
    Expr.optional "gradient" (d.gradient.map Gradient.toExpr) ++
    Expr.optional "borderRadius" (d.radius.map radiusExpr) ++
    Expr.optional "border" (d.border.map Border.toExpr) ++
    Expr.optional "boxShadow"
      (if d.shadows.isEmpty then none else some (.list (d.shadows.map BoxShadow.toExpr)))
  if arguments.isEmpty then none else some (.named "BoxDecoration" arguments)

end Decoration

end DesignCompiler.Style
