import DesignCompiler.Style.Decoration
import DesignCompiler.Style.FlexLayout
import DesignCompiler.Style.Placement
import DesignCompiler.Style.TextStyle

/-!
# Resolved styles

Every facet that the properties of a class amount to. Each is read by itself, so an unreadable value
loses no other facet.
-/

namespace DesignCompiler.Style

open Dart

/-- A widget turned by an angle, if there is one. -/
def rotated (angle : Option Float) (widget : Expr) : Expr :=
  match angle with
  | some angle => .named "Transform.rotate" [("angle", .num angle), Expr.child widget]
  | none => widget

/-- All facets of the class of a node. Only an absolutely placed box has a position. -/
structure ResolvedStyle where
  size : Size := .unknown
  position : Option Edges := none
  zIndex : Int := 0
  flexGrow : Float := 0.0
  rotation : Option Float := none
  padding : Option Insets := none
  margin : Option Insets := none
  decoration : Decoration := {}
  textStyle : Option TextStyle := none
  textAlign : Option TextAlign := none
  textGradient : Option LinearGradient := none
  flex : Option FlexConfig := none
  clipsOverflow : Bool := false
  stretches : Bool := false

namespace ResolvedStyle

/-- The style that properties resolve to. -/
def resolve (vocabulary : Vocabulary) (props : PropertyMap) : ResolvedStyle where
  size := Style.sizeOf props
  position := position? props
  zIndex := Style.zIndex props
  flexGrow := Style.flexGrow props
  rotation := rotation? props
  padding := spacing? props "padding"
  margin := spacing? props "margin"
  decoration := Decoration.ofProperties vocabulary props
  textStyle := TextStyle.ofProperties? vocabulary props
  textAlign := textAlign? props
  textGradient := textGradient? vocabulary props
  flex := flexConfig? props
  clipsOverflow := Style.clipsOverflow props
  stretches := keyword props "align-self" == "stretch"

/-- A widget clipped to its box when the style says so, along rounded corners if it has them. -/
def clip (style : ResolvedStyle) (widget : Expr) : Expr :=
  if style.clipsOverflow then
    match style.decoration.radius with
    | some radius =>
      .named "ClipRRect" [("borderRadius", radiusExpr radius), Expr.child widget]
    | none => .named "ClipRect" [Expr.child widget]
  else widget

/-- A widget turned as the style says. -/
def rotate (style : ResolvedStyle) (widget : Expr) : Expr := rotated style.rotation widget

end ResolvedStyle

end DesignCompiler.Style
