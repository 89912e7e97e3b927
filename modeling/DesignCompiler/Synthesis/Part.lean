import DesignCompiler.Dart.Query

/-!
# Parts

What a synthesized node hands to its parent: its widget, and the facets by which the parent places
it.
-/

namespace DesignCompiler.Synthesis

open Dart

/-- A synthesized node. Only an absolutely placed one has a placement. -/
structure Part where
  widget : Expr
  placement : Option Edges
  zIndex : Int
  flexGrow : Float
  size : Size

/-- A node in the flow without facets, such as a run of text. -/
def Part.flow (widget : Expr) : Part := ⟨widget, none, 0, 0.0, .unknown⟩

/-- Whether the node is absolutely placed. -/
def Part.isAbsolute (part : Part) : Bool := part.placement.isSome

/-- A widget that takes up no room. -/
def placeholder : Expr := .call "SizedBox.shrink" [] []

/-- The named arguments `width` and `height` of the known dimensions. -/
def sizeArguments (width height : Option Float) : List Argument :=
  Expr.optional "width" (width.map fun w => .extent (.fixed w)) ++
    Expr.optional "height" (height.map Expr.num)

/-! ## Vector icons

A wrapper around a vector icon can be reduced to the icon with a size. -/

/-- The widget that shows a vector asset. -/
def vectorWidget : String := "SvgPicture.asset"

/-- The first vector icon nested in a widget. -/
def vectorIcon? (widget : Expr) : Option Expr := widget.subterms.find? (·.isCallOf vectorWidget)

/-- A widget in a box with every known dimension. -/
def sized (widget : Expr) (size : Size) : Expr :=
  if size.isUnknown then widget
  else .named "SizedBox" (sizeArguments size.width size.height ++ [Expr.child widget])

/-- The vector icon in a widget with a size. -/
def simplifyIcon? (widget : Expr) (size : Size) : Option Expr :=
  (vectorIcon? widget).map fun icon => sized icon size

end DesignCompiler.Synthesis
