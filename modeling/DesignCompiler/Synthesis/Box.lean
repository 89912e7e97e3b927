import DesignCompiler.Control.Widget
import DesignCompiler.Dart.Query
import DesignCompiler.Style.Resolved
import DesignCompiler.Synthesis.Flow
import DesignCompiler.Synthesis.Layer

/-!
# Boxes

The children of an element are composed in the flow and stacked, and the body gets a box for its
size, a container for padding, margin and decoration, and wrappers for clipping and rotation. The
root gets no size and, unless the mode is raw, no decoration, because its shell has it.
-/

namespace DesignCompiler.Synthesis

open Dart Style

/-- What is known about an element that is being synthesized. -/
structure Subject where
  element : Markup.Element
  style : ResolvedStyle
  isRoot : Bool
  isSmall : Bool

namespace Subject

/-- A widget with the facets of the element. -/
def describe (subject : Subject) (widget : Expr) : Part where
  widget := widget
  placement := subject.style.position
  zIndex := subject.style.zIndex
  flexGrow := subject.style.flexGrow
  size := subject.style.size

/-- A widget with the facets of the element but in the flow. -/
def describeInFlow (subject : Subject) (widget : Expr) : Part :=
  { subject.describe widget with placement := none }

/-- Whether the element is an icon that is placed or rotated; such icons join the flow. -/
def stripsPlacement (subject : Subject) : Bool :=
  (subject.style.position.isSome || subject.style.rotation.isSome) && subject.isSmall

/-- The part that stands for an image. -/
def image (subject : Subject) (widget : Expr) : Part :=
  if subject.stripsPlacement then subject.describeInFlow widget
  else subject.describe (subject.style.rotate widget)

end Subject

/-- Widgets that must not stand in a box that overflows. -/
def overflowBlockers : List String := ["Expanded", "Flexible", "Spacer", vectorWidget]

/-- A row or column that may overflow along its main axis. Both dimensions have to be known, so that
    the other axis stays bounded. -/
def overflowBox (enabled : Bool) (body : Expr) (size : Size) : Expr :=
  let isRow := body.isCallOf "Row"
  match size.width, size.height with
  | some width, some height =>
    if enabled && (isRow || body.isCallOf "Column") && !overflowBlockers.any body.usesCallee then
      let infinity : Expr := .ident "double.infinity"
      .named "OverflowBox" [
        ("alignment", .ident "Alignment.topLeft"),
        ("minWidth", .num 0.0),
        ("minHeight", .num 0.0),
        ("maxWidth", if isRow then infinity else .extent (.fixed width)),
        ("maxHeight", if isRow then .num height else infinity),
        Expr.child body]
    else body
  | _, _ => body

/-- The body in a box of the declared size. -/
def sizeBox (options : CompileOptions) (body : Expr) (size : Size) : Expr :=
  .named "SizedBox"
    (sizeArguments (size.width.filter (· != 0.0)) (size.height.filter (· != 0.0)) ++
      [Expr.child (overflowBox options.overflowBox body size)])

/-- The content in a container for padding, margin and decoration, if there is any of them. -/
def container (style : ResolvedStyle) (decoration : Option Expr) (content : Expr) : Expr :=
  let arguments :=
    Expr.optional "padding" (style.padding.map Insets.toExpr) ++
    Expr.optional "margin" (style.margin.map Insets.toExpr) ++
    Expr.optional "decoration" decoration
  if arguments.isEmpty then content else .named "Container" (arguments ++ [Expr.child content])

/-- The body of an element in its boxes. -/
def finalizeBox (options : CompileOptions) (subject : Subject) (body : Expr) (size : Size)
    (inputOwned : Bool) : Expr :=
  let decoration :=
    if subject.isRoot && options.mode != .raw then none
    else subject.style.decoration.toExpr? inputOwned
  let content :=
    if size.hasExtent && !subject.isRoot then sizeBox options body size else body
  container subject.style decoration content

/-- Whether an element shows an input field, which paints the background and has a height of its
    own: the element is one, or the only child in the flow is. -/
def inputOwned (semantic : Option Expr) (flow : List Part) : Bool :=
  match semantic, flow with
  | some widget, _ => Control.ownsInputBackground widget
  | none, [only] => Control.ownsInputBackground only.widget
  | none, _ => false

/-- The body of an element in the flow: its control, else its children. -/
def flowBody? (subject : Subject) (semantic : Option Expr) (flow : List Part)
    (hasAbsolute : Bool) (size : Size) : Option Expr :=
  match semantic with
  | some widget => some widget
  | none =>
    let style := subject.style
    let determinate := style.flex.any fun config =>
      mainAxisDeterminate config.axis size style.stretches subject.isRoot
    composeFlow style.flex flow hasAbsolute determinate

/-- The element with its children composed, stacked and boxed. -/
def compose (options : CompileOptions) (subject : Subject) (semantic : Option Expr)
    (kids : List Part) : Part :=
  let flow := kids.filter (!·.isAbsolute)
  let absolute := (kids.filter Part.isAbsolute).mergeSort fun a b => a.zIndex ≤ b.zIndex
  let inputOwned := inputOwned semantic flow
  let size := if inputOwned then subject.style.size.withoutHeight else subject.style.size
  let flowBody := flowBody? subject semantic flow (!absolute.isEmpty) size
  let body :=
    if absolute.isEmpty then flowBody.getD placeholder
    else composeStack flowBody absolute subject.isRoot options.thresholds
  let boxed := finalizeBox options subject body size inputOwned
  { subject.describe (subject.style.rotate (subject.style.clip boxed)) with size := size }

end DesignCompiler.Synthesis
