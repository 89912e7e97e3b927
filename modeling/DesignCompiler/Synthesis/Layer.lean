import DesignCompiler.Options
import DesignCompiler.Synthesis.Part

/-!
# Stacks

Absolutely placed children are layered over a base: the flow, else the first child that fills the
top left corner and is no icon, else an invisible box of the size that the children span.
-/

namespace DesignCompiler.Synthesis

open Dart

/-- The larger of an extent and another one; what is not a number does not count. -/
def furthest (extent other : Float) : Float := if other > extent then other else extent

/-- A placement, where none counts as one without offsets. -/
def edgesOf (kid : Part) : Edges := kid.placement.getD ⟨none, none, none, none⟩

/-- The furthest right and bottom ends that children reach. -/
def spannedExtents (kids : List Part) : Float × Float :=
  kids.foldl (fun (right, bottom) kid =>
    (furthest right ((edgesOf kid).horizontalStart + kid.size.width.getD 0.0),
      furthest bottom ((edgesOf kid).verticalStart + kid.size.height.getD 0.0))) (0.0, 0.0)

/-- The size that placed children span. An extent that is not positive is unknown. -/
def estimateStackSize (kids : List Part) : Size :=
  let (right, bottom) := spannedExtents kids
  let positive (extent : Float) : Option Float := if extent > 0.0 then some extent else none
  .ofDeclared (positive right) (positive bottom)

/-- A child with its declared offsets. -/
def positioned (edges : Edges) (child : Expr) : Expr :=
  if edges.isEmpty then child
  else
    .named "Positioned" (
      Expr.optional "top" (edges.top.map Expr.num) ++
      Expr.optional "left" (edges.left.map Expr.num) ++
      Expr.optional "right" (edges.right.map Expr.num) ++
      Expr.optional "bottom" (edges.bottom.map Expr.num) ++
      [Expr.child child])

/-- An invisible box of the size that the children span, if any of it is known. The height is left
    out at the root, which scrolls. -/
def extentBox? (kids : List Part) (isRoot : Bool) (thresholds : Thresholds) : Option Expr :=
  let normal := thresholds.normalize (estimateStackSize kids)
  let size := if isRoot then normal.withoutHeight else normal
  if size.isUnknown then none else some (.named "SizedBox" (sizeArguments size.width size.height))

/-- Whether a child can be the base of a stack. -/
def isBase (thresholds : Thresholds) (kid : Part) : Bool :=
  kid.placement.any Edges.isTopLeftAnchored && !thresholds.isIconSized kid.size

/-- A placed child as a layer of a stack. A vector icon is not placed but reduced to its size. -/
def layer (thresholds : Thresholds) (kid : Part) : Expr :=
  let icon := if thresholds.isIconSized kid.size then simplifyIcon? kid.widget kid.size else none
  icon.getD (positioned (edgesOf kid) kid.widget)

/-- The layers of placed children over the base, the base first. -/
def stackLayers (flowBody : Option Expr) (kids : List Part) (isRoot : Bool)
    (thresholds : Thresholds) : List Expr :=
  match flowBody with
  | some body => body :: kids.map (layer thresholds)
  | none =>
    match kids.findIdx? (isBase thresholds) with
    | some index =>
      ((kids[index]?).map Part.widget).toList ++ (kids.eraseIdx index).map (layer thresholds)
    | none =>
      (extentBox? kids isRoot thresholds).toList ++ kids.map (layer thresholds)

/-- The stack of placed children, which are in stacking order, over a base. -/
def composeStack (flowBody : Option Expr) (kids : List Part) (isRoot : Bool)
    (thresholds : Thresholds) : Expr :=
  .named "Stack" [
    ("clipBehavior", .ident "Clip.none"),
    Expr.children (stackLayers flowBody kids isRoot thresholds)]

end DesignCompiler.Synthesis
