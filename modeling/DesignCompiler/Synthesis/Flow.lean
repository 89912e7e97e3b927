import DesignCompiler.Synthesis.Part
import DesignCompiler.Style.FlexLayout

/-!
# Flow composition

Children in the flow become a row or a column, with gaps between them. A child with a share of the
free space expands where the main axis has a determinate extent.
-/

namespace DesignCompiler.Synthesis

open Dart Style

/-- Whether the main axis of a flex container has a determinate extent. That of the root always
    has. -/
def mainAxisDeterminate (axis : Axis) (size : Size) (stretches isRoot : Bool) : Bool :=
  isRoot || match axis with
    | .row => size.width.isSome || stretches
    | .column => size.height.isSome

/-- The empty box between two children. -/
def gapBox (axis : Axis) (gap : Float) : Expr :=
  .named "SizedBox" [(match axis with | .row => "width" | .column => "height", .num gap)]

/-- A share of free space as a whole number, at least one. -/
def flexFactor (grow : Float) : Float := if grow.round > 1.0 then grow.round else 1.0

/-- A child with a share of the free space. -/
def expanded (grow : Float) (child : Expr) : Expr :=
  .named "Expanded" [("flex", .num (flexFactor grow)), Expr.child child]

/-- A child as it stands in a row or a column. -/
def flexChild (determinate : Bool) (kid : Part) : Expr :=
  if determinate && kid.flexGrow > 0.0 then expanded kid.flexGrow kid.widget else kid.widget

/-- Widgets with a gap before each but the first, if there is a gap. -/
def withGaps (config : FlexConfig) (widgets : List Expr) : List Expr :=
  match config.gap with
  | some gap => widgets.intersperse (gapBox config.axis gap)
  | none => widgets

/-- The row or column of a flex container. -/
def flexBox (config : FlexConfig) (kids : List Part) (determinate : Bool) : Expr :=
  let children := Expr.children (withGaps config (kids.map (flexChild determinate)))
  let main : Argument := ("mainAxisAlignment", .ident config.main.path)
  let cross : Argument := ("crossAxisAlignment", .ident config.cross.path)
  match config.axis with
  | .row => .named "Row" [main, cross, children]
  | .column => .named "Column" [cross, main, children]

/-- The widget of the children in the flow. Without a flex layout a lone child stands for itself,
    unless it has to carry absolute siblings, and others are stacked in a column. -/
def composeFlow (flex : Option FlexConfig) (kids : List Part)
    (hasAbsolute determinate : Bool) : Option Expr :=
  match kids, flex with
  | [], _ => none
  | kids, some config => some (flexBox config kids determinate)
  | kids, none =>
    match kids, hasAbsolute with
    | [only], false => some only.widget
    | kids, _ =>
      some (.named "Column" [
        ("crossAxisAlignment", .ident CrossAlign.start.path),
        Expr.children (kids.map Part.widget)])

end DesignCompiler.Synthesis
