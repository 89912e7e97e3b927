import DesignCompiler.Style.Length

/-!
# Flex layout

How a flex container lays out its children: the main axis, the alignments along and across it, and
the gap between children.
-/

namespace DesignCompiler.Style

open Text

/-- The main axis of a flex container. -/
inductive Axis where
  | row
  | column
  deriving DecidableEq

/-- How children are placed along the main axis. -/
inductive MainAlign where
  | start
  | center
  | finish
  | spaceBetween
  | spaceAround
  deriving DecidableEq

/-- How children are placed across the main axis. -/
inductive CrossAlign where
  | start
  | center
  | finish
  | stretch
  deriving DecidableEq

/-- The constant of a placement along the main axis. -/
def MainAlign.path : MainAlign → String
  | .start => "MainAxisAlignment.start"
  | .center => "MainAxisAlignment.center"
  | .finish => "MainAxisAlignment.end"
  | .spaceBetween => "MainAxisAlignment.spaceBetween"
  | .spaceAround => "MainAxisAlignment.spaceAround"

/-- The constant of a placement across the main axis. -/
def CrossAlign.path : CrossAlign → String
  | .start => "CrossAxisAlignment.start"
  | .center => "CrossAxisAlignment.center"
  | .finish => "CrossAxisAlignment.end"
  | .stretch => "CrossAxisAlignment.stretch"

/-- How a flex container lays out its children, with the gap between them. -/
structure FlexConfig where
  axis : Axis
  main : MainAlign
  cross : CrossAlign
  gap : Option Float

/-- The axis that a direction names; none names a row. -/
def Axis.ofDirection (direction : String) : Axis :=
  if direction == "" || occursIn "row".toList direction.toList then .row else .column

/-- The placement that `justify-content` names. -/
def MainAlign.ofKeyword : String → MainAlign
  | "center" => .center
  | "space-between" => .spaceBetween
  | "space-around" => .spaceAround
  | "flex-end" => .finish
  | _ => .start

/-- The placement that `align-items` names. -/
def CrossAlign.ofKeyword : String → CrossAlign
  | "center" => .center
  | "flex-end" => .finish
  | "stretch" => .stretch
  | _ => .start

/-- The gap along an axis that the shorthand `row column` gives; a single length is both. -/
def shorthandGap? (axis : Axis) : List Float → Option Float
  | [] => none
  | [both] => some both
  | row :: column :: _ => some (match axis with | .row => column | .column => row)

/-- The gap between children: the property of the axis, else the shorthand. A gap of zero is
    none. -/
def gap? (props : PropertyMap) (axis : Axis) : Option Float :=
  let name := match axis with | .row => "column-gap" | .column => "row-gap"
  let shorthand := (props.get? "gap").bind fun raw =>
    shorthandGap? axis ((words raw.toList).filterMap length?)
  (propertyLength? props name <|> shorthand).filter (· != 0.0)

/-- The layout of a flex container, when `display` says that the box is one. -/
def flexConfig? (props : PropertyMap) : Option FlexConfig :=
  if occursIn "flex".toList (keyword props "display").toList then
    let axis := Axis.ofDirection (keyword props "flex-direction")
    some {
      axis := axis
      main := MainAlign.ofKeyword (keyword props "justify-content")
      cross := CrossAlign.ofKeyword (keyword props "align-items")
      gap := gap? props axis }
  else none

end DesignCompiler.Style
