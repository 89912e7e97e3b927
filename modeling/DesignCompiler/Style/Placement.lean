import DesignCompiler.Style.Length

/-!
# Placement

The size of a box, where it is placed, in which order it is stacked, what share of free space it
takes and how it is turned.
-/

namespace DesignCompiler.Style

open Text

/-- The declared size. -/
def sizeOf (props : PropertyMap) : Size :=
  .ofDeclared (propertyLength? props "width") (propertyLength? props "height")

/-- The offsets of an absolutely placed box, when it has one. -/
def position? (props : PropertyMap) : Option Edges :=
  if keyword props "position" == "absolute" then
    let edge := propertyLength? props
    let edges : Edges := ⟨edge "top", edge "right", edge "bottom", edge "left"⟩
    if edges.isEmpty then none else some edges
  else none

/-- The stacking order, zero by default. -/
def zIndex (props : PropertyMap) : Int :=
  ((props.get? "z-index").bind fun raw => leadingInt? raw.toList).getD 0

/-- A decimal number at this place: a minus sign, digits, and a point with digits. -/
def decimal? (_previous : Option Char) (text : List Char) : Option (List Char × Nat) :=
  let (sign, unsigned) := readMinus text
  let (whole, afterWhole) := unsigned.span isDigit
  let fraction := match afterWhole with
    | '.' :: inside =>
      let digits := inside.takeWhile isDigit
      if digits.isEmpty then [] else '.' :: digits
    | _ => []
  let number := sign ++ whole ++ fraction
  if whole.isEmpty then none else some (number, number.length)

/-- An angle in degrees at this place. -/
def degrees? (previous : Option Char) (text : List Char) : Option (List Char × Nat) :=
  match decimal? previous text with
  | some (number, length) =>
    if lowerAscii ((text.drop length).take 3) == "deg".toList then some (number, length + 3)
    else none
  | none => none

/-- The share of free space that a child takes: `flex-grow`, else the first number of `flex`, else
    zero. -/
def flexGrow (props : PropertyMap) : Float :=
  let number := (props.get? "flex-grow" <|> props.get? "flex").bind fun raw =>
    (firstMatch? decimal? (trim raw.toList)).bind fun (_, number, _) => Decimal.float? number
  (number.filter Float.isFinite).getD 0.0

/-- The double nearest to the half turn in radians. -/
def pi : Float := 3.141592653589793

/-- The rotation in radians: the first angle of `rotate`, or of `transform` where that is blank. -/
def rotation? (props : PropertyMap) : Option Float :=
  let raw := (props.get? "rotate").filter (fun raw => !allBlank raw.toList) <|>
    props.get? "transform"
  let degrees := raw.bind fun raw =>
    (firstMatch? degrees? raw.toList).bind fun (_, number, _) => Decimal.float? number
  (degrees.filter Float.isFinite).map fun degrees => degrees * pi / 180.0

/-- Whether what overflows a box is clipped. -/
def clipsOverflow (props : PropertyMap) : Bool := keyword props "overflow" == "hidden"

end DesignCompiler.Style
