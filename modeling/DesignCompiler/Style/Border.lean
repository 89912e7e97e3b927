import DesignCompiler.Style.Color
import DesignCompiler.Style.Length

/-!
# Borders

A border is the same on all sides. Its width and its color come from their own properties or from
the shorthand, and either may be missing.
-/

namespace DesignCompiler.Style

open Text Dart

/-- A border of one color and width. -/
structure Border where
  color : Color
  width : Float

/-- The expression of a border. -/
def Border.toExpr (border : Border) : Expr :=
  .named "Border.all" [("color", border.color.toExpr), ("width", .num border.width)]

/-- A decimal number of pixels at this place: a minus sign, digits, a point, and digits, of which
    only the last are required. -/
def borderWidth? (_previous : Option Char) (text : List Char) : Option (List Char × Nat) :=
  let (sign, unsigned) := readMinus text
  let (whole, afterWhole) := unsigned.span isDigit
  let (number, rest) := match afterWhole with
    | '.' :: inside =>
      let (fraction, after) := inside.span isDigit
      (if fraction.isEmpty then [] else whole ++ '.' :: fraction, after)
    | _ => (whole, afterWhole)
  if !number.isEmpty && startsWith ['p', 'x'] rest then
    some (sign ++ number, sign.length + number.length + 2)
  else none

/-- The color of a border: its own property, else the first color of the shorthand. -/
def borderColor? (vocabulary : Vocabulary) (props : PropertyMap) : Option Color :=
  ((props.get? "border-color").bind fun raw => parseColor? vocabulary raw.toList) <|>
    ((props.get? "border").bind fun raw => findColor? vocabulary raw.toList)

/-- The width of a border: its own property, else the first number of pixels of the shorthand. -/
def borderWidthOf? (props : PropertyMap) : Option Float :=
  propertyLength? props "border-width" <|>
    ((props.get? "border").bind fun raw =>
      (firstMatch? borderWidth? raw.toList).bind fun (_, number, _) => leadingFloat? number)

/-- The border of a box. A missing width is one pixel and a missing color is black, but one of them
    has to be there. -/
def parseBorder? (vocabulary : Vocabulary) (props : PropertyMap) : Option Border :=
  match borderColor? vocabulary props, borderWidthOf? props with
  | none, none => none
  | color, width => some ⟨color.getD .black, width.getD 1.0⟩

end DesignCompiler.Style
