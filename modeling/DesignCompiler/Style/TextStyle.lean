import DesignCompiler.Style.Font
import DesignCompiler.Style.Gradient

/-!
# Text styles

A text style holds the facets that are declared. A style laid over another keeps what it declares
and takes the rest from below.
-/

namespace DesignCompiler.Style

open Text Dart

/-- The declared facets of a text style. The height of a line is a multiple of the font size. -/
structure TextStyle where
  fontFamily : Option String := none
  fontSize : Option Float := none
  color : Option Color := none
  weight : Option FontWeight := none
  height : Option Float := none
  letterSpacing : Option Float := none

namespace TextStyle

/-- Whether no facet is declared. -/
def isEmpty (style : TextStyle) : Bool :=
  style.fontFamily.isNone && style.fontSize.isNone && style.color.isNone && style.weight.isNone &&
    style.height.isNone && style.letterSpacing.isNone

/-- The color of text. Transparent text filled with a gradient shows the first stop instead. -/
def textColor? (vocabulary : Vocabulary) (props : PropertyMap) : Option Color :=
  match (props.get? "color").bind fun raw => parseColor? vocabulary raw.toList with
  | some .transparent => some ((textGradientStop? vocabulary props).getD .transparent)
  | color => color

/-- The facets that properties declare, possibly none. -/
def declared (vocabulary : Vocabulary) (props : PropertyMap) : TextStyle :=
  let fontSize := (propertyLength? props "font-size").filter (· != 0.0)
  let lineHeight := (propertyLength? props "line-height").filter (· != 0.0)
  { fontFamily := (props.get? "font-family").bind fun raw => fontFamily? vocabulary raw.toList
    fontSize := fontSize
    color := textColor? vocabulary props
    weight := (props.get? "font-weight").map fun raw => FontWeight.parse raw.toList
    height := fontSize.bind fun size => lineHeight.map (· / size)
    letterSpacing := propertyLength? props "letter-spacing" }

/-- The text style that properties declare, if they declare a facet of one. -/
def ofProperties? (vocabulary : Vocabulary) (props : PropertyMap) : Option TextStyle :=
  let style := declared vocabulary props
  if style.isEmpty then none else some style

/-- The style `own` laid over `base`. -/
def laidOver (own base : TextStyle) : TextStyle where
  fontFamily := own.fontFamily <|> base.fontFamily
  fontSize := own.fontSize <|> base.fontSize
  color := own.color <|> base.color
  weight := own.weight <|> base.weight
  height := own.height <|> base.height
  letterSpacing := own.letterSpacing <|> base.letterSpacing

/-- A style laid over another, where either may be missing. -/
def laidOver? (own base : Option TextStyle) : Option TextStyle :=
  match own, base with
  | some own, some base => some (own.laidOver base)
  | own, base => own <|> base

/-- The expression of a text style. -/
def toExpr (style : TextStyle) : Expr :=
  .named "TextStyle" (
    Expr.optional "fontFamily" (style.fontFamily.map Expr.str) ++
    Expr.optional "fontSize" (style.fontSize.map Expr.num) ++
    Expr.optional "color" (style.color.map Color.toExpr) ++
    Expr.optional "fontWeight" (style.weight.map fun weight => .ident weight.path) ++
    Expr.optional "height" (style.height.map Expr.num) ++
    Expr.optional "letterSpacing" (style.letterSpacing.map Expr.num))

end TextStyle

/-- The alignment of text. -/
inductive TextAlign where
  | left
  | center
  | right
  deriving DecidableEq

/-- The constant of an alignment. -/
def TextAlign.path : TextAlign → String
  | .left => "TextAlign.left"
  | .center => "TextAlign.center"
  | .right => "TextAlign.right"

/-- The declared alignment of text. -/
def textAlign? (props : PropertyMap) : Option TextAlign :=
  match keyword props "text-align" with
  | "center" => some .center
  | "right" | "end" => some .right
  | "left" | "start" => some .left
  | _ => none

end DesignCompiler.Style
