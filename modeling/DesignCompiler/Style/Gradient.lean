import DesignCompiler.Stylesheet.Rule
import DesignCompiler.Style.Color

/-!
# Linear gradients

A gradient is read from the arguments of the first `linear-gradient(…)` of a value: its hexadecimal
stops in order and the first angle among them.
-/

namespace DesignCompiler.Style

open Text Dart

/-- A linear gradient between two alignments. -/
structure LinearGradient where
  start : String
  finish : String
  colors : List Color

/-- The expression of a linear gradient. -/
def LinearGradient.toExpr (g : LinearGradient) : Expr :=
  .named "LinearGradient" [
    ("begin", .ident g.start),
    ("end", .ident g.finish),
    ("colors", .list (g.colors.map Color.toExpr))]

/-- The gradient of a decoration. The default background of the theme stands in for one that cannot
    be read. -/
inductive Gradient where
  | linear (gradient : LinearGradient)
  | themeDefault

/-- The expression of a gradient. -/
def Gradient.toExpr : Gradient → Expr
  | .linear gradient => gradient.toExpr
  | .themeDefault => .call "AppColors.primaryBackgroundGradient" [] []

/-- Whether a value mentions a linear gradient. -/
def isLinearGradient (raw : List Char) : Bool := occursIn "linear-gradient".toList (lowerAscii raw)

/-- The text before the parenthesis that closes `depth + 1` open ones. -/
def balanced? (depth : Nat) : List Char → Option (List Char)
  | [] => none
  | c :: rest =>
    if c == ')' && depth == 0 then some []
    else
      let depth := if c == '(' then depth + 1 else if c == ')' then depth - 1 else depth
      (balanced? depth rest).map (c :: ·)

/-- The arguments of the first `linear-gradient(…)`. -/
def gradientArguments? (raw : List Char) : Option (List Char) :=
  let marker := "linear-gradient(".toList
  (cut? marker (lowerAscii raw)).bind fun (before, _) =>
    balanced? 0 (raw.drop (before.length + marker.length))

/-- A hexadecimal stop at this place, of eight, six, four or three digits, as many as there are. -/
def hexStop? (_previous : Option Char) (text : List Char) : Option (List Char × Nat) :=
  match text with
  | '#' :: rest =>
    let digits := ((rest.take 8).takeWhile isHexDigit).length
    ([8, 6, 4, 3].find? (· ≤ digits)).map fun n => ('#' :: rest.take n, n + 1)
  | _ => none

/-- The colors of the stops in the first gradient of a value. -/
def gradientColors (vocabulary : Vocabulary) (raw : List Char) : List Color :=
  match gradientArguments? raw with
  | none => []
  | some arguments => (allMatches hexStop? arguments).filterMap (parseColor? vocabulary)

/-- An angle in degrees at this place. -/
def angle? (_previous : Option Char) (text : List Char) : Option (List Char × Nat) :=
  let digits := text.takeWhile isDigit
  let unit := trimStart (text.dropWhile isDigit)
  if !digits.isEmpty && startsWith "deg".toList (lowerAscii (unit.take 3)) then
    some (digits, digits.length)
  else none

/-- The degrees of the first angle, 180 if there is none or it is no 32-bit number. -/
def gradientAngle (arguments : List Char) : Nat :=
  match firstMatch? angle? arguments with
  | some (_, digits, _) => ((Decimal.nat? digits).filter (· < UInt32.size)).getD 180
  | none => 180

/-- The alignments between which a gradient with an angle runs: downwards, to the right, or along
    the diagonal. -/
def gradientAnchors (angle : Nat) : String × String :=
  if angle == 180 then ("Alignment.topCenter", "Alignment.bottomCenter")
  else if angle == 90 then ("Alignment.centerLeft", "Alignment.centerRight")
  else ("Alignment.topLeft", "Alignment.bottomRight")

/-- The first linear gradient of a value, if it has a stop. -/
def parseLinearGradient? (vocabulary : Vocabulary) (raw : List Char) : Option LinearGradient :=
  match gradientArguments? raw, gradientColors vocabulary raw with
  | some arguments, color :: colors =>
    let (start, finish) := gradientAnchors (gradientAngle arguments)
    some ⟨start, finish, color :: colors⟩
  | _, _ => none

/-- Whether the background is clipped to the text. -/
def clipsToText (props : PropertyMap) : Bool :=
  ["background-clip", "-webkit-background-clip"].any fun name =>
    (props.get? name).any fun raw => occursIn "text".toList (lowerAscii raw.toList)

/-- The background that gradient text would be filled with, when it is clipped to the text. -/
def textBackground? (props : PropertyMap) : Option (List Char) :=
  if clipsToText props then
    (props.get? "background-image" <|> props.get? "background").map String.toList
  else none

/-- The gradient that text is filled with. -/
def textGradient? (vocabulary : Vocabulary) (props : PropertyMap) : Option LinearGradient :=
  ((textBackground? props).filter isLinearGradient).bind (parseLinearGradient? vocabulary)

/-- The first stop of the gradient that text is filled with. -/
def textGradientStop? (vocabulary : Vocabulary) (props : PropertyMap) : Option Color :=
  (textBackground? props).bind fun raw => (gradientColors vocabulary raw).head?

end DesignCompiler.Style
