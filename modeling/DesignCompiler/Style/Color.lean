import DesignCompiler.Dart.Expr
import DesignCompiler.Decimal.Numeral
import DesignCompiler.Style.Vocabulary
import DesignCompiler.Text.Blank
import DesignCompiler.Text.Class

/-!
# Colors

A color is written in hexadecimal digits, as `rgb()` or `rgba()`, by name, or as a `var()` token
with an optional fallback. Stylesheets put alpha last; the canonical form `#aarrggbb` puts it first.
-/

namespace DesignCompiler.Style

open Text Dart

/-- A color with eight bits per channel. -/
structure Rgba where
  r : UInt8
  g : UInt8
  b : UInt8
  a : UInt8
  deriving DecidableEq

/-- A hexadecimal digit in lower case. -/
def hexDigit (n : Nat) : Char :=
  if n < 10 then Char.ofNat ('0'.toNat + n) else Char.ofNat ('a'.toNat + (n - 10))

/-- The two hexadecimal digits of a channel. -/
def channelHex (x : UInt8) : List Char := [hexDigit (x.toNat / 16), hexDigit (x.toNat % 16)]

namespace Rgba

/-- The form `#aarrggbb` in lower case. -/
def canonicalHex (c : Rgba) : String :=
  String.ofList ('#' :: channelHex c.a ++ channelHex c.r ++ channelHex c.g ++ channelHex c.b)

/-- The color of a text `#aarrggbb`. -/
def ofCanonicalHex? (hex : List Char) : Option Rgba :=
  match dropStart? ['#'] hex with
  | none => none
  | some digits =>
    if digits.length == 8 then
      (unsigned? 16 isHexDigit digits).map fun n =>
        let channel (place : Nat) : UInt8 := UInt8.ofNat (n >>> (8 * place) % 256)
        ⟨channel 2, channel 1, channel 0, channel 3⟩
    else none

/-- The channel of one digit, which stands for two equal ones. -/
def shortChannel (digit : Char) : UInt8 := UInt8.ofNat (17 * hexDigitValue digit)

/-- The channel of two digits. -/
def channel (high low : Char) : UInt8 := UInt8.ofNat (16 * hexDigitValue high + hexDigitValue low)

/-- The color of a text `#rgb`, `#rgba`, `#rrggbb` or `#rrggbbaa`. -/
def ofCssHex? (hex : List Char) : Option Rgba :=
  match dropStart? ['#'] hex with
  | none => none
  | some digits =>
    if digits.all isHexDigit then
      match digits with
      | [r, g, b] => some ⟨shortChannel r, shortChannel g, shortChannel b, 255⟩
      | [r, g, b, a] => some ⟨shortChannel r, shortChannel g, shortChannel b, shortChannel a⟩
      | [r, r', g, g', b, b'] => some ⟨channel r r', channel g g', channel b b', 255⟩
      | [r, r', g, g', b, b', a, a'] =>
        some ⟨channel r r', channel g g', channel b b', channel a a'⟩
      | _ => none
    else none

end Rgba

/-- A color as generated code refers to it. A token is an expression of the palette. -/
inductive Color where
  | argb (rgba : Rgba)
  | white
  | black
  | transparent
  | token (expression : String)
  deriving DecidableEq

/-- The expression of a color. -/
def Color.toExpr : Color → Expr
  | .argb rgba => .call "AppColors.fromHex" [.str rgba.canonicalHex] []
  | .white => .ident "AppColors.white"
  | .black => .ident "AppColors.black"
  | .transparent => .ident "AppColors.transparent"
  | .token expression => .ident expression

/-- The number that a text begins with between blanks, followed by `close`, and the text after
    that. -/
def numberBefore? (close : Char) (text : List Char) : Option (Nat × List Char) :=
  let start := trimStart text
  match Decimal.nat? (start.takeWhile isAsciiDigit), trimStart (start.dropWhile isAsciiDigit) with
  | some n, c :: rest => if c == close then some (n, rest) else none
  | _, _ => none

/-- The channel of a number, which has to fit 64 bits. -/
def channel? (n : Nat) : Option UInt8 :=
  if n < UInt64.size then some (UInt8.ofNat (min n 255)) else none

/-- The alpha channel of a share between zero and one; what lies outside counts as the nearer
    bound. -/
def alphaChannel (share : Float) : UInt8 :=
  let clamped := if share < 0.0 then 0.0 else if share > 1.0 then 1.0 else share
  (clamped * 255.0).round.toUInt8

/-- The share that a text denotes: digits, with a point before the last of them at most. -/
def share? (text : List Char) : Option Float :=
  if (text.getLast?).any isAsciiDigit && text.all (fun c => isAsciiDigit c || c == '.') then
    Decimal.float? text
  else none

/-- The color of a text `rgb(r, g, b)` or `rgba(r, g, b, a)`; either name may have three or four
    arguments. -/
def ofRgbFunction? (text : List Char) : Option Rgba := do
  let arguments ← dropStart? "rgba(".toList text <|> dropStart? "rgb(".toList text
  let (r, afterRed) ← numberBefore? ',' arguments
  let (g, afterGreen) ← numberBefore? ',' afterRed
  match numberBefore? ')' afterGreen with
  | some (b, []) => return ⟨← channel? r, ← channel? g, ← channel? b, 255⟩
  | _ =>
    let (b, afterBlue) ← numberBefore? ',' afterGreen
    let inside ← dropEnd? [')'] afterBlue
    let alpha ← share? (trim inside)
    return ⟨← channel? r, ← channel? g, ← channel? b, alphaChannel alpha⟩

/-- The token that a `var()` names: without leading hyphens and all but ASCII letters, digits and
    underscores. -/
def tokenName (name : List Char) : List Char :=
  (dropStart (· == '-') (trim name)).filter fun c => isAsciiAlphanumeric c || c == '_'

/-- The arguments of a text `var(…)`. -/
def variableArguments? (text : List Char) : Option (List Char) :=
  (dropStart? "var(".toList text).bind (dropEnd? [')'])

/-- The color of a text that is no `var()`, trimmed and in lower case. -/
def plainColor? (text : List Char) : Option Color :=
  if text.head? == some '#' then (Rgba.ofCssHex? text).map Color.argb
  else match ofRgbFunction? text with
    | some rgba => some (.argb rgba)
    | none =>
      if text == "white".toList then some .white
      else if text == "black".toList then some .black
      else if text == "transparent".toList then some .transparent
      else none

theorem length_of_variableArguments? {text inside : List Char}
    (h : variableArguments? text = some inside) : inside.length < text.length := by
  obtain ⟨rest, hstart, hend⟩ := Option.bind_eq_some_iff.mp h
  have h₁ := congrArg List.length (eq_append_of_dropStart? hstart)
  have h₂ := congrArg List.length (eq_append_of_dropEnd? hend)
  simp only [List.length_append, List.length_cons, List.length_nil] at h₁ h₂
  omega

/-- The color that a value denotes. A `var()` is looked up in the vocabulary; one that is not there
    has the color of its fallback. -/
def parseColor? (vocabulary : Vocabulary) (raw : List Char) : Option Color :=
  match _harguments : variableArguments? (lowerAscii (trim raw)) with
  | none => plainColor? (lowerAscii (trim raw))
  | some inside =>
    match _hcut : cutAt? (· == ',') inside with
    | none => (vocabulary.colorToken? (String.ofList (tokenName inside))).map Color.token
    | some (name, fallback) =>
      match vocabulary.colorToken? (String.ofList (tokenName name)) with
      | some expression => some (.token expression)
      | none => parseColor? vocabulary fallback
termination_by raw.length
decreasing_by
  have h₁ := length_of_variableArguments? _harguments
  have h₂ := length_of_cutAt? _hcut
  have h₃ := length_trim_le raw
  simp only [lowerAscii, List.length_map] at h₁
  omega

/-- How many characters a text `name(…)` takes up, through its first closing parenthesis, if the
    given text begins so; `name` is in lower case and matches either letter case. -/
def functionLength? (name : String) (text : List Char) : Option Nat :=
  match dropStart? (name.toList ++ ['(']) (lowerAscii text) with
  | none => none
  | some rest =>
    if rest.contains ')' then
      some (name.length + 1 + (rest.takeWhile (· != ')')).length + 1)
    else none

/-- A color at this place of a compound value. A function reaches to its first closing parenthesis,
    and at most eight digits belong to a hexadecimal color. -/
def embeddedColor? (_previous : Option Char) (text : List Char) : Option (List Char × Nat) :=
  let hexLength? : Option Nat :=
    match text with
    | '#' :: rest =>
      let digits := (rest.take 8).takeWhile isHexDigit
      if 3 ≤ digits.length then some (digits.length + 1) else none
    | _ => none
  (functionLength? "rgb" text <|> functionLength? "rgba" text <|> hexLength? <|>
    functionLength? "var" text).map fun length => (text.take length, length)

/-- The first color in a compound value such as `1px solid #e4e7ec`. -/
def findColor? (vocabulary : Vocabulary) (raw : List Char) : Option Color :=
  (firstMatch? embeddedColor? raw).bind fun (_, color, _) => parseColor? vocabulary color

/-- A compound value without its first color. -/
def stripColor (raw : List Char) : List Char :=
  match firstMatch? embeddedColor? raw with
  | some (before, _, after) => before ++ after
  | none => raw

end DesignCompiler.Style
