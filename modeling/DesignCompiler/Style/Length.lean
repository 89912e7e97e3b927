import DesignCompiler.Decimal.Numeral
import DesignCompiler.Geometry
import DesignCompiler.Stylesheet.Rule
import DesignCompiler.Text.Lowercase

/-!
# Keywords and lengths

Properties whose value is one of some words are compared without regard to blanks and letter case. A
length is the first number in pixels in a value, else the number the value begins with. A shorthand
is one to four lengths.
-/

namespace DesignCompiler.Style

open Text Decimal

/-- The value of a property, trimmed and in ASCII lower case; empty when it is missing. -/
def keyword (props : PropertyMap) (name : String) : String :=
  match props.get? name with
  | some raw => String.ofList (lowerAscii (trim raw.toList))
  | none => ""

/-- The finite number that a text begins with after blanks. -/
def leadingFloat? (raw : List Char) : Option Float :=
  ((Numeral.leading? (trimStart raw)).map fun (numeral, _) => numeral.value).filter Float.isFinite

/-- Whether a number fits 64 bits with a sign. -/
def fitsInt64 (n : Int) : Bool := -0x8000000000000000 ≤ n && n < 0x8000000000000000

/-- The integer that a text begins with after blanks, if it fits 64 bits with a sign. -/
def leadingInt? (raw : List Char) : Option Int := (leadingInteger? (trimStart raw)).filter fitsInt64

/-- The minus sign a text begins with, possibly none, and the rest. -/
def readMinus : List Char → List Char × List Char
  | '-' :: rest => (['-'], rest)
  | text => ([], text)

/-- A number in pixels at this place: a sign, digits and points, and `px`. -/
def pixels? (_previous : Option Char) (text : List Char) : Option (List Char × Nat) :=
  let isPart (c : Char) : Bool := isAsciiDigit c || c == '.'
  let (sign, unsigned) := readMinus text
  let number := unsigned.takeWhile isPart
  if !number.isEmpty && startsWith ['p', 'x'] (unsigned.dropWhile isPart) then
    some (sign ++ number, sign.length + number.length + 2)
  else none

/-- The length that a value denotes. -/
def length? (raw : List Char) : Option Float :=
  (firstMatch? pixels? raw).bind (fun (_, number, _) => leadingFloat? number) <|> leadingFloat? raw

/-- The insets of a shorthand. What follows a slash is left out, and so are words that are no
    lengths. -/
def boxInsets? (raw : List Char) : Option Insets :=
  Insets.ofShorthand? ((words (raw.takeWhile (· != '/'))).filterMap length?)

/-- The length that a property denotes. -/
def propertyLength? (props : PropertyMap) (name : String) : Option Float :=
  (props.get? name).bind fun raw => length? raw.toList

end DesignCompiler.Style
