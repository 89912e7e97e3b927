import DesignCompiler.Decimal.Nearest
import DesignCompiler.Text.Class

/-!
# Written numbers

A numeral is a decimal number as it stands in a text: an optional sign, digits with an optional
point, and an optional power of ten. `Numeral.leading?` reads the longest numeral a text begins
with, and `Numeral.value` is the double nearest to what it denotes.
-/

namespace DesignCompiler.Decimal

open Text

/-- The number that a run of ASCII digits denotes. -/
def natOfDigits (digits : List Char) : Nat :=
  digits.foldl (fun n c => 10 * n + (c.toNat - '0'.toNat)) 0

/-- The number that a text denotes if it consists of ASCII digits, at least one. -/
def nat? (text : List Char) : Option Nat :=
  if !text.isEmpty && text.all isAsciiDigit then some (natOfDigits text) else none

/-- The written power of ten: its marker `e` or `E`, its sign and its digits. -/
structure Exponent where
  marker : Char
  sign : List Char
  digits : List Char

/-- A decimal number as written. A sign is empty or one character. -/
structure Numeral where
  sign : List Char
  whole : List Char
  hasPoint : Bool
  fraction : List Char
  exponent : Option Exponent

/-- The characters of an exponent. -/
def Exponent.written (e : Exponent) : List Char := e.marker :: e.sign ++ e.digits

/-- The power that an exponent denotes. -/
def Exponent.power (e : Exponent) : Int :=
  if e.sign == ['-'] then -(natOfDigits e.digits : Int) else natOfDigits e.digits

/-- The characters of a numeral. -/
def Numeral.written (n : Numeral) : List Char :=
  n.sign ++ n.whole ++ (if n.hasPoint then ['.'] else []) ++ n.fraction ++
    (n.exponent.map Exponent.written).getD []

/-- The sign a text begins with, possibly none, and the rest. -/
def readSign : List Char → List Char × List Char
  | c :: rest => if c == '+' || c == '-' then ([c], rest) else ([], c :: rest)
  | [] => ([], [])

/-- The exponent a text begins with, if it has at least one digit, and the rest. -/
def readExponent (text : List Char) : Option Exponent × List Char :=
  match text with
  | [] => (none, [])
  | marker :: rest =>
    if marker == 'e' || marker == 'E' then
      let (sign, afterSign) := readSign rest
      let (digits, after) := afterSign.span isAsciiDigit
      if digits.isEmpty then (none, text) else (some ⟨marker, sign, digits⟩, after)
    else (none, text)

/-- The point and the fraction a text begins with. A point without a fraction counts only after a
    whole part. -/
def readFraction (hasWhole : Bool) (text : List Char) : Bool × List Char × List Char :=
  match text with
  | '.' :: rest =>
    let (digits, after) := rest.span isAsciiDigit
    if digits.isEmpty then if hasWhole then (true, [], rest) else (false, [], text)
    else (true, digits, after)
  | _ => (false, [], text)

/-- The longest numeral that a text begins with, and the rest. -/
def Numeral.leading? (text : List Char) : Option (Numeral × List Char) :=
  let (sign, afterSign) := readSign text
  let (whole, afterWhole) := afterSign.span isAsciiDigit
  let (hasPoint, fraction, afterFraction) := readFraction (!whole.isEmpty) afterWhole
  if whole.isEmpty && fraction.isEmpty then none
  else
    let (exponent, rest) := readExponent afterFraction
    some (⟨sign, whole, hasPoint, fraction, exponent⟩, rest)

/-- The double nearest to what a numeral denotes. -/
def Numeral.value (n : Numeral) : Float :=
  let digits := (n.whole ++ n.fraction).dropWhile (· == '0')
  let power := (n.exponent.map Exponent.power).getD 0 - n.fraction.length
  let magnitude := nearestFloat (natOfDigits digits) digits.length power
  if n.sign == ['-'] then -magnitude else magnitude

/-- The value of a text that is one numeral and nothing else. -/
def float? (text : List Char) : Option Float :=
  match Numeral.leading? text with
  | some (numeral, []) => some numeral.value
  | _ => none

/-- The integer with an optional sign that a text begins with. -/
def leadingInteger? (text : List Char) : Option Int :=
  let (sign, afterSign) := readSign text
  let digits := afterSign.takeWhile isAsciiDigit
  if digits.isEmpty then none
  else if sign == ['-'] then some (-(natOfDigits digits : Int)) else some (natOfDigits digits)

end DesignCompiler.Decimal
