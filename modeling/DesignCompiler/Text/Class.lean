import DesignCompiler.Text.Alphabetic
import DesignCompiler.Text.Mark
import DesignCompiler.Text.Search

/-!
# Classes of characters

The classes that names and numbers are read with. The short ones are ASCII; word characters and
alphanumeric characters are the Unicode classes, decided without a table for ASCII.
-/

namespace DesignCompiler.Text

/-- An ASCII letter. -/
def isAsciiLetter (c : Char) : Bool := ('a' ≤ c && c ≤ 'z') || ('A' ≤ c && c ≤ 'Z')

/-- An ASCII digit. -/
def isAsciiDigit (c : Char) : Bool := '0' ≤ c && c ≤ '9'

/-- An ASCII letter or digit. -/
def isAsciiAlphanumeric (c : Char) : Bool := isAsciiLetter c || isAsciiDigit c

/-- A hexadecimal digit in either letter case. -/
def isHexDigit (c : Char) : Bool := isAsciiDigit c || ('a' ≤ c && c ≤ 'f') || ('A' ≤ c && c ≤ 'F')

/-- A connector such as the underscore (category `Pc`), or one of the two join controls. -/
def isConnector (c : Char) : Bool :=
  inRanges [(0x5F, 0x5F), (0x200C, 0x200D), (0x203F, 0x2040), (0x2054, 0x2054), (0xFE33, 0xFE34),
    (0xFE4D, 0xFE4F), (0xFF3F, 0xFF3F)] c

/-- A decimal digit of any script, recent ones left out. -/
def isDigit (c : Char) : Bool :=
  if c.toNat < 0x80 then isAsciiDigit c else isDecimalDigit c && !isRecent c

/-- A word character: a letter, a mark, a decimal digit, a connector or a join control, recent ones
    left out. -/
def isWord (c : Char) : Bool :=
  if c.toNat < 0x80 then isAsciiAlphanumeric c || c == '_'
  else (isAlphabetic c || isBareMark c || isDecimalDigit c || isConnector c) && !isRecent c

/-- A letter or a number of any script, recent ones included. -/
def isAlphanumeric (c : Char) : Bool :=
  if c.toNat < 0x80 then isAsciiAlphanumeric c
  else isAlphabetic c || isDecimalDigit c || isBareNumeral c

/-! ## Numbers in a base

Unsigned numbers written in decimal or hexadecimal digits of either letter case. -/

/-- The value of a hexadecimal digit. -/
def hexDigitValue (c : Char) : Nat :=
  if isAsciiDigit c then c.toNat - '0'.toNat else c.toLower.toNat - 'a'.toNat + 10

/-- The number that digits of a base denote. -/
def natInBase (base : Nat) (digits : List Char) : Nat :=
  digits.foldl (fun n c => base * n + hexDigitValue c) 0

/-- The number that a text denotes if it consists of digits, at least one, after an optional plus
    sign. -/
def unsigned? (base : Nat) (isDigit : Char → Bool) (text : List Char) : Option Nat :=
  let digits := (dropStart? ['+'] text).getD text
  if !digits.isEmpty && digits.all isDigit then some (natInBase base digits) else none

end DesignCompiler.Text
