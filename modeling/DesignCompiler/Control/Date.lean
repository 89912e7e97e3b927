import DesignCompiler.Dart.Expr
import DesignCompiler.Decimal.Numeral
import DesignCompiler.Text.Blank
import DesignCompiler.Text.Lowercase
import DesignCompiler.Text.Search

/-!
# Dates in forms

Which texts read like dates, and the date that a picker starts on: a day, a month or a year,
whichever is the most precise that the hint spells and the calendar has.
-/

namespace DesignCompiler.Control

open Text Dart

/-- Phrases that mark a field as a date. -/
def datePhrases : List String := [
  "生年", "誕生日", "出生", "設置年", "施工年", "実施年", "年度", "年月日", "日付", "カレンダー",
  "日程"]

/-- Whether a word begins or ends between two characters. -/
def isWordBoundary (before after : Option Char) : Bool := before.any isWord != after.any isWord

/-- The text at this place between two word boundaries. -/
def wholeWord? (word : String) (previous : Option Char) (text : List Char) : Option (Unit × Nat) :=
  match dropStart? word.toList text with
  | some rest =>
    if isWordBoundary previous text.head? &&
        isWordBoundary (word.toList.getLast?) rest.head? then some ((), word.length)
    else none
  | none => none

/-- Whether a word occurs between word boundaries. -/
def hasWord (word : String) (text : List Char) : Bool :=
  (firstMatch? (wholeWord? word) text).isSome

/-- Whether some texts occur one after another. -/
def occurInOrder : List (List Char) → List Char → Bool
  | [], _ => true
  | needle :: rest, text =>
    match cut? needle text with
    | some (_, after) => occurInOrder rest after
    | none => false

/-- The digits that a text begins with, at most `most` of them. -/
def digitsUpTo (most : Nat) (text : List Char) : List Char := (text.take most).takeWhile isDigit

/-- The four digits that a text begins with, and the rest. -/
def fourDigits? (text : List Char) : Option (List Char × List Char) :=
  let digits := digitsUpTo 4 text
  if digits.length == 4 then some (digits, text.drop 4) else none

/-- The one or two digits that a text begins with, as many as there are, and the rest. -/
def twoDigits? (text : List Char) : Option (List Char × List Char) :=
  let digits := digitsUpTo 2 text
  if digits.isEmpty then none else some (digits, text.drop digits.length)

/-- A separator in a numeric date. -/
def isDateSeparator (c : Char) : Bool := c == '/' || c == '.' || c == '-'

/-- A numeric date at this place, between word boundaries. -/
def numericDate? (previous : Option Char) (text : List Char) : Option (Unit × Nat) := do
  guard (isWordBoundary previous text.head?)
  let (_, afterYear) ← fourDigits? text
  guard (afterYear.head?.any isDateSeparator)
  let (_, afterMonth) ← twoDigits? (afterYear.drop 1)
  guard (afterMonth.head?.any isDateSeparator)
  let (day, rest) ← twoDigits? (afterMonth.drop 1)
  guard (isWordBoundary day.getLast? rest.head?)
  return ((), text.length - rest.length)

/-- Whether a text reads like the label, the placeholder or the value of a date. -/
def looksLikeDate (raw : List Char) : Bool :=
  let text := collapse raw
  let lowered := lower text
  datePhrases.any (fun phrase => occursIn phrase.toList text) ||
    hasWord "dob" lowered || occursIn "birth".toList lowered || hasWord "date" lowered ||
    occursIn "calendar".toList lowered ||
    occurInOrder ["yy".toList, "mm".toList, "dd".toList] (lowerAscii text) ||
    (firstMatch? numericDate? text).isSome ||
    (text.contains '月' && text.contains '日')

/-- Whether an input is a date: by its type, or by its class, its label or its hint. -/
def looksLikeDateField (className : Option String) (inputType : String)
    (label hint : Option String) : Bool :=
  ["date", "datetime-local", "month"].contains inputType ||
    [className, label, hint].any fun text => text.any fun text => looksLikeDate text.toList

/-- A day of the calendar. -/
structure Date where
  year : Nat
  month : Nat
  day : Nat
  deriving DecidableEq

/-- Whether a year has a leap day. -/
def isLeapYear (year : Nat) : Bool := year % 4 == 0 && (year % 100 != 0 || year % 400 == 0)

/-- The number of days of a month. -/
def daysInMonth (year month : Nat) : Nat :=
  if month == 2 then if isLeapYear year then 29 else 28
  else if [4, 6, 9, 11].contains month then 30 else 31

/-- The date with a year, a month and a day, if the calendar has it. -/
def Date.of? (year month day : Nat) : Option Date :=
  if 1 ≤ month && month ≤ 12 && 1 ≤ day && day ≤ daysInMonth year month then
    some ⟨year, month, day⟩
  else none

/-- The date a picker starts on, with the precision of the hint. -/
inductive DateSeed where
  | day (date : Date)
  | month (date : Date)
  | year (date : Date)

/-- The date of a seed. -/
def DateSeed.date : DateSeed → Date
  | .day date => date
  | .month date => date
  | .year date => date

/-- A hint with slashes for the marks of years and months, dots and hyphens, and without the mark of
    days. -/
def slashedHint (hint : List Char) : List Char :=
  (trim hint).flatMap fun c =>
    if c == '日' then [] else if ['年', '月', '.', '-'].contains c then ['/'] else [c]

/-- The written year and month at this place, and the text after them. -/
def yearMonth? (text : List Char) : Option (List Char × List Char × List Char) := do
  let (year, afterYear) ← fourDigits? text
  let afterSlash ← dropStart? ['/'] afterYear
  let (month, rest) ← twoDigits? afterSlash
  return (year, month, rest)

/-- A year, a month and a day at this place, as written. -/
def fullDate? (_previous : Option Char) (text : List Char) :
    Option ((List Char × List Char × List Char) × Nat) := do
  let (year, month, rest) ← yearMonth? text
  let afterSlash ← dropStart? ['/'] rest
  let (day, rest) ← twoDigits? afterSlash
  return ((year, month, day), text.length - rest.length)

/-- A year and a month at this place, as written. -/
def monthDate? (_previous : Option Char) (text : List Char) :
    Option ((List Char × List Char) × Nat) := do
  let (year, month, rest) ← yearMonth? text
  return ((year, month), text.length - rest.length)

/-- A year at this place between word boundaries, as written. -/
def yearDate? (previous : Option Char) (text : List Char) : Option (List Char × Nat) := do
  let (year, rest) ← fourDigits? text
  guard (isWordBoundary previous text.head? && isWordBoundary year.getLast? rest.head?)
  return (year, 4)

/-- The day that the first full date in a hint spells. -/
def dayIn? (hint : List Char) : Option Date := do
  let (_, (year, month, day), _) ← firstMatch? fullDate? hint
  Date.of? (← Decimal.nat? year) (← Decimal.nat? month) (← Decimal.nat? day)

/-- The first day of the month that the first year and month in a hint spell. -/
def monthIn? (hint : List Char) : Option Date := do
  let (_, (year, month), _) ← firstMatch? monthDate? hint
  Date.of? (← Decimal.nat? year) (← Decimal.nat? month) 1

/-- The first day of the first year in a hint. -/
def yearIn? (hint : List Char) : Option Date := do
  let (_, year, _) ← firstMatch? yearDate? hint
  Date.of? (← Decimal.nat? year) 1 1

/-- The seed that a hint such as `2024/05/17` gives: the most precise reading that is a date. -/
def DateSeed.ofHint? (hint : List Char) : Option DateSeed :=
  let hint := slashedHint hint
  (dayIn? hint).map DateSeed.day <|> (monthIn? hint).map DateSeed.month <|>
    (yearIn? hint).map DateSeed.year

/-- The expression of the date of a seed. -/
def DateSeed.toExpr (seed : DateSeed) : Expr :=
  let number (n : Nat) : Expr := .num n.toFloat
  .call "DateTime" [number seed.date.year, number seed.date.month, number seed.date.day] []

end DesignCompiler.Control
