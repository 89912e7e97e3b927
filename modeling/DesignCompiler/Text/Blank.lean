import DesignCompiler.Text.CodePoints

/-!
# Blank characters

White space is the Unicode property `White_Space`: twenty-five characters, among them the no-break
space but neither the zero-width space nor the byte order mark. Trimming, splitting into words and
collapsing are stated on lists of characters.
-/

namespace DesignCompiler.Text

/-- The code points with the property `White_Space`, as inclusive ranges. -/
def blankRanges : List (Nat × Nat) := [
  (0x9, 0xD), (0x20, 0x20), (0x85, 0x85), (0xA0, 0xA0), (0x1680, 0x1680), (0x2000, 0x200A),
  (0x2028, 0x2029), (0x202F, 0x202F), (0x205F, 0x205F), (0x3000, 0x3000)]

/-- Whether a character is white space. -/
def isBlank (c : Char) : Bool := inRanges blankRanges c

/-- Whether a text holds nothing but white space. -/
def allBlank (text : List Char) : Bool := text.all isBlank

/-- The text without its leading characters in the class `drop`. -/
def dropStart (drop : Char → Bool) (text : List Char) : List Char := text.dropWhile drop

/-- The text without its trailing characters in the class `drop`. -/
def dropEnd (drop : Char → Bool) (text : List Char) : List Char :=
  (text.reverse.dropWhile drop).reverse

/-- The text without the characters of the class `drop` at either end. -/
def dropEnds (drop : Char → Bool) (text : List Char) : List Char :=
  dropEnd drop (dropStart drop text)

/-- The text without leading white space. -/
def trimStart (text : List Char) : List Char := dropStart isBlank text

/-- The text without trailing white space. -/
def trimEnd (text : List Char) : List Char := dropEnd isBlank text

/-- The text without white space at either end. -/
def trim (text : List Char) : List Char := dropEnds isBlank text

theorem length_trim_le (text : List Char) : (trim text).length ≤ text.length := by
  have h₁ := (List.dropWhile_sublist isBlank (l := text)).length_le
  have h₂ := (List.dropWhile_sublist isBlank (l := (text.dropWhile isBlank).reverse)).length_le
  simp only [trim, dropEnds, dropEnd, dropStart, List.length_reverse] at h₂ ⊢
  omega

/-- The words of a text that begins with the characters `word`, already read and held in reverse
    order. -/
def wordsFrom (word : List Char) : List Char → List (List Char)
  | [] => if word.isEmpty then [] else [word.reverse]
  | c :: rest =>
    if isBlank c then
      if word.isEmpty then wordsFrom [] rest else word.reverse :: wordsFrom [] rest
    else wordsFrom (c :: word) rest

/-- The maximal runs of characters that are not white space, in order. -/
def words (text : List Char) : List (List Char) := wordsFrom [] text

/-- The words of a text joined by single spaces. -/
def collapse (text : List Char) : List Char := [' '].intercalate (words text)

end DesignCompiler.Text
