import DesignCompiler.Text.Class

/-!
# Tokens of a selector

The longest token at each place is read. What begins like a token and is none is dropped: a lone
`.`, `#` or `:` and any other character by itself, and an opening bracket without its closing one
together with all that follows.
-/

namespace DesignCompiler.Stylesheet

open Text

/-- The kinds of tokens. -/
inductive SelectorToken.Kind where
  | className
  | id
  | pseudoElement
  | pseudoClass
  | attribute
  | arguments
  | ident
  | parent
  | comma
  | star
  | greaterThan
  | plus
  | tilde
  deriving DecidableEq

/-- A token and its text. -/
structure SelectorToken where
  kind : SelectorToken.Kind
  text : List Char
  deriving DecidableEq

namespace SelectorToken

/-- A character that may stand inside a name. -/
def isNameChar (c : Char) : Bool := isAsciiAlphanumeric c || c == '_' || c == '-'

/-- Blanks between tokens. -/
def isSkipped (c : Char) : Bool := [' ', '\t', '\n', '\r', '\x0c'].contains c

/-- The token `opening ++ name`, if a name in the rest begins with a character of the class
    `starts`. -/
def named (kind : Kind) (opening : List Char) (starts : Char → Bool) (rest : List Char) :
    Option SelectorToken × List Char :=
  if rest.head?.any starts then
    (some ⟨kind, opening ++ rest.takeWhile isNameChar⟩, rest.dropWhile isNameChar)
  else (none, rest)

/-- The token from an opening bracket through the first `close`. -/
def bracketed (kind : Kind) (opening close : Char) (rest : List Char) :
    Option SelectorToken × List Char :=
  match rest.dropWhile (· != close) with
  | [] => (none, [])
  | _ :: after => (some ⟨kind, opening :: rest.takeWhile (· != close) ++ [close]⟩, after)

/-- The token of a single character. -/
def punctuation? : Char → Option Kind
  | '&' => some .parent
  | ',' => some .comma
  | '*' => some .star
  | '>' => some .greaterThan
  | '+' => some .plus
  | '~' => some .tilde
  | _ => none

/-- The token that begins with `c`, if there is one, and the text after what was read. -/
def scan (c : Char) (rest : List Char) : Option SelectorToken × List Char :=
  if c == '.' then named .className ['.'] isNameChar rest
  else if c == '#' then named .id ['#'] (fun d => isAsciiLetter d || d == '_' || d == '-') rest
  else if c == ':' then
    match rest with
    | ':' :: d :: after =>
      if isAsciiLetter d then named .pseudoElement [':', ':'] isAsciiLetter (d :: after)
      else (none, rest)
    | _ => named .pseudoClass [':'] isAsciiLetter rest
  else if c == '[' then bracketed .attribute '[' ']' rest
  else if c == '(' then bracketed .arguments '(' ')' rest
  else if isAsciiLetter c || c == '_' then
    (some ⟨.ident, c :: rest.takeWhile isNameChar⟩, rest.dropWhile isNameChar)
  else ((punctuation? c).map fun kind => ⟨kind, [c]⟩, rest)

theorem length_named_le (kind : Kind) (opening : List Char) (starts : Char → Bool)
    (rest : List Char) : (named kind opening starts rest).2.length ≤ rest.length := by
  unfold named
  split
  · exact (List.dropWhile_sublist _).length_le
  · exact Nat.le_refl _

theorem length_bracketed_le (kind : Kind) (opening close : Char) (rest : List Char) :
    (bracketed kind opening close rest).2.length ≤ rest.length := by
  unfold bracketed
  split
  · exact Nat.zero_le _
  · rename_i h
    have := (List.dropWhile_sublist (l := rest) (· != close)).length_le
    rw [h] at this
    exact Nat.le_of_succ_le this

/-- Scanning a token never gives back more than stood after its first character. -/
theorem length_scan_le (c : Char) (rest : List Char) : (scan c rest).2.length ≤ rest.length := by
  unfold scan
  repeat' split
  all_goals first
    | exact length_named_le _ _ _ _
    | exact length_bracketed_le _ _ _ _
    | exact (List.dropWhile_sublist _).length_le
    | exact Nat.le_refl _
    | exact Nat.le_succ_of_le (length_named_le _ _ _ _)

/-- The tokens of a selector, in order. -/
def tokenize : List Char → List SelectorToken
  | [] => []
  | c :: rest =>
    if isSkipped c then tokenize rest
    else (scan c rest).1.toList ++ tokenize (scan c rest).2
termination_by text => text.length
decreasing_by
  · exact Nat.lt_succ_self _
  · exact Nat.lt_succ_of_le (length_scan_le c rest)

end SelectorToken

/-- The names of the classes in a selector, in order. -/
def classNames (selector : String) : List String :=
  ((SelectorToken.tokenize selector.toList).filter (·.kind == .className)).map
    fun token => String.ofList (token.text.drop 1)

/-- The last class in a selector, under which its rule is filed. -/
def lastClassName? (selector : String) : Option String := (classNames selector).getLast?

end DesignCompiler.Stylesheet
