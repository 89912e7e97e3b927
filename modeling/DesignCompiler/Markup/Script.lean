import DesignCompiler.Text.Blank
import DesignCompiler.Text.Class

/-!
# The script around markup

Markup stands in script code and holds script expressions in braces. Code is walked character by
character; strings in any of the three quotes and comments are passed over.
-/

namespace DesignCompiler.Markup

open Text

/-- What the walk is in before a character. -/
inductive ScriptMode where
  | code
  | string (quote : Char)
  | escape (quote : Char)
  | lineComment
  | commentOpening
  | comment
  | commentClosing
  deriving DecidableEq

/-- Whether the character delimits strings. -/
def isStringQuote (c : Char) : Bool := c == '"' || c == '\'' || c == '\x60'

/-- What the walk is in after a character, given the one that follows it. -/
def ScriptMode.after (mode : ScriptMode) (c : Char) (next : Option Char) : ScriptMode :=
  match mode with
  | .code =>
    if isStringQuote c then .string c
    else if c == '/' && next == some '*' then .commentOpening
    else if c == '/' && next == some '/' then .lineComment
    else .code
  | .string quote =>
    if c == '\\' then .escape quote else if c == quote then .code else .string quote
  | .escape quote => .string quote
  | .lineComment => if c == '\n' then .code else .lineComment
  | .commentOpening => .comment
  | .comment => if c == '*' && next == some '/' then .commentClosing else .comment
  | .commentClosing => .code

/-- The text before the brace that closes `depth + 1` open ones, and the text after it. -/
def braceBody? (depth : Nat) (mode : ScriptMode) : List Char → Option (List Char × List Char)
  | [] => none
  | c :: rest =>
    if mode = .code && c == '}' && depth == 0 then some ([], rest)
    else
      let depth :=
        if mode ≠ .code then depth
        else if c == '{' then depth + 1 else if c == '}' then depth - 1 else depth
      (braceBody? depth (mode.after c rest.head?) rest).map fun (body, after) => (c :: body, after)

/-- The expression after an opening brace and the text after the brace that closes it. -/
def expression? (text : List Char) : Option (List Char × List Char) := braceBody? 0 .code text

/-- Whether an expression can begin after the characters `before`, given in reverse order: at the
    start, after an operator or an opening bracket, or after the word `return`. -/
def inExpressionPosition (before : List Char) : Bool :=
  match before.dropWhile isBlank with
  | [] => true
  | last :: earlier =>
    ['(', '=', ',', '?', ':', '{', '[', '&', '|', '>'].contains last ||
      match (last :: earlier) with
      | 'n' :: 'r' :: 'u' :: 't' :: 'e' :: 'r' :: word =>
        !word.head?.any fun c => isAlphanumeric c || c == '_' || c == '$'
      | _ => false

/-- Whether a `<` before this text can open an element or a fragment. -/
def opensMarkup (rest : List Char) : Bool := rest.head?.any fun c => isAsciiLetter c || c == '>'

/-- The text from the first `<` that opens markup in an expression position. -/
def markupFrom? (before : List Char) (mode : ScriptMode) : List Char → Option (List Char)
  | [] => none
  | c :: rest =>
    if mode = .code && c == '<' && opensMarkup rest && inExpressionPosition before then
      some (c :: rest)
    else markupFrom? (c :: before) (mode.after c rest.head?) rest

/-- The text of a source from its first markup on. -/
def markupStart? (source : List Char) : Option (List Char) := markupFrom? [] .code source

theorem length_of_braceBody? {depth : Nat} {mode : ScriptMode} {text body after : List Char}
    (h : braceBody? depth mode text = some (body, after)) :
    text.length = body.length + after.length + 1 := by
  induction text generalizing depth mode body after with
  | nil => cases h
  | cons c rest ih =>
    unfold braceBody? at h
    split at h
    · cases h
      simp
    · obtain ⟨⟨front, back⟩, hrest, hpair⟩ := Option.map_eq_some_iff.mp h
      cases hpair
      have := ih hrest
      simp only [List.length_cons]
      omega

end DesignCompiler.Markup
