import DesignCompiler.Markup.Entity
import DesignCompiler.Markup.Script
import DesignCompiler.Markup.TagToken
import DesignCompiler.Text.Blank

/-!
# Static values

What a run of text and an expression in braces say without being run: the text of an element, the
string of a literal, and the classes that an expression refers to in a style module.
-/

namespace DesignCompiler.Markup

open Text

/-- The content of a run of text. On a single line it is kept; of several lines each is trimmed,
    blank ones are dropped and the others joined by spaces. A blank run has no content. -/
def textContent (raw : List Char) : List Char :=
  if allBlank raw then []
  else if raw.contains '\n' then
    decodeEntities ([' '].intercalate
      (((splitOn (· == '\n') raw).map trim).filter (!·.isEmpty)))
  else decodeEntities raw

/-- The content of a string literal with its escapes resolved. -/
def unescape : List Char → List Char
  | [] => []
  | ['\\'] => ['\\']
  | '\\' :: c :: rest => (if c == 'n' then '\n' else if c == 't' then '\t' else c) :: unescape rest
  | c :: rest => c :: unescape rest

/-- The string of an expression that starts and ends with one quote. A template literal with a
    substitution has none. -/
def staticString? (expression : List Char) : Option (List Char) :=
  match trim expression with
  | [] => none
  | quote :: rest =>
    if isStringQuote quote && rest.getLast? == some quote then
      let body := rest.dropLast
      if quote == '\x60' && occursIn ['$', '\x7b'] body then none else some (unescape body)
    else none

/-- A character that an identifier can go on with. -/
def isIdentChar (c : Char) : Bool := isWord c || c == '$'

/-- The identifier that a text begins with, and the rest. -/
def ident? (text : List Char) : Option (List Char × List Char) :=
  match text with
  | [] => none
  | c :: rest =>
    if TagToken.startsName c then
      some (c :: rest.takeWhile isIdentChar, rest.dropWhile isIdentChar)
    else none

/-- The member that a text like `styles.card` names, and the rest. -/
def member? (text : List Char) : Option (List Char × List Char) :=
  match ident? text with
  | some (_, '.' :: rest) => ident? rest
  | _ => none

/-- A class name and how many characters of the expression remain where it begins. -/
structure ClassReference where
  remaining : Nat
  name : List Char

/-- A match that leaves `rest` of `text`, with the name it ends in or encloses. -/
def ClassReference.ofMatch (text name fromName rest : List Char) : ClassReference × Nat :=
  (⟨fromName.length, name⟩, text.length - rest.length)

/-- A member access at this place: at the start of the expression, or after a character that can
    neither belong to an identifier nor precede a member. -/
def memberReference? (previous : Option Char) (text : List Char) : Option (ClassReference × Nat) :=
  let here := if previous.isNone then member? text else none
  let next := match text with
    | c :: rest => if isIdentChar c || c == '.' then none else member? rest
    | [] => none
  (here <|> next).map fun (name, rest) => ClassReference.ofMatch text name (name ++ rest) rest

/-- The quoted text that a text begins with, in quotes of either kind, and the rest. -/
def quoted? (text : List Char) : Option (List Char × List Char) :=
  let isQuote (c : Char) : Bool := c == '\'' || c == '"'
  match text with
  | [] => none
  | c :: rest =>
    match isQuote c, rest.takeWhile (!isQuote ·), rest.dropWhile (!isQuote ·) with
    | true, d :: body, _ :: after => some (d :: body, after)
    | _, _, _ => none

/-- A computed access like `styles['card-title']` at this place. -/
def indexReference? (_previous : Option Char) (text : List Char) : Option (ClassReference × Nat) :=
  match ident? text with
  | some (_, '[' :: inside) =>
    match quoted? (trimStart inside) with
    | some (name, after) =>
      match trimStart after with
      | ']' :: rest => some (ClassReference.ofMatch text name (name ++ '"' :: after) rest)
      | _ => none
    | none => none
  | _ => none

/-- The names in a list of references without repetitions. -/
def distinctNames (references : List ClassReference) : List (List Char) :=
  references.foldl
    (fun names r => if names.contains r.name then names else names ++ [r.name]) []

/-- The classes an expression refers to: the string it is, or the members and computed accesses in
    it in the order in which their names stand there. -/
def classNames? (expression : List Char) : Option (List Char) :=
  match staticString? expression with
  | some literal => some literal
  | none =>
    let references :=
      allMatches memberReference? expression ++ allMatches indexReference? expression
    let names := distinctNames (references.mergeSort fun a b => b.remaining ≤ a.remaining)
    if names.isEmpty then none else some ([' '].intercalate names)

end DesignCompiler.Markup
