import DesignCompiler.Text.Class
import DesignCompiler.Text.Search

/-!
# Character entities

An entity is `&`, a name or a number of at most nine characters, and `;`. Six names are known.
A number is hexadecimal after `#x` and decimal after `#`, and may have a plus sign. What is not an
entity stays as it is.
-/

namespace DesignCompiler.Markup

open Text

/-- The character with a code point, if there is one. -/
def char? (code : Nat) : Option Char := if code.isValidChar then some (Char.ofNat code) else none

/-- The number of a numeric entity. -/
def entityNumber? (body : List Char) : Option Nat :=
  let hexadecimal := (dropStart? ['#', 'x'] body <|> dropStart? ['#', 'X'] body).bind
    (unsigned? 16 isHexDigit)
  let decimal := (dropStart? ['#'] body).bind (unsigned? 10 isAsciiDigit)
  hexadecimal <|> decimal

/-- The character that the entity `&body;` stands for. -/
def entityChar? (body : List Char) : Option Char :=
  match String.ofList body with
  | "amp" => some '&'
  | "lt" => some '<'
  | "gt" => some '>'
  | "quot" => some '"'
  | "apos" => some '\''
  | "nbsp" => some (Char.ofNat 0xA0)
  | _ => (entityNumber? body).bind char?

/-- The character of the entity whose body a text begins with, and the number of characters of the
    body. -/
def entityAt? (text : List Char) : Option (Char × Nat) :=
  let body := text.takeWhile (· != ';')
  if body.length ≤ 9 && body.length < text.length then
    (entityChar? body).map fun c => (c, body.length)
  else none

/-- The text with its entities replaced, where the first `pending` characters still belong to an
    entity already replaced. -/
def decodeEntitiesFrom (pending : Nat) : List Char → List Char
  | [] => []
  | c :: rest =>
    match pending with
    | n + 1 => decodeEntitiesFrom n rest
    | 0 =>
      if c == '&' then
        match entityAt? rest with
        | some (decoded, length) => decoded :: decodeEntitiesFrom (length + 1) rest
        | none => '&' :: decodeEntitiesFrom 0 rest
      else c :: decodeEntitiesFrom 0 rest

/-- The text with its entities replaced. -/
def decodeEntities (text : List Char) : List Char := decodeEntitiesFrom 0 text

end DesignCompiler.Markup
