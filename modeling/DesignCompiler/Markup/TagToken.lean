import DesignCompiler.Markup.Error
import DesignCompiler.Text.Class

/-!
# Tokens inside a tag

The longest token at each place, after blanks. Text that begins no token is a fault at its place;
the end of the text is a fault at the place where the token was asked for.
-/

namespace DesignCompiler.Markup

open Text

/-- A token between `<` and `>`. A string keeps its quotes. -/
inductive TagToken where
  | selfClose
  | close
  | slash
  | equals
  | braceOpen
  | name (text : List Char)
  | string (quoted : List Char)
  deriving DecidableEq

namespace TagToken

/-- Blanks between tokens. -/
def isSkipped (c : Char) : Bool := [' ', '\t', '\n', '\r', '\x0c'].contains c

/-- A character that a name can begin with. -/
def startsName (c : Char) : Bool := isAsciiLetter c || c == '_' || c == '$'

/-- A character that a name can go on with. -/
def isNameChar (c : Char) : Bool :=
  isAsciiAlphanumeric c || ['_', '$', '.', ':', '-'].contains c

/-- The token that a text begins with, and the rest. -/
def scan? : List Char → Option (TagToken × List Char)
  | [] => none
  | '/' :: '>' :: rest => some (.selfClose, rest)
  | c :: rest =>
    if c == '>' then some (.close, rest)
    else if c == '/' then some (.slash, rest)
    else if c == '=' then some (.equals, rest)
    else if c == '{' then some (.braceOpen, rest)
    else if startsName c then
      some (.name (c :: rest.takeWhile isNameChar), rest.dropWhile isNameChar)
    else if c == '"' || c == '\'' then
      match rest.dropWhile (· != c) with
      | [] => none
      | _ :: after => some (.string (c :: rest.takeWhile (· != c) ++ [c]), after)
    else none

/-- The next token of a text, and the rest. -/
def next (text : List Char) : Except (Fault (List Char)) (TagToken × List Char) :=
  match text.dropWhile isSkipped with
  | [] => .error (.unclosed "" text)
  | c :: rest =>
    match scan? (c :: rest) with
    | some found => .ok found
    | none => .error (.unexpected (c :: rest))

/-- A string without its quotes. A text of fewer than two characters is kept. -/
def unquote (quoted : List Char) : List Char :=
  if 2 ≤ quoted.length then (quoted.drop 1).dropLast else quoted

theorem length_of_scan? {text rest : List Char} {token : TagToken}
    (h : scan? text = some (token, rest)) : rest.length < text.length := by
  unfold scan? at h
  split at h
  · cases h
  · cases h
    simp only [List.length_cons]
    omega
  · rename_i c tail _
    have hname := (List.dropWhile_sublist (l := tail) isNameChar).length_le
    have hstring := (List.dropWhile_sublist (l := tail) (· != c)).length_le
    repeat' split at h
    all_goals
      cases h
      try simp_all only [List.length_cons]
      try omega

/-- Each token takes up at least one character. -/
theorem length_of_next {text rest : List Char} {token : TagToken}
    (h : next text = .ok (token, rest)) : rest.length < text.length := by
  unfold next at h
  have hskip := (List.dropWhile_sublist (l := text) isSkipped).length_le
  split at h
  · cases h
  · rename_i c tail hdrop
    split at h
    · rename_i found hscan
      cases h
      have := length_of_scan? hscan
      rw [← hdrop] at this
      omega
    · cases h

end TagToken

end DesignCompiler.Markup
