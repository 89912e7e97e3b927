import DesignCompiler.Dart.Expr
import DesignCompiler.Decimal.Shortest

/-!
# Dart source text

An expression stays on one line when it ends within eighty columns. Otherwise each argument of a
call and each element of a list takes a line of its own, indented by two and ended by a comma.
Columns count characters, but the name of an argument counts the bytes of its UTF-8 form.
-/

namespace DesignCompiler.Dart

/-- The width that lines are kept to. -/
def lineWidth : Nat := 80

/-- A number in source text. Minus zero is written as zero. -/
def numberText (x : Float) : String := if x == 0.0 then "0" else Decimal.text x

/-- The escaped form of a character in a single-quoted literal. -/
def escapeChar : Char → List Char
  | '\\' => ['\\', '\\']
  | '$' => ['\\', '$']
  | '\'' => ['\\', '\'']
  | '\n' => ['\\', 'n']
  | '\r' => ['\\', 'r']
  | '\t' => ['\\', 't']
  | c => [c]

/-- A text as a single-quoted string literal. -/
def stringLiteral (text : String) : String :=
  String.ofList ('\'' :: text.toList.flatMap escapeChar ++ ['\''])

/-- Texts joined by a separator. -/
def joined (separator : String) (texts : List String) : String := separator.intercalate texts

namespace Expr

mutual

/-- The expression on one line. -/
def flat : Expr → String
  | .call callee args arguments =>
    callee ++ "(" ++ joined ", " (flatList args ++ flatNamed arguments) ++ ")"
  | .list items => "[" ++ joined ", " (flatList items) ++ "]"
  | .str text => stringLiteral text
  | .num value => numberText value
  | .bool value => if value then "true" else "false"
  | .ident path => path
  | .extent (.fixed width) => numberText width
  | .extent .available => "Get.width"

/-- Each expression of a list on one line. -/
def flatList : List Expr → List String
  | [] => []
  | e :: rest => flat e :: flatList rest

/-- Each named argument on one line. -/
def flatNamed : List (String × Expr) → List String
  | [] => []
  | (name, e) :: rest => (name ++ ": " ++ flat e) :: flatNamed rest

end

/-- Whether the expression has parts that can go on lines of their own. -/
def isBreakable : Expr → Bool
  | .call _ args arguments => !(args.isEmpty && arguments.isEmpty)
  | .list items => !items.isEmpty
  | _ => false

/-- So many spaces. -/
def spaces (n : Nat) : String := String.ofList (List.replicate n ' ')

/-- Whether the expression stays on the line that already holds `column` characters. -/
def staysFlat (e : Expr) (column : Nat) : Bool :=
  column + e.flat.length ≤ lineWidth || !e.isBreakable

mutual

/-- The expression on a line indented by `indent` that already holds `column` characters. -/
def render (indent column : Nat) : Expr → String
  | .call callee args arguments =>
    if (Expr.call callee args arguments).staysFlat column then
      (Expr.call callee args arguments).flat
    else
      callee ++ "(\n" ++ renderList (indent + 2) args ++ renderNamed (indent + 2) arguments ++
        spaces indent ++ ")"
  | .list items =>
    if (Expr.list items).staysFlat column then (Expr.list items).flat
    else "[\n" ++ renderList (indent + 2) items ++ spaces indent ++ "]"
  | e => e.flat

/-- Each expression of a list on lines of its own. -/
def renderList (indent : Nat) : List Expr → String
  | [] => ""
  | e :: rest => spaces indent ++ render indent indent e ++ ",\n" ++ renderList indent rest

/-- Each named argument on lines of its own. -/
def renderNamed (indent : Nat) : List (String × Expr) → String
  | [] => ""
  | (name, e) :: rest =>
    spaces indent ++ name ++ ": " ++ render indent (indent + name.utf8ByteSize + 2) e ++ ",\n" ++
      renderNamed indent rest

end

end Expr

end DesignCompiler.Dart
