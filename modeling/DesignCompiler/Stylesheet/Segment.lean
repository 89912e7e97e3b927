import DesignCompiler.Stylesheet.Comment
import DesignCompiler.Text.Blank
import DesignCompiler.Text.Search

/-!
# Segments

A line of code is cut into segments: `{`, `}` and `;` each end one, except inside quotes and
parentheses. A `{` right after `#` opens an interpolation and ends nothing, and a `}` is a segment
of its own.
-/

namespace DesignCompiler.Stylesheet

open Text

/-- The segments of the rest of a line, where `current` holds the segment begun, in reverse
    order. -/
def segmentsFrom (quote : Quote) (depth : Nat) (current : List Char) : List Char → List (List Char)
  | [] => if allBlank current then [] else [current.reverse]
  | c :: rest =>
    let quote := quote.after c
    if quote ≠ .outside then segmentsFrom quote depth (c :: current) rest
    else if c == '{' && depth == 0 && !(trimStart current).head? == some '#' then
      (c :: current).reverse :: segmentsFrom quote depth [] rest
    else if c == '}' && depth == 0 then
      if allBlank current then ['}'] :: segmentsFrom quote depth [] rest
      else current.reverse :: ['}'] :: segmentsFrom quote depth [] rest
    else if c == ';' && depth == 0 then
      (c :: current).reverse :: segmentsFrom quote depth [] rest
    else segmentsFrom quote (parenthesesAfter depth c) (c :: current) rest

/-- The segments of a line of code, in order. -/
def segments (line : List Char) : List (List Char) := segmentsFrom .outside 0 [] line

/-- A value through the first `;` outside quotes and parentheses, if there is one. -/
def terminatedFrom (quote : Quote) (depth : Nat) : List Char → Option (List Char)
  | [] => none
  | c :: rest =>
    if quote = .outside then
      if c == ';' && depth == 0 then some [c]
      else (terminatedFrom (quote.after c) (parenthesesAfter depth c) rest).map (c :: ·)
    else (terminatedFrom (quote.after c) depth rest).map (c :: ·)

/-- A value through the `;` that ends it, if it is complete. -/
def terminated? (value : List Char) : Option (List Char) := terminatedFrom .outside 0 value

end DesignCompiler.Stylesheet
