import DesignCompiler.Text.Blank
import DesignCompiler.Text.Search

/-!
# Quotes and comments

What the stylesheet scanners keep in mind while they walk along a line: the quote they are in and,
outside quotes, the number of open parentheses.

Comments are removed line by line. A block comment may run over several lines and is recognised
inside quotes too. A line comment starts at `//` outside quotes, unless a colon stands right before
it as in the scheme of an address.
-/

namespace DesignCompiler.Stylesheet

open Text

/-- Where a scanner stands with respect to quotes. -/
inductive Quote where
  | outside
  | single
  | double
  deriving DecidableEq

/-- The state after a character. A quote of the other kind is plain text inside quotes. -/
def Quote.after (quote : Quote) (c : Char) : Quote :=
  match quote with
  | .outside => if c == '\'' then .single else if c == '"' then .double else .outside
  | .single => if c == '\'' then .outside else .single
  | .double => if c == '"' then .outside else .double

/-- The number of open parentheses after a character outside quotes. A parenthesis that closes
    nothing does not count. -/
def parenthesesAfter (depth : Nat) (c : Char) : Nat :=
  if c == '(' then depth + 1 else if c == ')' then depth - 1 else depth

/-- The marks around a block comment. -/
def commentStart : List Char := ['/', '*']

@[inherit_doc commentStart]
def commentEnd : List Char := ['*', '/']

/-- The line without the block comments on it, and whether it leaves one open. Removing a comment
    may bring together the marks of another, so the search starts anew each time. -/
def withoutBlockComments (line : List Char) : List Char × Bool :=
  match _hstart : cut? commentStart line with
  | none => (line, false)
  | some (before, inside) =>
    match _hend : cut? commentEnd inside with
    | none => (before, true)
    | some (_, after) => withoutBlockComments (before ++ after)
termination_by line.length
decreasing_by
  rw [eq_append_of_cut? _hstart, eq_append_of_cut? _hend]
  simp only [commentStart, commentEnd, List.length_append, List.length_cons]
  omega

/-- The rest of a line up to a line comment, given the quote it stands in and whether a colon stands
    right before it. -/
def beforeLineComment (quote : Quote) (afterColon : Bool) : List Char → List Char
  | [] => []
  | c :: rest =>
    if quote = .outside && !afterColon && c == '/' && rest.head? == some '/' then []
    else c :: beforeLineComment (quote.after c) (c == ':') rest

/-- What is left of a line when its comments are removed, if it is not blank, and whether a block
    comment is open at its end; `inComment` says whether one is open at its start. -/
def stripComments (inComment : Bool) (line : List Char) : Option (List Char) × Bool :=
  match if inComment then (cut? commentEnd line).map Prod.snd else some line with
  | none => (none, true)
  | some visible =>
    let (kept, leavesOpen) := withoutBlockComments visible
    let code := trim (beforeLineComment .outside false kept)
    (if code.isEmpty then none else some code, leavesOpen)

end DesignCompiler.Stylesheet
