import DesignCompiler.Stylesheet.Comment
import DesignCompiler.Stylesheet.Rule
import DesignCompiler.Stylesheet.Segment
import DesignCompiler.Text.Class

/-!
# Flattening

Nested stylesheet text becomes flat rules. Each line is freed of comments and cut into segments,
and the segments drive a machine that holds the open blocks and a declaration whose value has not
ended yet. The rules of a block are emitted when it closes, so inner rules come first. Nothing
fails: what is not understood is skipped, and blocks open at the end are closed.
-/

namespace DesignCompiler.Stylesheet

open Text

/-- An open block: its resolved selectors and its own declarations so far. -/
structure Block where
  selectors : List String
  declarations : List Declaration

/-- A declaration whose value has not reached its `;`. -/
structure Unfinished where
  property : List Char
  value : List Char

/-- The state between segments. `blocks` holds the open blocks, the innermost first. -/
structure Flattener where
  blocks : List Block := []
  unfinished : Option Unfinished := none
  rules : List FlatRule := []

/-- The rules of a block: its declarations once for each selector that is not empty. -/
def Block.rules (block : Block) : List FlatRule :=
  if block.declarations.isEmpty then []
  else (block.selectors.filter (· ≠ "")).map fun selector => ⟨selector, block.declarations⟩

namespace Flattener

/-- Add a declaration to the innermost block. Outside all blocks it has no effect. -/
def declare (state : Flattener) (declaration : Declaration) : Flattener :=
  match state.blocks with
  | [] => state
  | block :: outer =>
    { state with
      blocks := { block with declarations := block.declarations ++ [declaration] } :: outer }

/-- Open a block inside the innermost one. -/
def openBlock (state : Flattener) (selector : List Char) : Flattener :=
  let parents := match state.blocks with
    | [] => [""]
    | block :: _ => block.selectors
  { state with blocks := ⟨combineSelectors parents (String.ofList selector), []⟩ :: state.blocks }

/-- Close the innermost block and emit its rules. -/
def closeBlock (state : Flattener) : Flattener :=
  match state.blocks with
  | [] => { state with unfinished := none }
  | block :: outer => ⟨outer, none, state.rules ++ block.rules⟩

/-- Whether a text can be the name of a property. -/
def isPropertyName (text : List Char) : Bool :=
  text.head?.any (fun c => isAsciiLetter c || c == '_' || c == '-') &&
    text.all fun c => isAsciiAlphanumeric c || c == '_' || c == '-'

/-- Take in the value of a declaration, or the beginning of one. -/
def value (state : Flattener) (property text : List Char) : Flattener :=
  match terminated? text with
  | some complete =>
    { state with unfinished := none }.declare (Declaration.ofText property complete)
  | none => { state with unfinished := some ⟨property, text⟩ }

/-- Take in a segment that is not blank. A closing brace ends an unfinished value too, because the
    last declaration of a block may lack its `;`; any other segment continues it. -/
def feed (state : Flattener) (segment : List Char) : Flattener :=
  match state.unfinished with
  | some ⟨property, text⟩ =>
    if segment == ['}'] then (state.declare (Declaration.ofText property text)).closeBlock
    else state.value property (trim (text ++ ' ' :: segment))
  | none =>
    match dropEnd? ['{'] segment with
    | some selector => state.openBlock (trim selector)
    | none =>
      if segment == ['}'] then state.closeBlock
      else match cutAt? (· == ':') segment with
        | none => state
        | some (before, after) =>
          let property := trim before
          if isPropertyName property then state.value property (trim after) else state

/-- Close all open blocks, the innermost first. -/
def finish (state : Flattener) : List FlatRule := state.rules ++ state.blocks.flatMap Block.rules

/-- Take in the segments of one line. -/
def feedLine (state : Flattener) (line : List Char) : Flattener :=
  (((segments line).map trim).filter (!·.isEmpty)).foldl feed state

end Flattener

/-- The text with each pair of a carriage return and a line feed replaced by a line feed. -/
def unixLines : List Char → List Char
  | '\r' :: '\n' :: rest => '\n' :: unixLines rest
  | c :: rest => c :: unixLines rest
  | [] => []

/-- The lines of a stylesheet that are left when comments are removed, in order. -/
def codeLines (inComment : Bool) : List (List Char) → List (List Char)
  | [] => []
  | line :: rest =>
    let (code, inComment) := stripComments inComment line
    code.toList ++ codeLines inComment rest

/-- The flat rules of a nested stylesheet, in the order in which their blocks close. -/
def flatten (source : String) : List FlatRule :=
  let lines := codeLines false (splitOn (· == '\n') (unixLines source.toList))
  (lines.foldl Flattener.feedLine {}).finish

end DesignCompiler.Stylesheet
