import DesignCompiler.Dictionary
import DesignCompiler.Text.Blank
import DesignCompiler.Text.Search

/-!
# Flat rules

A flat rule gives one resolved selector its declarations in source order. Values are raw text. A
nested block applies to every pair of a selector of the enclosing block and one of its own.
-/

namespace DesignCompiler

/-- The raw values of properties. -/
abbrev PropertyMap := Dictionary String String

namespace Stylesheet

open Text

/-- A property and its raw value. -/
structure Declaration where
  property : String
  value : String
  deriving DecidableEq

/-- A value without the `;` that ends it, if there is one. -/
def dropTerminator (value : List Char) : List Char := (dropEnd? [';'] value).getD value

/-- The declaration of a property, its value trimmed and freed of one final `;`. -/
def Declaration.ofText (property value : List Char) : Declaration :=
  ⟨String.ofList property, String.ofList (trimEnd (dropTerminator (trim value)))⟩

/-- A rule without nesting. -/
structure FlatRule where
  selector : String
  declarations : List Declaration
  deriving DecidableEq

/-- The selectors of a list separated by commas, trimmed, blank ones left out. -/
def selectorList (text : List Char) : List (List Char) :=
  ((splitOn (· == ',') text).map trim).filter (!·.isEmpty)

/-- A selector inside a block with selector `parent`: `&` stands for the parent, and a selector
    without it is a descendant of the parent. Outside all blocks the parent is empty. -/
def resolveSelector (parent child : List Char) : List Char :=
  if parent.isEmpty then child
  else if child.contains '&' then replaceChar '&' parent child
  else parent ++ ' ' :: child

/-- The selectors of a nested block, parent by parent. A block without a selector of its own has
    those of its parents. -/
def combineSelectors (parents : List String) (current : String) : List String :=
  let own := selectorList current.toList
  if own.isEmpty then parents
  else parents.flatMap fun parent =>
    own.map fun child => String.ofList (resolveSelector parent.toList child)

end Stylesheet

end DesignCompiler
