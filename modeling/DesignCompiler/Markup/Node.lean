import DesignCompiler.Dictionary
import DesignCompiler.Text.Blank

/-!
# Markup trees

A node is an element with attributes and children, or a run of text. Attributes hold static strings
only.
-/

namespace DesignCompiler.Markup

open Text

/-- What an element says about itself: its tag and its attributes. -/
structure Element where
  tag : String
  attributes : Dictionary String String

/-- A node of the markup tree. -/
inductive Node where
  | element (head : Element) (children : List Node)
  | text (content : String)
  deriving Inhabited

/-- Whether a string holds nothing but white space. -/
def isBlankText (text : String) : Bool := allBlank text.toList

namespace Element

/-- The value of an attribute. -/
def attribute? (e : Element) (name : String) : Option String := e.attributes.get? name

/-- The class attribute: `className`, or `class` where that is missing. A blank one counts as
    none. -/
def classAttribute? (e : Element) : Option String :=
  (e.attribute? "className" <|> e.attribute? "class").filter (!isBlankText ·)

/-- The words of the class attribute. -/
def classTokens (e : Element) : List String :=
  match e.classAttribute? with
  | some value => (words value.toList).map String.ofList
  | none => []

end Element

namespace Node

/-- The element that the node is. -/
def head? : Node → Option Element
  | .element head _ => some head
  | .text _ => none

/-- The text that the node is. -/
def text? : Node → Option String
  | .element _ _ => none
  | .text content => some content

/-- The children of an element; a text has none. -/
def children : Node → List Node
  | .element _ children => children
  | .text _ => []

/-- Whether the node is an element. -/
def isElement (node : Node) : Bool := node.head?.isSome

/-- Whether the node is an element with this tag. -/
def hasTag (node : Node) (tag : String) : Bool := node.head?.any (·.tag == tag)

/-- The children that are elements. -/
def elementChildren (node : Node) : List Node := node.children.filter isElement

/-- Whether a child is a text that is not blank. -/
def hasDirectText (node : Node) : Bool :=
  node.children.any fun child => child.text?.any (!isBlankText ·)

mutual

/-- The node and all nodes below it, each before its children. -/
def subtrees : Node → List Node
  | .element head children => .element head children :: subtreesOfList children
  | .text content => [.text content]

/-- The nodes of a list of trees, tree by tree. -/
def subtreesOfList : List Node → List Node
  | [] => []
  | node :: rest => subtrees node ++ subtreesOfList rest

end

/-- The collapsed texts among some nodes that are not empty. -/
def collapsedTexts (contents : List String) : List String :=
  (contents.map fun content => String.ofList (collapse content.toList)).filter (· ≠ "")

/-- The texts at and below the node in document order, collapsed and without empty ones. -/
def texts (node : Node) : List String := collapsedTexts (node.subtrees.filterMap text?)

/-- The first occurrences in a list. -/
def firstOccurrences (texts : List String) : List String :=
  (texts.foldl (fun seen text => if seen.contains text then seen else text :: seen) []).reverse

/-- The texts at and below the node without repetitions. -/
def uniqueTexts (node : Node) : List String := firstOccurrences node.texts

end Node

end DesignCompiler.Markup
