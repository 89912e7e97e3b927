import DesignCompiler.Markup.Document

/-!
# The node table

A node table keeps nodes under the numbers of their insertion, with links to parents and children,
and lets them be moved about. A number that is out of range stands for no node.
-/

namespace DesignCompiler.Markup

/-- What a node holds apart from its place in the tree. -/
inductive NodeData where
  | element (head : Element)
  | text (content : String)

/-- The data of a node, its parent, and its children in order. -/
structure NodeEntry where
  data : NodeData
  parent : Option Nat
  children : List Nat

/-- Nodes by number, and the number that was made the root, which need not be that of a node. -/
structure Dom where
  entries : Array NodeEntry
  rootNumber : Option Nat

namespace NodeData

/-- The element that the data is. -/
def element? : NodeData → Option Element
  | .element head => some head
  | .text _ => none

/-- The text that the data is. -/
def text? : NodeData → Option String
  | .element _ => none
  | .text content => some content

end NodeData

namespace Dom

/-- The table without nodes. -/
def empty : Dom := ⟨#[], none⟩

/-- The number of nodes. -/
def size (dom : Dom) : Nat := dom.entries.size

/-- Insert a node that has no parent. Its number is the former size. -/
def insert (dom : Dom) (data : NodeData) : Dom :=
  { dom with entries := dom.entries.push ⟨data, none, []⟩ }

/-- Make a node the last child of another, taking it away from its former parent. -/
def append (dom : Dom) (parent child : Nat) : Dom :=
  if parent < dom.size && child < dom.size then
    let detached := match (dom.entries[child]?).bind NodeEntry.parent with
      | some old =>
        dom.entries.modify old fun e => { e with children := e.children.filter (· != child) }
      | none => dom.entries
    let linked := detached.modify child fun e => { e with parent := some parent }
    { dom with
      entries := linked.modify parent fun e => { e with children := e.children ++ [child] } }
  else dom

/-- Insert a node as the last child of another. -/
def insertChild (dom : Dom) (parent : Nat) (data : NodeData) : Dom :=
  (dom.insert data).append parent dom.size

/-- Make a number that of the root. -/
def setRoot (dom : Dom) (node : Nat) : Dom := { dom with rootNumber := some node }

/-- The root, if there is a node of its number. -/
def root (dom : Dom) : Option Nat := dom.rootNumber.filter (· < dom.size)

/-- The data of a node. -/
def data? (dom : Dom) (node : Nat) : Option NodeData := (dom.entries[node]?).map NodeEntry.data

/-- The parent of a node. -/
def parent? (dom : Dom) (node : Nat) : Option Nat := (dom.entries[node]?).bind NodeEntry.parent

/-- The children of a node, in order. -/
def children (dom : Dom) (node : Nat) : List Nat :=
  ((dom.entries[node]?).map NodeEntry.children).getD []

/-- The element at a number. -/
def element? (dom : Dom) (node : Nat) : Option Element := (dom.data? node).bind NodeData.element?

/-- The text at a number. -/
def text? (dom : Dom) (node : Nat) : Option String := (dom.data? node).bind NodeData.text?

/-- The children that are elements. -/
def elementChildren (dom : Dom) (node : Nat) : List Nat :=
  (dom.children node).filter fun child => (dom.element? child).isSome

/-- Whether a child is a text that is not blank. -/
def hasDirectText (dom : Dom) (node : Nat) : Bool :=
  (dom.children node).any fun child => (dom.text? child).any (!isBlankText ·)

/-- The nodes of a walk with a stack of nodes still to be visited, at most `fuel` of them. -/
def walk (dom : Dom) : Nat → List Nat → List Nat
  | 0, _ => []
  | _ + 1, [] => []
  | fuel + 1, node :: stack =>
    match dom.entries[node]? with
    | some entry => node :: dom.walk fuel (entry.children ++ stack)
    | none => dom.walk fuel stack

/-- The node and all nodes below it, each before its children. In a tree no node is visited twice,
    so the walk needs no more steps than there are nodes. -/
def descendants (dom : Dom) (node : Nat) : List Nat := dom.walk dom.size [node]

/-- The texts at and below a node in document order, collapsed and without empty ones. -/
def texts (dom : Dom) (node : Nat) : List String :=
  Node.collapsedTexts ((dom.descendants node).filterMap dom.text?)

/-- The texts at and below a node without repetitions. -/
def uniqueTexts (dom : Dom) (node : Nat) : List String := Node.firstOccurrences (dom.texts node)

/-- Insert data below a parent, or without one. -/
def place (dom : Dom) (parent : Option Nat) (data : NodeData) : Dom :=
  match parent with
  | some parent => dom.insertChild parent data
  | none => dom.insert data

mutual

/-- Insert a tree, each node before its children. -/
def insertTree (dom : Dom) (parent : Option Nat) : Node → Dom
  | .element head children =>
    (dom.place parent (.element head)).insertTrees (some dom.size) children
  | .text content => dom.place parent (.text content)

/-- Insert trees one after another. -/
def insertTrees (dom : Dom) (parent : Option Nat) : List Node → Dom
  | [] => dom
  | node :: rest => (dom.insertTree parent node).insertTrees parent rest

end

/-- The first element that has no parent. -/
def firstTopElement? (dom : Dom) : Option Nat :=
  (List.range dom.size).find? fun node => (dom.element? node).isSome && (dom.parent? node).isNone

/-- The table of a document: all of its nodes, with its root as the root. -/
def ofDocument (document : Document) : Dom :=
  let dom := empty.insertTrees none document.forest
  { dom with rootNumber := dom.firstTopElement? }

/-- The tree below a node, down to `depth` levels. -/
def treeTo (dom : Dom) : Nat → Nat → Option Node
  | 0, _ => none
  | depth + 1, node =>
    match dom.entries[node]? with
    | none => none
    | some ⟨.text content, _, _⟩ => some (.text content)
    | some ⟨.element head, _, children⟩ =>
      some (.element head (children.filterMap (dom.treeTo depth)))

/-- The tree below a node. No branch of a tree is longer than there are nodes. -/
def tree? (dom : Dom) (node : Nat) : Option Node := dom.treeTo dom.size node

end Dom

end DesignCompiler.Markup
