import DesignCompiler.Markup.Event

/-!
# Documents

A source is searched for its first markup, which is read event by event with a stack of open
elements and fragments. A fragment dissolves into the children of what encloses it. The root of a
document is its first element; a fragment around the whole may leave further nodes beside it.
-/

namespace DesignCompiler.Markup

open Text

/-- What markup amounts to: the trees at its top level and, among them, the root. -/
structure Document where
  forest : List Node
  root : Node

/-- An element or fragment that has not been closed, where it was opened, and its children so
    far. -/
structure OpenNode where
  tag : Option OpeningTag
  place : List Char
  children : List Node

/-- The name by which an open element has to be closed; empty for a fragment. -/
def OpenNode.name (node : OpenNode) : List Char := (node.tag.map OpeningTag.name).getD []

/-- The nodes that an open node turns into when it is closed. -/
def OpenNode.close (node : OpenNode) : List Node :=
  match node.tag with
  | some tag => [.element tag.head node.children]
  | none => node.children

/-- What reading has come to: nodes still open, the innermost first, or a complete top level. -/
inductive Progress where
  | within (node : OpenNode) (outer : List OpenNode)
  | complete (forest : List Node)

/-- Nodes are added to the innermost open node; without one they are the top level. -/
def Progress.add (nodes : List Node) : List OpenNode → Progress
  | [] => .complete nodes
  | node :: outer => .within { node with children := node.children ++ nodes } outer

/-- What an event at `place` does to the open nodes. -/
def Progress.step (place : List Char) (opened : List OpenNode) :
    Event → Except (Fault (List Char)) Progress
  | .opening tag => .ok (.within ⟨tag, place, []⟩ opened)
  | .empty head => .ok (.add [.element head []] opened)
  | .text content => .ok (.add [.text (String.ofList content)] opened)
  | .nothing => .ok (.add [] opened)
  | .closing name =>
    match opened with
    | [] => .error (.unexpected place)
    | node :: outer =>
      if name = node.tag.map OpeningTag.name then .ok (.add node.close outer)
      else
        .error (.mismatched (String.ofList node.name) (String.ofList (name.getD [])) place)

/-- The top level that the text completes, given the open nodes. -/
def readForest (opened : List OpenNode) (text : List Char) :
    Except (Fault (List Char)) (List Node) :=
  match text with
  | [] =>
    match opened with
    | [] => .error .noElement
    | node :: _ => .error (.unclosed (String.ofList node.name) node.place)
  | c :: rest =>
    match _hevent : nextEvent c rest with
    | .error fault => .error fault
    | .ok (event, after) =>
      match Progress.step (c :: rest) opened event with
      | .error fault => .error fault
      | .ok (.complete forest) => .ok forest
      | .ok (.within node outer) => readForest (node :: outer) after
termination_by text.length
decreasing_by exact Nat.lt_succ_of_le (length_of_nextEvent _hevent)

/-- The document of a forest, whose root is its first element. -/
def Document.ofForest (forest : List Node) : Except (Fault (List Char)) Document :=
  match forest.find? Node.isElement with
  | some root => .ok ⟨forest, root⟩
  | none => .error .noElement

/-- The number of bytes that a text takes up. -/
def byteLength (text : List Char) : Nat := (String.ofList text).utf8ByteSize

/-- Read the document of a source. The place of a fault is the text that remains there. -/
def readDocument (source : List Char) : Except (Fault (List Char)) Document :=
  match markupStart? source with
  | none => .error .noElement
  | some text =>
    match readForest [] text with
    | .error fault => .error fault
    | .ok forest => Document.ofForest forest

/-- The document in a source text. -/
def parse (source : String) : Except Error Document :=
  let chars := source.toList
  (readDocument chars).mapError
    (Fault.map fun remaining => byteLength chars - byteLength remaining)

end DesignCompiler.Markup
