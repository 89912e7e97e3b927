import DesignCompiler.Markup.Node
import DesignCompiler.Text.Class
import DesignCompiler.Text.Lowercase
import DesignCompiler.Text.Search

/-!
# Recognising form controls

Exported designs draw form controls as plain boxes. Tags, classes and the structure of the children
tell which kinds of control a node may be; the kinds are tried in a fixed order.
-/

namespace DesignCompiler.Control

open Text Markup

/-- The kinds of form controls, in the order in which they are tried. -/
inductive Kind where
  | checkbox
  | radioGroup
  | button
  | input
  deriving DecidableEq

/-- All kinds, in the order in which they are tried. -/
def Kind.all : List Kind := [.checkbox, .radioGroup, .button, .input]

/-- Whether one of some words occurs in the text. -/
def mentions (names : List String) (text : List Char) : Bool :=
  names.any fun name => occursIn name.toList text

/-- The word at this place, if it stands at the start of the text or after a hyphen or an underscore
    and the text after it fulfils `ends`. -/
def wordAt? (word : String) (ends : List Char → Bool) (previous : Option Char) (text : List Char) :
    Option (Unit × Nat) :=
  let starts := previous.all fun c => c == '-' || c == '_'
  match dropStart? word.toList text with
  | some rest => if starts && ends rest then some ((), word.length) else none
  | none => none

/-- Whether a part of a class name ends here: at the end, or before a hyphen or an underscore. -/
def partEnds (rest : List Char) : Bool := rest.head?.all fun c => c == '-' || c == '_'

/-- A class of text inputs. -/
def isInputClass (token : List Char) : Bool :=
  mentions ["textfield", "input", "textarea", "formfield", "form_field"] token

/-- A class of buttons. -/
def isButtonClass (token : List Char) : Bool :=
  let ends (rest : List Char) : Bool := partEnds rest || rest.head?.any isAsciiDigit
  occursIn "nextbutton".toList token || (firstMatch? (wordAt? "button" ends) token).isSome ||
    endsWith "btn".toList token || occursIn "btn_".toList token

/-- A class of checkboxes. -/
def isCheckboxClass (token : List Char) : Bool := mentions ["checkbox", "check_box"] token

/-- A class of checkboxes that are not checked. -/
def isUncheckedClass (token : List Char) : Bool := mentions ["checkbox2", "uncheck"] token

/-- A class of radio options. -/
def isRadioClass (token : List Char) : Bool :=
  let ends (rest : List Char) : Bool := partEnds (rest.dropWhile isDigit)
  (firstMatch? (wordAt? "radio" ends) token).isSome ||
    mentions ["radiobutton", "radio_button", "radio-option", "radiooption"] token

/-- A class of the selected radio option. -/
def isSelectedRadioClass (token : List Char) : Bool :=
  token == "radio2".toList || token == "radio3".toList ||
    (occursIn "checked".toList token && !occursIn "unchecked".toList token)

/-- Tags of elements that are not containers. -/
def nonContainerTags : List String := ["img", "span", "p", "button", "input", "textarea", "br"]

/-- Whether an element is a container. -/
def isContainer (element : Element) : Bool := !nonContainerTags.contains element.tag

/-- Whether a class of the element, in lower case, fulfils a predicate. -/
def hasClass (element : Element) (isKind : List Char → Bool) : Bool :=
  element.classTokens.any fun token => isKind (lower token.toList)

/-- The first class of a radio option at or below the node, as written. -/
def radioClass? (node : Node) : Option String :=
  (node.subtrees.filterMap Node.head?).findSome? fun element =>
    element.classTokens.find? fun token => isRadioClass (lower token.toList)

/-- Whether a node may be a control of a kind. A checkbox has two or three children, one with a
    checkbox class; a radio group has at least two, all with a radio class at or below them. -/
def mayBe (element : Element) (children : List Node) : Kind → Bool
  | .checkbox =>
    let elements := children.filterMap Node.head?
    isContainer element && 2 ≤ elements.length && elements.length ≤ 3 &&
      elements.any (hasClass · isCheckboxClass)
  | .radioGroup =>
    let elements := children.filter Node.isElement
    isContainer element && 2 ≤ elements.length &&
      elements.all fun child => (radioClass? child).isSome
  | .button => element.tag == "button" || (isContainer element && hasClass element isButtonClass)
  | .input =>
    element.tag == "input" || element.tag == "textarea" ||
      (isContainer element && hasClass element isInputClass)

/-- The kinds that a node may be, in the order in which they are tried. -/
def candidates (element : Element) (children : List Node) : List Kind :=
  Kind.all.filter (mayBe element children)

end DesignCompiler.Control
