import DesignCompiler.Control.Recognition
import DesignCompiler.Control.Date
import DesignCompiler.Dart.Query
import DesignCompiler.Stylesheet.Table
import DesignCompiler.Style.Border

/-!
# Building form controls

The widget of each kind of control, built from the texts, attributes and classes of a node. A kind
yields nothing when the node lacks what it needs, which is a label for most.
-/

namespace DesignCompiler.Control

open Text Markup Dart Style

/-- A control in place of a node. A leaf gets no box around it. -/
structure Semantic where
  widget : Expr
  leaf : Bool

/-- Whether a text looks like a placeholder or a value: a number, a date format, or a long text. -/
def isHintLike (text : List Char) : Bool :=
  let raw := trim text
  let isNumeric := match raw with
    | [] => false
    | c :: rest =>
      isDigit c && rest.all fun d => isDigit d || isBlank d || ['.', '/', ':', '-'].contains d
  let lowered := lowerAscii (raw.take 2)
  !raw.isEmpty &&
    (isNumeric || ["yy", "mm", "dd"].any (fun format => format.toList == lowered) ||
      mentions ["YYYY", "MM", "DD"] raw || 24 ≤ raw.length)

/-- The label and the hint among the texts of an input: the first text that is not hint-like, or
    the first of all; and the first other text. -/
def labelAndHint (texts : List String) : Option String × Option String :=
  let label := texts.find? (fun text => !isHintLike text.toList) <|> texts.head?
  (label, texts.find? fun text => some text != label)

/-- The text of the option that a radio input is without label, value and class. -/
def defaultRadioLabel : String := "Option"

/-- The label of a text area that carries no text. -/
def defaultTextareaLabel : String := "内容"

/-- An attribute that is not empty. -/
def filledAttribute? (element : Element) (name : String) : Option String :=
  (element.attribute? name).filter (· ≠ "")

/-- The border color of a class. -/
def classBorderColor? (vocabulary : Vocabulary) (styles : StyleTable) (className : String) :
    Option Color :=
  (styles.get? className).bind (borderColor? vocabulary)

/-- The checkbox of a node: its first text as the title, and the state and the border color of the
    child with a checkbox class. -/
def checkbox? (vocabulary : Vocabulary) (styles : StyleTable) (node : Node) : Option Semantic := do
  let box ← (node.children.filterMap Node.head?).find? (hasClass · isCheckboxClass)
  let title ← node.uniqueTexts.head?
  let color := (box.classAttribute?.bind styles.selectClass?).bind
    (classBorderColor? vocabulary styles)
  return {
    widget := .named "_GeneratedCheckbox" ([
      ("title", .str title),
      ("initialChecked", .bool (!hasClass box isUncheckedClass))] ++
      Expr.optional "borderColor" (color.map Color.toExpr))
    leaf := false }

/-- One option of a radio group. -/
structure RadioOption where
  label : String
  selected : Bool
  borderColor : Option Color

/-- The option that a child of a radio group is. -/
def radioOption? (vocabulary : Vocabulary) (styles : StyleTable) (node : Node) :
    Option RadioOption := do
  let className ← radioClass? node
  let label ← node.uniqueTexts.head?
  return ⟨label, isSelectedRadioClass (lower className.toList),
    classBorderColor? vocabulary styles className⟩

/-- The expression of an option. -/
def radioOptionExpr (label : String) : Expr :=
  .named "AppRadioOption" [("value", .str label), ("label", .str label)]

/-- The radio group of a node, whose element children are its options. The first option is selected
    if none is marked so. -/
def radioGroup? (vocabulary : Vocabulary) (styles : StyleTable) (node : Node) :
    Option Semantic := do
  let options ← node.elementChildren.mapM (radioOption? vocabulary styles)
  guard (2 ≤ options.length)
  let selected ← options.find? (·.selected) <|> options.head?
  let inactive := options.find? fun option => !option.selected && option.borderColor.isSome
  return {
    widget := .named "_GeneratedRadioGroup" ([
      ("initialValue", .str selected.label),
      ("options", .list (options.map fun option => radioOptionExpr option.label))] ++
      Expr.optional "activeColor" (selected.borderColor.map Color.toExpr) ++
      Expr.optional "inactiveColor" ((inactive.bind RadioOption.borderColor).map Color.toExpr))
    leaf := false }

/-- A button with a title on a transparent background. -/
def rippleButton (title : String) : Expr :=
  .named "RippleButton" [
    ("title", .str title),
    ("backgroundColor", .ident "Colors.transparent"),
    ("minWidth", .num 0.0),
    ("padding", .ident "EdgeInsets.zero"),
    ("onTap", .ident "() \x7b\x7d")]

/-- The title that a child gives to a button: a text that is not blank, or the first text of an
    element, empty if it has none. -/
def buttonTitle? : Node → Option String
  | .text content =>
    let title := trim content.toList
    if title.isEmpty then none else some (String.ofList title)
  | node => some (node.texts.head?.getD "")

/-- The button of a node. A `button` element always is one; another node needs a text. -/
def button? (node : Node) : Option Semantic :=
  if node.hasTag "button" then
    let title := (node.children.findSome? buttonTitle?).filter (· ≠ "")
    some ⟨rippleButton (title.getD "Button"), true⟩
  else node.uniqueTexts.head?.map fun title => ⟨rippleButton title, false⟩

/-- The radio group of a single option that a radio input is. -/
def singleRadio (element : Element) : Expr :=
  let label := (filledAttribute? element "label" <|> filledAttribute? element "value" <|>
    element.classAttribute?).getD defaultRadioLabel
  .named "_GeneratedRadioGroup" [
    ("initialValue", .str label),
    ("options", .list [radioOptionExpr label])]

/-- The text input or the date picker that an element is, given the texts in it. -/
def textInput (element : Element) (inputType : String) (texts : List String) : Expr :=
  let isTextarea := element.tag == "textarea"
  let (derivedLabel, derivedHint) := labelAndHint texts
  let fallback := if isTextarea then element.classAttribute? <|> some defaultTextareaLabel else none
  let label := filledAttribute? element "label" <|> derivedLabel <|> fallback
  let hint := filledAttribute? element "placeholder" <|> filledAttribute? element "value" <|>
    derivedHint
  let labels :=
    Expr.optional "label" (label.map Expr.str) ++ Expr.optional "hint" (hint.map Expr.str)
  if !isTextarea && looksLikeDateField element.classAttribute? inputType label hint then
    let seed := hint.bind fun hint => DateSeed.ofHint? hint.toList
    .named "_GeneratedDateTimeField"
      (labels ++ Expr.optional "initialDate" (seed.map DateSeed.toExpr))
  else
    .named "AppInput"
      (labels ++ Expr.optional "maxLines" (if isTextarea then some (.num 4.0) else none))

/-- The input that a node is. -/
def input? (node : Node) : Option Semantic :=
  node.head?.map fun element =>
    let inputType := onChars lowerAscii ((filledAttribute? element "type").getD "")
    if inputType == "radio" then ⟨singleRadio element, false⟩
    else ⟨textInput element inputType node.uniqueTexts, false⟩

/-- The control of a kind that a node amounts to. -/
def build? (vocabulary : Vocabulary) (styles : StyleTable) (node : Node) : Kind → Option Semantic
  | .checkbox => checkbox? vocabulary styles node
  | .radioGroup => radioGroup? vocabulary styles node
  | .button => button? node
  | .input => input? node

/-- The control that a node is: the first candidate that can be built. -/
def semantic? (vocabulary : Vocabulary) (styles : StyleTable) (element : Element)
    (children : List Node) : Option Semantic :=
  (candidates element children).findSome?
    (build? vocabulary styles (.element element children))

/-- Whether a widget paints a background of its own, as input fields do. -/
def ownsInputBackground (widget : Expr) : Bool :=
  widget.isCallOf "AppInput" || widget.isCallOf "_GeneratedDateTimeField"

end DesignCompiler.Control
