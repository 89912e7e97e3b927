import DesignCompiler.Markup.Document
import Mathlib.Data.List.Chain

/-!
# Printed markup

Markup as a tree in which fragments may stand around any run of children, the nodes that are left
when the fragments dissolve, and the printed forms of the tree.
-/

namespace DesignCompiler.Markup

open Text

/-- Markup before it is read. Names, values and texts are lists of characters. -/
inductive Source where
  | element (tag : List Char) (attributes : List (List Char × List Char)) (children : List Source)
  | text (content : List Char)
  | fragment (children : List Source)

namespace Source

/-- The attributes of an element, in order. -/
def dictionaryOf (attributes : List (List Char × List Char)) : Dictionary String String :=
  ⟨attributes.map fun entry => (String.ofList entry.1, String.ofList entry.2)⟩

mutual

/-- The nodes that a piece of markup amounts to. A fragment dissolves into its children. -/
def nodes : Source → List Node
  | .element tag attributes children =>
    [.element ⟨String.ofList tag, dictionaryOf attributes⟩ (nodesOf children)]
  | .text content => [.text (String.ofList content)]
  | .fragment children => nodesOf children

/-- The nodes that markup amounts to, one piece after another. -/
def nodesOf : List Source → List Node
  | [] => []
  | piece :: rest => piece.nodes ++ nodesOf rest

end

/-- Whether a piece of markup is text. -/
def isText : Source → Bool
  | .text _ => true
  | _ => false

/-- No two texts stand side by side. -/
def TextsApart (pieces : List Source) : Prop :=
  pieces.IsChain fun piece next => ¬ (piece.isText = true ∧ next.isText = true)

/-- A name of a tag or an attribute. -/
def isName (name : List Char) : Bool :=
  name.head?.any TagToken.startsName && name.all TagToken.isNameChar

/-- Markup that keeps its shape in print: names are names, those of tags in lower case, and texts
    are neither blank nor broken into lines. -/
inductive WellFormed : Source → Prop where
  | element {tag : List Char} {attributes : List (List Char × List Char)}
      {children : List Source} :
      isName tag = true → lowerAscii tag = tag → '.' ∉ tag →
      (∀ entry ∈ attributes, isName entry.1 = true) →
      (attributes.map Prod.fst).Nodup →
      TextsApart children → (∀ child ∈ children, child.WellFormed) →
      WellFormed (.element tag attributes children)
  | text {content : List Char} :
      allBlank content = false → '\n' ∉ content → WellFormed (.text content)
  | fragment {children : List Source} :
      TextsApart children → (∀ child ∈ children, child.WellFormed) → WellFormed (.fragment children)

end Source

/-! ## Spelling -/

/-- The named entities. -/
def namedEntities : List (List Char × Char) :=
  [(['a', 'm', 'p'], '&'), (['l', 't'], '<'), (['g', 't'], '>'), (['q', 'u', 'o', 't'], '"'),
    (['a', 'p', 'o', 's'], '\''), (['n', 'b', 's', 'p'], Char.ofNat 0xA0)]

/-- What stands between `&` and `;` for a character: its name, or its code point in decimal or
    hexadecimal digits. -/
inductive EntityBody (c : Char) : List Char → Prop where
  | named {name : List Char} : (name, c) ∈ namedEntities → EntityBody c name
  | decimal {digits : List Char} :
      digits ≠ [] → digits.length ≤ 8 → (∀ d ∈ digits, isAsciiDigit d = true) →
      natInBase 10 digits = c.toNat → EntityBody c ('#' :: digits)
  | hexadecimal {x : Char} {digits : List Char} :
      x ∈ ['x', 'X'] → digits ≠ [] → digits.length ≤ 7 → (∀ d ∈ digits, isHexDigit d = true) →
      natInBase 16 digits = c.toNat → EntityBody c ('#' :: x :: digits)

/-- A text spelled character by character, each as it is or as an entity, those in `escaped` as
    entities. -/
inductive Spelled (escaped : List Char) : List Char → List Char → Prop where
  | nil : Spelled escaped [] []
  | plain {c : Char} {content raw : List Char} :
      c ∉ escaped → Spelled escaped content raw → Spelled escaped (c :: content) (c :: raw)
  | entity {c : Char} {body content raw : List Char} :
      EntityBody c body → Spelled escaped content raw →
      Spelled escaped (c :: content) ('&' :: body ++ ';' :: raw)

/-- The characters that are entities in a text. -/
def escapedInText : List Char := ['&', '<', '\x7b']

/-- The characters that are entities in the value of an attribute. -/
def escapedInValue : List Char := ['&', '"']

/-! ## Printed forms -/

/-- Blanks between the tokens of a tag. -/
def IsGap (gap : List Char) : Prop := ∀ c ∈ gap, TagToken.isSkipped c = true

theorem isGap_nil : IsGap [] := by simp [IsGap]

/-- The printed forms of attributes, through the blanks before the end of their tag. -/
inductive PrintsAttributes : List (List Char × List Char) → List Char → Prop where
  | nil {gap : List Char} : IsGap gap → PrintsAttributes [] gap
  | cons {gap name value raw text : List Char} {rest : List (List Char × List Char)} :
      IsGap gap → gap ≠ [] → Spelled escapedInValue value raw → PrintsAttributes rest text →
      PrintsAttributes ((name, value) :: rest)
        (gap ++ name ++ '=' :: '"' :: raw ++ '"' :: text)

/-- The printed forms of markup. An element without children may be closed in its opening tag. -/
inductive Prints : List Source → List Char → Prop where
  | nil : Prints [] []
  | text {content raw text : List Char} {rest : List Source} :
      Spelled escapedInText content raw → Prints rest text →
      Prints (.text content :: rest) (raw ++ text)
  | fragment {children rest : List Source} {inner text : List Char} :
      Prints children inner → Prints rest text →
      Prints (.fragment children :: rest) ('<' :: '>' :: inner ++ '<' :: '/' :: '>' :: text)
  | closed {tag attributesText text : List Char} {attributes : List (List Char × List Char)}
      {rest : List Source} :
      PrintsAttributes attributes attributesText → Prints rest text →
      Prints (.element tag attributes [] :: rest)
        ('<' :: tag ++ attributesText ++ '/' :: '>' :: text)
  | element {tag attributesText inner text : List Char}
      {attributes : List (List Char × List Char)} {children rest : List Source} :
      PrintsAttributes attributes attributesText → Prints children inner → Prints rest text →
      Prints (.element tag attributes children :: rest)
        ('<' :: tag ++ attributesText ++ '>' :: inner ++ '<' :: '/' :: tag ++ '>' :: text)

end DesignCompiler.Markup
