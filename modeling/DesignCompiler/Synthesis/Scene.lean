import DesignCompiler.Asset.Registry
import DesignCompiler.Synthesis.Box
import DesignCompiler.Synthesis.Inline

/-!
# Synthesis

Each element of the markup becomes one widget. A form control is recognised first; then an image, a
run of rich text, or a box around the children is built. The assets that images refer to are
collected on the way.
-/

namespace DesignCompiler.Synthesis

open Dart Style Markup Asset

/-- What synthesis reads: the styles, the options and the files. -/
structure Scene where
  styles : StyleTable
  options : CompileOptions
  files : FileSystem

/-- A step of synthesis, which may add to the assets. -/
abbrev Synth := StateM AssetRegistry

namespace Scene

/-- The properties of the class of an element. -/
def properties (scene : Scene) (element : Element) : PropertyMap :=
  ((element.classAttribute?.bind scene.styles.selectClass?).bind scene.styles.get?).getD .empty

/-- The style of an element, its size freed of implausible heights. -/
def resolve (scene : Scene) (element : Element) : ResolvedStyle :=
  let style := ResolvedStyle.resolve scene.options.vocabulary (scene.properties element)
  { style with size := scene.options.thresholds.normalize style.size }

/-- What is known about an element. -/
def subject (scene : Scene) (isRoot : Bool) (element : Element) : Subject :=
  let style := scene.resolve element
  { element := element
    style := style
    isRoot := isRoot
    isSmall := scene.options.thresholds.isIconSized style.size }

/-- Whether an image is fetched from the network. -/
def isNetworkImage (source : String) : Bool :=
  ["http://", "https://"].any fun scheme => Text.startsWith scheme.toList source.toList

/-- An image with a source, a fit and a size. -/
def rasterImage (callee : String) (source : Expr) (fit : String) (size : Size) : Expr :=
  sized (.call callee [source] [("fit", .ident fit)]) size

/-- The part that stands for a vector icon. -/
def vectorImage (subject : Subject) (reference : Expr) : Part :=
  subject.image (sized (.call vectorWidget [reference] []) subject.style.size)

/-- The image of an element: from the network, from a local file, from a keyword in its class, or
    none at all. -/
def image (scene : Scene) (subject : Subject) : Synth Part := do
  let source := Text.onChars Text.trim ((subject.element.attribute? "src").getD "")
  let className := subject.element.classAttribute?
  let size := subject.style.size
  if isNetworkImage source then
    return subject.image (rasterImage "Image.network" (.str source) "BoxFit.cover" size)
  match ← modifyGet fun assets => assets.resolve scene.files source className with
  | some asset =>
    if asset.isVector then return vectorImage subject asset.reference
    else
      return subject.image (rasterImage "Image.asset" asset.reference "BoxFit.contain" size)
  | none =>
    match className.bind scene.options.classIcons.lookup? with
    | some icon => return vectorImage subject (.ident icon)
    | none => return subject.describe (subject.style.rotate placeholder)

/-- The icon that a small wrapper comes down to, when a vector icon in the flow is all it holds. -/
def simplifiedIcon? (subject : Subject) (children : List Node) (kids : List Part) :
    Option Expr :=
  match kids with
  | [only] =>
    if (Node.element subject.element children).hasDirectText || only.isAbsolute then none
    else simplifyIcon? only.widget subject.style.size
  | _ => none

/-- The text style of an element laid over an inherited one. -/
def textStyle (scene : Scene) (element : Element) (inherited : Option TextStyle) :
    Option TextStyle :=
  TextStyle.laidOver?
    (TextStyle.ofProperties? scene.options.vocabulary (scene.properties element)) inherited

/-- The box of an element that is no control, given its children. -/
def box (scene : Scene) (subject : Subject) (children : List Node) (kids : List Part) :
    Part :=
  let icon := if subject.stripsPlacement then simplifiedIcon? subject children kids else none
  match icon with
  | some icon => subject.describeInFlow icon
  | none => compose scene.options subject none kids

/-- The rich text of spans; without any it takes up no room. -/
def paragraph (subject : Subject) (spans : List Expr) : Part :=
  let widget := if spans.isEmpty then placeholder else richText spans subject.style.textAlign
  subject.describe (subject.style.rotate widget)

mutual

/-- The widget of a node. -/
def node (scene : Scene) (isRoot : Bool) : Node → Synth Part
  | .text _ => return .flow placeholder
  | .element element children => do
    let subject := scene.subject isRoot element
    match Control.semantic? scene.options.vocabulary scene.styles element children with
    | some ⟨widget, true⟩ => return subject.describe (subject.style.rotate widget)
    | some ⟨widget, false⟩ => return compose scene.options subject (some widget) []
    | none =>
      if element.tag == "img" then scene.image subject
      else if isInlineTag element.tag then
        let spans ← scene.spans (scene.textStyle element none) children
        return paragraph subject spans
      else
        let kids ← scene.kids subject.style children
        return scene.box subject children kids

/-- The widgets of the children of an element with a style; blank texts have none. -/
def kids (scene : Scene) (style : ResolvedStyle) : List Node → Synth (List Part)
  | [] => return []
  | .text content :: rest => do
    let others ← scene.kids style rest
    return ((textRun? content style).map Part.flow).toList ++ others
  | .element element children :: rest => do
    let kid ← scene.node false (.element element children)
    let others ← scene.kids style rest
    return kid :: others

/-- The spans of nodes inside rich text with a style. Inline elements lay their styles over it, and
    other elements are embedded as widgets. -/
def spans (scene : Scene) (style : Option TextStyle) : List Node → Synth (List Expr)
  | [] => return []
  | .text content :: rest => do
    let others ← scene.spans style rest
    return spanOfText content style ++ others
  | .element element children :: rest => do
    let here ←
      if element.tag == "br" then pure [textSpan "\n" style]
      else if isInlineTag element.tag then scene.spans (scene.textStyle element style) children
      else do
        let embedded ← scene.node false (.element element children)
        pure [.named "WidgetSpan" [Expr.child embedded.widget]]
    let others ← scene.spans style rest
    return here ++ others

end

/-- The widget of the root of a document, and the assets with those it refers to. -/
def synthesize (scene : Scene) (root : Node) (assets : AssetRegistry) : Part × AssetRegistry :=
  (scene.node true root).run assets

end Scene

end DesignCompiler.Synthesis
