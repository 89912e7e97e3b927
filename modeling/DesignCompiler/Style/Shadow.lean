import DesignCompiler.Style.Color
import DesignCompiler.Style.Length
import DesignCompiler.Stylesheet.Comment

/-!
# Box shadows

The layers of a shadow are separated by commas outside parentheses. A layer needs a color; lengths
that are missing or unreadable are zero.
-/

namespace DesignCompiler.Style

open Text Dart

/-- One layer of a shadow. -/
structure BoxShadow where
  offsetX : Float
  offsetY : Float
  blur : Float
  spread : Float
  color : Color

/-- The expression of a layer. -/
def BoxShadow.toExpr (shadow : BoxShadow) : Expr :=
  .named "BoxShadow" [
    ("offset", .call "Offset" [.num shadow.offsetX, .num shadow.offsetY] []),
    ("blurRadius", .num shadow.blur),
    ("spreadRadius", .num shadow.spread),
    ("color", shadow.color.toExpr)]

/-- The pieces of a text between commas outside parentheses; `layer` holds the piece begun, in
    reverse order. -/
def layersFrom (depth : Nat) (layer : List Char) : List Char → List (List Char)
  | [] => [layer.reverse]
  | c :: rest =>
    if c == ',' && depth == 0 then layer.reverse :: layersFrom depth [] rest
    else layersFrom (Stylesheet.parenthesesAfter depth c) (c :: layer) rest

/-- The layers of a value, trimmed, without blank ones. -/
def shadowLayers (raw : List Char) : List (List Char) :=
  ((layersFrom 0 [] raw).map trim).filter (!·.isEmpty)

/-- The lengths of a layer in order, its color and the word `inset` left out. -/
def shadowLengths (layer : List Char) : List Float :=
  ((words (stripColor layer)).filter fun word => lowerAscii word != "inset".toList).map
    fun word => (length? word).getD 0.0

/-- The shadow of a layer, if it has a readable color. -/
def parseShadow? (vocabulary : Vocabulary) (layer : List Char) : Option BoxShadow :=
  (findColor? vocabulary layer).map fun color =>
    let lengths := shadowLengths layer
    let lengthAt (i : Nat) : Float := (lengths[i]?).getD 0.0
    ⟨lengthAt 0, lengthAt 1, lengthAt 2, lengthAt 3, color⟩

/-- The shadows of a box. -/
def parseShadows (vocabulary : Vocabulary) (props : PropertyMap) : List BoxShadow :=
  match props.get? "box-shadow" with
  | none => []
  | some raw => (shadowLayers raw.toList).filterMap (parseShadow? vocabulary)

end DesignCompiler.Style
