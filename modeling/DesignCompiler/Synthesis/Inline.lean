import DesignCompiler.Style.Resolved

/-!
# Text

Runs of text become text widgets in the style of the element around them, and spans inside rich
text.
-/

namespace DesignCompiler.Synthesis

open Dart Style Text

/-- Whether the children of an element with this tag flow as text. -/
def isInlineTag (tag : String) : Bool := tag == "span" || tag == "p"

/-- The widget of a run of text in an element with a style, unless it is blank. -/
def textRun? (raw : String) (style : ResolvedStyle) : Option Expr :=
  let content := String.ofList (trim raw.toList)
  let textStyle := Expr.optional "style" (style.textStyle.map TextStyle.toExpr)
  let align := Expr.optional "textAlign" (style.textAlign.map fun align => .ident align.path)
  if content == "" then none
  else match style.textGradient with
    | some gradient =>
      some (.named "AppTextGradient"
        (("text", .str content) :: textStyle ++ align ++ [("gradient", gradient.toExpr)]))
    | none => some (.call "Text" [.str content] (textStyle ++ align))

/-- A span of text in a style. -/
def textSpan (content : String) (style : Option TextStyle) : Expr :=
  .named "TextSpan"
    (("text", .str content) :: Expr.optional "style" (style.map TextStyle.toExpr))

/-- The span of a run of text, none if it is blank. -/
def spanOfText (raw : String) (style : Option TextStyle) : List Expr :=
  let content := String.ofList (trim raw.toList)
  if content == "" then [] else [textSpan content style]

/-- The widget of spans. -/
def richText (spans : List Expr) (align : Option TextAlign) : Expr :=
  .named "RichText"
    (("text", .named "TextSpan" [Expr.children spans]) ::
      Expr.optional "textAlign" (align.map fun align => .ident align.path))

end DesignCompiler.Synthesis
