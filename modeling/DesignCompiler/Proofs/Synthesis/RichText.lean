import DesignCompiler.Dart.Render
import DesignCompiler.Proofs.Style.Inheritance
import DesignCompiler.Synthesis.Scene
import Mathlib.Data.List.Basic
import Mathlib.Order.Basic

/-!
# Rich text

The spans of rich text stand for its pieces, one for each, in the order of the document: the runs of
text and the line breaks that are inside inline elements only, in the text style inherited through
these, and the other elements, which are embedded as widgets.
-/

namespace DesignCompiler.Synthesis

open Dart Style Markup Asset

/-! ## Pieces -/

/-- What a span stands for: a run of text with the inline elements around it, the innermost first,
    or an element that is embedded. -/
inductive Piece where
  | run (around : List Element) (content : String)
  | embedded (element : Element) (children : List Node)

/-- A piece of a node inside inline elements. Its place is the way down to it, given by the numbers
    of the children. -/
inductive PieceIn : List Element → Node → List Nat → Piece → Prop where
  | text {around : List Element} {raw : String} :
      Text.onChars Text.trim raw ≠ "" →
      PieceIn around (.text raw) [] (.run around (Text.onChars Text.trim raw))
  | lineBreak {around : List Element} {element : Element} {children : List Node} :
      element.tag = "br" → PieceIn around (.element element children) [] (.run around "\n")
  | embedded {around : List Element} {element : Element} {children : List Node} :
      element.tag ≠ "br" → isInlineTag element.tag = false →
      PieceIn around (.element element children) [] (.embedded element children)
  | inside {around : List Element} {element : Element} {children : List Node} {i : Nat}
      {child : Node} {place : List Nat} {piece : Piece} :
      isInlineTag element.tag = true → children[i]? = some child →
      PieceIn (element :: around) child place piece →
      PieceIn around (.element element children) (i :: place) piece

/-- A piece of nodes that are numbered from `start` on. -/
def PieceAmong (around : List Element) (start : Nat) (nodes : List Node) (place : List Nat)
    (piece : Piece) : Prop :=
  ∃ i child below, nodes[i]? = some child ∧ PieceIn around child below piece ∧
    place = (start + i) :: below

theorem tag_ne_of_isInlineTag {tag : String} (htag : isInlineTag tag = true) : tag ≠ "br" := by
  rintro rfl
  exact absurd htag (by decide)

theorem pieceIn_inline_iff {around : List Element} {element : Element} {children : List Node}
    {place : List Nat} {piece : Piece} (htag : isInlineTag element.tag = true) :
    PieceIn around (.element element children) place piece ↔
      PieceAmong (element :: around) 0 children place piece := by
  constructor
  · intro h
    cases h with
    | lineBreak hbreak => exact absurd hbreak (tag_ne_of_isInlineTag htag)
    | embedded _ hother => exact absurd htag (Bool.eq_false_iff.mp hother)
    | inside _ hchild h => exact ⟨_, _, _, hchild, h, by rw [Nat.zero_add]⟩
  · rintro ⟨i, child, below, hchild, h, rfl⟩
    rw [Nat.zero_add]
    exact .inside htag hchild h

theorem not_pieceAmong_nil {around : List Element} {start : Nat} {place : List Nat}
    {piece : Piece} : ¬ PieceAmong around start [] place piece := by
  rintro ⟨i, child, below, hchild, -⟩
  cases hchild

theorem pieceAmong_cons_iff {around : List Element} {start : Nat} {node : Node}
    {nodes : List Node} {place : List Nat} {piece : Piece} :
    PieceAmong around start (node :: nodes) place piece ↔
      (∃ below, PieceIn around node below piece ∧ place = start :: below) ∨
        PieceAmong around (start + 1) nodes place piece := by
  constructor
  · rintro ⟨i, child, below, hchild, h, rfl⟩
    cases i with
    | zero =>
      rw [List.getElem?_cons_zero, Option.some.injEq] at hchild
      exact .inl ⟨below, hchild ▸ h, rfl⟩
    | succ i => exact .inr ⟨i, child, below, hchild, h, by rw [Nat.add_assoc, Nat.add_comm 1]⟩
  · rintro (⟨below, h, rfl⟩ | ⟨i, child, below, hchild, h, rfl⟩)
    · exact ⟨0, node, below, rfl, h, rfl⟩
    · exact ⟨i + 1, child, below, hchild, h, by rw [Nat.add_assoc, Nat.add_comm 1]⟩

/-- The pieces with a property and their places, in the order of the document and each once. -/
structure Enumerates (IsPiece : List Nat → Piece → Prop) (pieces : List (List Nat × Piece)) :
    Prop where
  inOrder : pieces.Pairwise fun first second => first.1 < second.1
  mem_iff : ∀ place piece, (place, piece) ∈ pieces ↔ IsPiece place piece

theorem enumerates_none {IsPiece : List Nat → Piece → Prop}
    (hnone : ∀ place piece, ¬ IsPiece place piece) : Enumerates IsPiece [] :=
  ⟨.nil, fun place piece => by simp [hnone]⟩

theorem enumerates_one {IsPiece : List Nat → Piece → Prop} {only : Piece}
    (honly : ∀ place piece, IsPiece place piece ↔ place = [] ∧ piece = only) :
    Enumerates IsPiece [([], only)] :=
  ⟨List.pairwise_singleton _ _, fun place piece => by simp [honly]⟩

/-- The pieces of the first node come before those of the others. -/
theorem Enumerates.cons {around : List Element} {start : Nat} {node : Node} {nodes : List Node}
    {here others : List (List Nat × Piece)} (hhere : Enumerates (PieceIn around node) here)
    (hothers : Enumerates (PieceAmong around (start + 1) nodes) others) :
    Enumerates (PieceAmong around start (node :: nodes))
      (here.map (fun placed => (start :: placed.1, placed.2)) ++ others) := by
  constructor
  · rw [List.pairwise_append, List.pairwise_map]
    refine ⟨hhere.inOrder.imp List.cons_lt_cons_self.mpr, hothers.inOrder, ?_⟩
    rintro first hfirst ⟨place, piece⟩ hsecond
    obtain ⟨placed, -, rfl⟩ := List.mem_map.mp hfirst
    obtain ⟨i, -, below, -, -, rfl⟩ := (hothers.mem_iff place piece).mp hsecond
    exact List.Lex.rel (by omega)
  · intro place piece
    rw [List.mem_append, pieceAmong_cons_iff, hothers.mem_iff]
    refine or_congr_left ?_
    simp only [List.mem_map, Prod.mk.injEq, Prod.exists]
    constructor
    · rintro ⟨below, piece, hmem, rfl, rfl⟩
      exact ⟨below, (hhere.mem_iff _ _).mp hmem, rfl⟩
    · rintro ⟨below, h, rfl⟩
      exact ⟨below, piece, (hhere.mem_iff _ _).mpr h, rfl, rfl⟩

/-! ## Spans -/

/-- The text style that the class of an element declares, possibly with no facet. -/
def Scene.declaredStyle (scene : Scene) (element : Element) : TextStyle :=
  TextStyle.declared scene.options.vocabulary (scene.properties element)

/-- The span of a text inside elements. It has no style if none of them declares a facet of one, and
    otherwise each facet as the innermost element that declares it. -/
inductive IsSpanOf (scene : Scene) (around : List Element) (content : String) : Expr → Prop where
  | plain :
      (∀ element ∈ around, (scene.declaredStyle element).DeclaresNothing) →
      IsSpanOf scene around content (.named "TextSpan" [("text", .str content)])
  | styled {style : TextStyle} :
      (∃ element ∈ around, ¬ (scene.declaredStyle element).DeclaresNothing) →
      (∀ (α : Type) (facet : TextFacet α),
        facet.of style = around.findSome? fun element => facet.of (scene.declaredStyle element)) →
      IsSpanOf scene around content
        (.named "TextSpan" [("text", .str content), ("style", style.toExpr)])

/-- The spans of pieces one after another. The widgets of embedded elements may add to the
    assets. -/
inductive Rendered (scene : Scene) :
    AssetRegistry → List Piece → List Expr → AssetRegistry → Prop where
  | nil {assets : AssetRegistry} : Rendered scene assets [] [] assets
  | run {assets later : AssetRegistry} {around : List Element} {content : String} {span : Expr}
      {pieces : List Piece} {spans : List Expr} :
      IsSpanOf scene around content span → Rendered scene assets pieces spans later →
      Rendered scene assets (.run around content :: pieces) (span :: spans) later
  | embedded {assets between later : AssetRegistry} {element : Element} {children : List Node}
      {part : Part} {pieces : List Piece} {spans : List Expr} :
      (scene.node false (.element element children)).run assets = (part, between) →
      Rendered scene between pieces spans later →
      Rendered scene assets (.embedded element children :: pieces)
        (.named "WidgetSpan" [("child", part.widget)] :: spans) later

section

variable {scene : Scene} {assets between later : AssetRegistry} {pieces others : List Piece}
  {spans otherSpans : List Expr}

theorem Rendered.append (hfirst : Rendered scene assets pieces spans between)
    (hsecond : Rendered scene between others otherSpans later) :
    Rendered scene assets (pieces ++ others) (spans ++ otherSpans) later := by
  induction hfirst with
  | nil => exact hsecond
  | run hspan _ ih => exact .run hspan (ih hsecond)
  | embedded hpart _ ih => exact .embedded hpart (ih hsecond)

/-- The text style of spans inside elements is inherited through these. -/
def Inherits (scene : Scene) (around : List Element) (style : Option TextStyle) : Prop :=
  TextStyle.IsInherited (around.map scene.declaredStyle) style

theorem inherits_nil : Inherits scene [] none := TextStyle.isInherited_nil

theorem Inherits.textStyle {around : List Element} {style : Option TextStyle}
    (hstyle : Inherits scene around style) (element : Element) :
    Inherits scene (element :: around) (scene.textStyle element style) :=
  hstyle.laidOver scene.options.vocabulary (scene.properties element)

theorem Inherits.isSpanOf {around : List Element} {style : Option TextStyle}
    (hstyle : Inherits scene around style) (content : String) :
    IsSpanOf scene around content (textSpan content style) := by
  have hnone := hstyle.eq_none_iff
  rw [List.forall_mem_map] at hnone
  cases style with
  | none => exact .plain (hnone.mp rfl)
  | some style =>
    refine .styled ?_ fun α facet => ?_
    · by_contra hall
      refine Option.some_ne_none style (hnone.mpr fun element helement => ?_)
      by_contra hdeclares
      exact hall ⟨element, helement, hdeclares⟩
    · have hfacet := hstyle.facet_eq facet
      rwa [List.findSome?_map] at hfacet

end

/-- The spans are those of the pieces of some nodes. -/
def SpansPieces (scene : Scene) (assets : AssetRegistry) (IsPiece : List Nat → Piece → Prop)
    (result : List Expr × AssetRegistry) : Prop :=
  ∃ pieces, Enumerates IsPiece pieces ∧
    Rendered scene assets (pieces.map Prod.snd) result.1 result.2

/-- The spans of a node come before those of the nodes after it. -/
theorem SpansPieces.cons {scene : Scene} {assets : AssetRegistry} {around : List Element}
    {start : Nat} {node : Node} {nodes : List Node} {here others : Synth (List Expr)}
    (hhere : SpansPieces scene assets (PieceIn around node) (here.run assets))
    (hothers : SpansPieces scene (here.run assets).2 (PieceAmong around (start + 1) nodes)
      (others.run (here.run assets).2)) :
    SpansPieces scene assets (PieceAmong around start (node :: nodes))
      ((do return (← here) ++ (← others) : Synth (List Expr)).run assets) := by
  obtain ⟨pieces, hpieces, hspans⟩ := hhere
  obtain ⟨morePieces, hmorePieces, hmoreSpans⟩ := hothers
  refine ⟨_, hpieces.cons hmorePieces, ?_⟩
  rw [List.map_append, List.map_map]
  exact hspans.append hmoreSpans

/-- The span of a single piece. -/
theorem spansPieces_run {scene : Scene} {assets : AssetRegistry} {around : List Element}
    {style : Option TextStyle} (hstyle : Inherits scene around style) {content : String}
    {IsPiece : List Nat → Piece → Prop}
    (honly : ∀ place piece, IsPiece place piece ↔ place = [] ∧ piece = .run around content) :
    SpansPieces scene assets IsPiece ([textSpan content style], assets) :=
  ⟨_, enumerates_one honly, .run (hstyle.isSpanOf content) .nil⟩

theorem spansPieces_spanOfText {scene : Scene} {around : List Element} {style : Option TextStyle}
    (hstyle : Inherits scene around style) (raw : String) (assets : AssetRegistry) :
    SpansPieces scene assets (PieceIn around (.text raw)) (spanOfText raw style, assets) := by
  have htrim : String.ofList (Text.trim raw.toList) = Text.onChars Text.trim raw := rfl
  unfold spanOfText
  dsimp only
  rw [htrim]
  by_cases hblank : Text.onChars Text.trim raw = ""
  · rw [if_pos (by simpa using hblank)]
    refine ⟨[], enumerates_none fun place piece h => ?_, .nil⟩
    cases h with
    | text hne => exact hne hblank
  · rw [if_neg (by simpa using hblank)]
    refine spansPieces_run hstyle fun place piece => ⟨fun h => ?_, ?_⟩
    · cases h
      exact ⟨rfl, rfl⟩
    · rintro ⟨rfl, rfl⟩
      exact .text hblank

theorem spansPieces_lineBreak {scene : Scene} {around : List Element} {style : Option TextStyle}
    (hstyle : Inherits scene around style) {element : Element} (htag : element.tag = "br")
    (children : List Node) (assets : AssetRegistry) :
    SpansPieces scene assets (PieceIn around (.element element children))
      ([textSpan "\n" style], assets) := by
  refine spansPieces_run hstyle fun place piece => ⟨fun h => ?_, ?_⟩
  · cases h with
    | lineBreak => exact ⟨rfl, rfl⟩
    | embedded hother => exact absurd htag hother
    | inside hinline => exact absurd htag (tag_ne_of_isInlineTag hinline)
  · rintro ⟨rfl, rfl⟩
    exact .lineBreak htag

theorem spansPieces_embedded {scene : Scene} {around : List Element} {element : Element}
    (hbreak : element.tag ≠ "br") (hother : isInlineTag element.tag = false)
    (children : List Node) (assets : AssetRegistry) :
    SpansPieces scene assets (PieceIn around (.element element children))
      ((do
        let part ← scene.node false (.element element children)
        return [.named "WidgetSpan" [Expr.child part.widget]] : Synth (List Expr)).run assets) := by
  refine ⟨[([], .embedded element children)], enumerates_one fun place piece => ⟨fun h => ?_, ?_⟩,
    .embedded rfl .nil⟩
  · cases h with
    | lineBreak htag => exact absurd htag hbreak
    | embedded => exact ⟨rfl, rfl⟩
    | inside hinline => exact absurd hinline (Bool.eq_false_iff.mp hother)
  · rintro ⟨rfl, rfl⟩
    exact .embedded hbreak hother

theorem spansPieces_inline_iff {scene : Scene} {assets : AssetRegistry} {around : List Element}
    {element : Element} {children : List Node} {result : List Expr × AssetRegistry}
    (htag : isInlineTag element.tag = true) :
    SpansPieces scene assets (PieceIn around (.element element children)) result ↔
      SpansPieces scene assets (PieceAmong (element :: around) 0 children) result := by
  have hpieces : PieceIn around (.element element children) =
      PieceAmong (element :: around) 0 children := by
    funext place piece
    exact propext (pieceIn_inline_iff htag)
  rw [hpieces]

/-- The spans in a text style inherited through elements are those of the pieces inside these. -/
theorem spansPieces_spans (scene : Scene) : ∀ (nodes : List Node) (start : Nat)
    {around : List Element} {style : Option TextStyle}, Inherits scene around style →
      ∀ assets, SpansPieces scene assets (PieceAmong around start nodes)
        ((scene.spans style nodes).run assets)
  | [], _, _, _, _, _ => by
    rw [Scene.spans]
    exact ⟨[], enumerates_none fun _ _ => not_pieceAmong_nil, .nil⟩
  | .text raw :: rest, start, around, style, hstyle, assets => by
    rw [Scene.spans]
    have hhere : SpansPieces scene assets (PieceIn around (.text raw))
        ((pure (spanOfText raw style) : Synth (List Expr)).run assets) :=
      spansPieces_spanOfText hstyle raw assets
    exact hhere.cons (spansPieces_spans scene rest (start + 1) hstyle assets)
  | .element element children :: rest, start, around, style, hstyle, assets => by
    rw [Scene.spans]
    -- In each case the spans of this element are followed by those of the rest.
    have hcons : ∀ here : Synth (List Expr),
        SpansPieces scene assets (PieceIn around (.element element children)) (here.run assets) →
        SpansPieces scene assets (PieceAmong around start (.element element children :: rest))
          ((do return (← here) ++ (← scene.spans style rest)).run assets) := fun here hhere =>
      hhere.cons (spansPieces_spans scene rest (start + 1) hstyle _)
    split
    · rename_i htag
      exact hcons (pure _) (spansPieces_lineBreak hstyle (beq_iff_eq.mp htag) children assets)
    · rename_i hbreak
      split
      · rename_i htag
        refine hcons (scene.spans _ children) ?_
        rw [spansPieces_inline_iff htag]
        exact spansPieces_spans scene children 0 (hstyle.textStyle element) assets
      · rename_i hother
        have hhere := hcons _ (spansPieces_embedded (by simpa using hbreak) (by simpa using hother)
          children assets)
        simpa only [bind_assoc, pure_bind] using hhere

/-- Rich text shows the pieces of its element, and nothing else: each has one span. -/
theorem exists_pieces_richText (scene : Scene) (isRoot : Bool) {element : Element}
    (htag : isInlineTag element.tag = true) (children : List Node) (assets : AssetRegistry) :
    ∃ pieces spans later,
      Enumerates (PieceIn [] (.element element children)) pieces ∧
      (scene.spans (scene.textStyle element none) children).run assets = (spans, later) ∧
      Rendered scene assets (pieces.map Prod.snd) spans later ∧
      (Control.semantic? scene.options.vocabulary scene.styles element children = none →
        (scene.node isRoot (.element element children)).run assets =
          (Scene.paragraph (scene.subject isRoot element) spans, later)) := by
  have hstyle : Inherits scene [element] (scene.textStyle element none) :=
    inherits_nil.textStyle element
  have hspans := spansPieces_spans scene children 0 hstyle assets
  rw [← spansPieces_inline_iff htag] at hspans
  obtain ⟨pieces, hpieces, hrendered⟩ := hspans
  refine ⟨pieces, _, _, hpieces, rfl, hrendered, fun hcontrol => ?_⟩
  have himage : (element.tag == "img") = false := by
    rw [beq_eq_false_iff_ne]
    intro himage
    rw [himage] at htag
    exact absurd htag (by decide)
  rw [Scene.node, hcontrol]
  dsimp only
  rw [himage, htag]
  rfl

/-- A scene with the styles of a paragraph and of bold text. -/
def letterScene : Scene where
  styles := StyleTable.compile ".p\x7bfont-size:12px;\x7d.b\x7bfont-weight:700;\x7d" none
  options := {}
  files := ⟨[]⟩

/-- The element of a paragraph. -/
def letterElement : Element := ⟨"p", ⟨[("className", "p")]⟩⟩

/-- A bold word, the rest of the line, a line break and a box. -/
def letterChildren : List Node := [
  .element ⟨"span", ⟨[("className", "b")]⟩⟩ [.text " Bold "], .text " tail",
  .element ⟨"br", ⟨[]⟩⟩ [], .element ⟨"div", ⟨[]⟩⟩ [.text "box"]]

/-- The assets before synthesis. -/
def letterAssets : AssetRegistry := AssetRegistry.start letterScene.files {} ""

theorem exists_pieces_letter :
    isInlineTag letterElement.tag = true ∧
      ∃ pieces spans later,
        Enumerates (PieceIn [] (.element letterElement letterChildren)) pieces ∧
        Rendered letterScene letterAssets (pieces.map Prod.snd) spans later ∧
        (letterScene.synthesize (.element letterElement letterChildren) letterAssets) =
          (Scene.paragraph (letterScene.subject true letterElement) spans, later) := by
  have htag : isInlineTag letterElement.tag = true := rfl
  have hcontrol : Control.semantic? letterScene.options.vocabulary letterScene.styles letterElement
      letterChildren = none := by
    rw [← Option.isNone_iff_eq_none]
    decide +kernel
  obtain ⟨pieces, spans, later, hpieces, -, hrendered, hnode⟩ :=
    exists_pieces_richText letterScene true htag letterChildren letterAssets
  exact ⟨htag, pieces, spans, later, hpieces, hrendered, hnode hcontrol⟩

example :
    ((letterScene.spans (letterScene.textStyle letterElement none) letterChildren).run
      letterAssets).1.map Expr.flat = [
        "TextSpan(text: 'Bold', style: TextStyle(fontSize: 12, fontWeight: FontWeight.w700))",
        "TextSpan(text: 'tail', style: TextStyle(fontSize: 12))",
        "TextSpan(text: '\\n', style: TextStyle(fontSize: 12))",
        "WidgetSpan(child: Text('box'))"] := by decide +kernel

end DesignCompiler.Synthesis
