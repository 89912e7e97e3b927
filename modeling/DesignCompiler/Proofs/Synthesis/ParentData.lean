import DesignCompiler.Page.Shell
import DesignCompiler.Proofs.Synthesis.FreeValues
import DesignCompiler.Synthesis.Scene

/-!
# Parent data of synthesized widgets

Only a row or column expands a child, only a stack positions one, and spans never leave rich text.
So the widget of every node may stand anywhere, whatever its parent makes of it.
-/

namespace DesignCompiler.Synthesis

open Dart Style Markup Asset

/-! ## Boxes -/

theorem free_placeholder : Free placeholder := free_call (by decide) (by simp) (by simp)

theorem freeArguments_size (width height : Option Float) :
    FreeArguments (sizeArguments width height) := by simp [sizeArguments]

theorem free_sized {widget : Expr} {size : Size} (hwidget : Free widget) :
    Free (sized widget size) := by
  rw [sized]
  split
  · exact hwidget
  · exact free_named (by decide) (by simp [freeArguments_size, hwidget])

theorem free_overflowBox {enabled : Bool} {body : Expr} {size : Size} (hbody : Free body) :
    Free (overflowBox enabled body size) := by
  rw [overflowBox]
  dsimp only
  split
  · refine iteInduction (motive := Free) (fun _ => ?_) fun _ => hbody
    refine free_named (by decide) ?_
    simp only [freeArguments_cons, free_ident, free_num, true_and, freeArguments_nil, and_true]
    refine ⟨?_, ?_, hbody⟩
    · split <;> simp
    · split <;> simp
  · exact hbody

theorem free_container {style : ResolvedStyle} {decoration : Option Expr} {content : Expr}
    (hdecoration : ∀ e ∈ decoration, Free e) (hcontent : Free content) :
    Free (container style decoration content) := by
  rw [container]
  refine iteInduction (motive := Free) (fun _ => hcontent) fun _ => ?_
  refine free_named (by decide) ?_
  simp only [freeArguments_append, freeArguments_optional]
  exact ⟨⟨⟨by simp, by simp⟩, hdecoration⟩, by simp [hcontent]⟩

theorem free_finalizeBox {options : CompileOptions} {subject : Subject} {body : Expr} {size : Size}
    {inputOwned : Bool} (hbody : Free body) :
    Free (finalizeBox options subject body size inputOwned) := by
  refine free_container (fun e he => ?_) ?_
  · split at he
    · cases he
    · exact free_decoration he
  · split
    · exact free_named (by decide) (by simp [freeArguments_size, free_overflowBox hbody])
    · exact hbody

/-! ## Rows and columns -/

theorem legalAt_flexChild {axis : String} (haxis : axis = "Row" ∨ axis = "Column")
    {determinate : Bool} {kid : Part} (hkid : Free kid.widget) :
    LegalAt (.childOf axis) (flexChild determinate kid) := by
  rw [flexChild]
  split
  · refine legalAt_call ?_ (by simp) ?_
    · refine ⟨fun _ => ?_, by simp, by simp, by simp⟩
      obtain rfl | rfl := haxis
      · exact .inl rfl
      · exact .inr rfl
    · simp only [List.forall_mem_cons]
      exact ⟨free_num _ _, hkid _, by simp⟩
  · exact hkid _

theorem free_gapBox (axis : Axis) (gap : Float) : Free (gapBox axis gap) :=
  free_named (by decide) (by simp)

private theorem mem_or_eq_of_mem_intersperse {α : Type} {separator x : α} :
    ∀ xs : List α, x ∈ xs.intersperse separator → x ∈ xs ∨ x = separator
  | [], hx => .inl hx
  | [y], hx => .inl hx
  | y :: z :: xs, hx => by
    rw [List.intersperse_cons_cons, List.mem_cons, List.mem_cons] at hx
    obtain rfl | hseparator | hrest := hx
    · exact .inl List.mem_cons_self
    · exact .inr hseparator
    · obtain hmem | heq := mem_or_eq_of_mem_intersperse (z :: xs) hrest
      · exact .inl (List.mem_cons_of_mem y hmem)
      · exact .inr heq

theorem mem_withGaps {config : FlexConfig} {widgets : List Expr} {widget : Expr}
    (hwidget : widget ∈ withGaps config widgets) :
    widget ∈ widgets ∨ ∃ gap, widget = gapBox config.axis gap := by
  rw [withGaps] at hwidget
  split at hwidget
  · rename_i gap _
    obtain hmem | heq := mem_or_eq_of_mem_intersperse widgets hwidget
    · exact .inl hmem
    · exact .inr ⟨gap, heq⟩
  · exact .inl hwidget

theorem free_flexBox {config : FlexConfig} {kids : List Part} {determinate : Bool}
    (hkids : ∀ kid ∈ kids, Free kid.widget) : Free (flexBox config kids determinate) := by
  have hchildren : ∀ axis, axis = "Row" ∨ axis = "Column" →
      ∀ widget ∈ withGaps config (kids.map (flexChild determinate)),
        LegalAt (.childOf axis) widget := by
    intro axis haxis widget hwidget
    obtain hmem | ⟨gap, rfl⟩ := mem_withGaps hwidget
    · obtain ⟨kid, hkid, rfl⟩ := List.mem_map.mp hmem
      exact legalAt_flexChild haxis (hkids kid hkid)
    · exact free_gapBox _ _ _
  rw [flexBox]
  cases config.axis with
  | row =>
    exact free_children [_, _] (by decide) (by simp) (hchildren "Row" (.inl rfl))
  | column =>
    exact free_children [_, _] (by decide) (by simp) (hchildren "Column" (.inr rfl))

theorem free_composeFlow {flex : Option FlexConfig} {kids : List Part}
    {hasAbsolute determinate : Bool} {body : Expr} (hkids : ∀ kid ∈ kids, Free kid.widget)
    (hbody : composeFlow flex kids hasAbsolute determinate = some body) : Free body := by
  rw [composeFlow.eq_def] at hbody
  split at hbody
  · cases hbody
  · obtain rfl := Option.some.inj hbody
    exact free_flexBox hkids
  · split at hbody
    · obtain rfl := Option.some.inj hbody
      exact hkids _ List.mem_cons_self
    · obtain rfl := Option.some.inj hbody
      refine free_children [_] (by decide) (by simp) fun widget hwidget => ?_
      obtain ⟨kid, hkid, rfl⟩ := List.mem_map.mp hwidget
      exact hkids kid hkid _

/-! ## Stacks -/

/-- A vector icon is free wherever it was found. -/
theorem free_simplifyIcon {widget icon : Expr} {size : Size} (hwidget : Free widget)
    (hicon : simplifyIcon? widget size = some icon) : Free icon := by
  obtain ⟨found, hfound, rfl⟩ := Option.map_eq_some_iff.mp hicon
  refine free_sized ?_
  have hmem := List.mem_of_find?_eq_some hfound
  have hcall := List.find?_some hfound
  obtain ⟨place, hlegal⟩ := LegalAt.exists_of_mem_subterms widget (hwidget .root) hmem
  cases found with
  | call callee args named =>
    obtain rfl : callee = vectorWidget := by simpa [Expr.isCallOf, Expr.callee?] using hcall
    exact hlegal.free (by decide)
  | _ => simp [Expr.isCallOf, Expr.callee?] at hcall

theorem legalAt_positioned {edges : Edges} {child : Expr} (hchild : Free child) :
    LegalAt (.childOf "Stack") (positioned edges child) := by
  rw [positioned]
  split
  · exact hchild _
  · refine legalAt_call ⟨by decide, fun _ => rfl, by simp, by simp⟩ (by simp) ?_
    have harguments : FreeArguments (
        Expr.optional "top" (edges.top.map Expr.num) ++
        Expr.optional "left" (edges.left.map Expr.num) ++
        Expr.optional "right" (edges.right.map Expr.num) ++
        Expr.optional "bottom" (edges.bottom.map Expr.num) ++ [Expr.child child]) := by
      simp [hchild]
    exact fun argument hargument => harguments argument hargument _

theorem legalAt_layer {thresholds : Thresholds} {kid : Part} (hkid : Free kid.widget) :
    LegalAt (.childOf "Stack") (layer thresholds kid) := by
  rw [layer]
  split
  · cases hicon : simplifyIcon? kid.widget kid.size with
    | none => exact legalAt_positioned hkid
    | some icon => exact free_simplifyIcon hkid hicon _
  · exact legalAt_positioned hkid

theorem free_extentBox {kids : List Part} {isRoot : Bool} {thresholds : Thresholds} {e : Expr}
    (he : extentBox? kids isRoot thresholds = some e) : Free e := by
  rw [extentBox?, Option.ite_none_left_eq_some] at he
  obtain rfl := Option.some.inj he.2
  exact free_named (by decide) (freeArguments_size _ _)

theorem free_composeStack {flowBody : Option Expr} {kids : List Part} {isRoot : Bool}
    {thresholds : Thresholds} (hbody : ∀ body ∈ flowBody, Free body)
    (hkids : ∀ kid ∈ kids, Free kid.widget) :
    Free (composeStack flowBody kids isRoot thresholds) := by
  refine free_children [_] (by decide) (by simp) ?_
  have hlayers : ∀ others : List Part, (∀ kid ∈ others, kid ∈ kids) →
      ∀ widget ∈ others.map (layer thresholds), LegalAt (.childOf "Stack") widget := by
    intro others hothers widget hwidget
    obtain ⟨kid, hkid, rfl⟩ := List.mem_map.mp hwidget
    exact legalAt_layer (hkids kid (hothers kid hkid))
  rw [stackLayers.eq_def]
  split
  · rw [List.forall_mem_cons]
    exact ⟨hbody _ rfl _, hlayers kids fun _ h => h⟩
  · split
    · rename_i index _
      rw [List.forall_mem_append]
      refine ⟨fun widget hwidget => ?_, hlayers _ fun _ h => List.mem_of_mem_eraseIdx h⟩
      obtain ⟨kid, hkid, rfl⟩ := Option.map_eq_some_iff.mp (Option.mem_toList.mp hwidget)
      exact hkids kid (List.mem_of_getElem? hkid) _
    · rw [List.forall_mem_append]
      refine ⟨fun widget hwidget => ?_, hlayers kids fun _ h => h⟩
      exact free_extentBox (Option.mem_toList.mp hwidget) _

/-! ## Composition -/

theorem free_flowBody {subject : Subject} {semantic : Option Expr} {flow : List Part}
    {hasAbsolute : Bool} {size : Size} (hsemantic : ∀ widget ∈ semantic, Free widget)
    (hflow : ∀ kid ∈ flow, Free kid.widget) :
    ∀ body ∈ flowBody? subject semantic flow hasAbsolute size, Free body := by
  intro body hbody
  rw [flowBody?.eq_def] at hbody
  split at hbody
  · obtain rfl := Option.some.inj hbody
    exact hsemantic _ rfl
  · exact free_composeFlow hflow hbody

/-- The widget of a composed element is free if those of its parts are. -/
theorem free_compose {options : CompileOptions} {subject : Subject} {semantic : Option Expr}
    {kids : List Part} (hsemantic : ∀ widget ∈ semantic, Free widget)
    (hkids : ∀ kid ∈ kids, Free kid.widget) :
    Free (compose options subject semantic kids).widget := by
  have hflow : ∀ kid ∈ kids.filter (!·.isAbsolute), Free kid.widget := fun kid hkid =>
    hkids kid (List.mem_filter.mp hkid).1
  have habsolute : ∀ kid ∈ (kids.filter Part.isAbsolute).mergeSort (fun a b => a.zIndex ≤ b.zIndex),
      Free kid.widget := fun kid hkid =>
    hkids kid (List.mem_filter.mp (List.mem_mergeSort.mp hkid)).1
  refine free_rotate (free_clip (free_finalizeBox ?_))
  refine iteInduction (motive := Free) (fun _ => ?_) fun _ => ?_
  · cases hbody : flowBody? subject semantic _ _ _ with
    | none => exact free_placeholder
    | some body => exact free_flowBody hsemantic hflow body hbody
  · exact free_composeStack (free_flowBody hsemantic hflow) habsolute

/-! ## Text -/

theorem free_textRun {raw : String} {style : ResolvedStyle} {widget : Expr}
    (hwidget : textRun? raw style = some widget) : Free widget := by
  rw [textRun?] at hwidget
  rw [Option.ite_none_left_eq_some] at hwidget
  replace hwidget := hwidget.2
  split at hwidget
  · obtain rfl := Option.some.inj hwidget
    exact free_named (by decide) (by simp)
  · obtain rfl := Option.some.inj hwidget
    exact free_call (by decide) (by simp) (by simp)

theorem legalAt_textSpan (content : String) (style : Option TextStyle) :
    LegalAt (.childOf "TextSpan") (textSpan content style) := by
  have harguments : FreeArguments
      (("text", .str content) :: Expr.optional "style" (style.map TextStyle.toExpr)) := by simp
  exact legalAt_call ⟨by decide, by simp, by simp, fun _ => .inr rfl⟩ (by simp)
    fun argument hargument => harguments argument hargument _

theorem legalAt_spanOfText {raw : String} {style : Option TextStyle} :
    ∀ span ∈ spanOfText raw style, LegalAt (.childOf "TextSpan") span := by
  intro span hspan
  rw [spanOfText] at hspan
  split at hspan
  · cases hspan
  · obtain rfl := List.mem_singleton.mp hspan
    exact legalAt_textSpan _ style

theorem legalAt_widgetSpan {widget : Expr} (hwidget : Free widget) :
    LegalAt (.childOf "TextSpan") (.named "WidgetSpan" [Expr.child widget]) := by
  refine legalAt_call ⟨by decide, by simp, fun _ => rfl, by simp⟩ (by simp) ?_
  rw [List.forall_mem_singleton]
  exact hwidget _

theorem free_richText {spans : List Expr} {align : Option TextAlign}
    (hspans : ∀ span ∈ spans, LegalAt (.childOf "TextSpan") span) :
    Free (richText spans align) := by
  have htext : LegalAt (.named "RichText" "text") (.named "TextSpan" [Expr.children spans]) := by
    refine legalAt_call ⟨by decide, by simp, by simp, fun _ => .inl rfl⟩ (by simp) ?_
    rw [List.forall_mem_singleton]
    exact legalAt_list hspans
  refine fun place => legalAt_call (Place.admits_of_not_mem (by decide)) (by simp) ?_
  rw [List.forall_mem_cons]
  have halign : FreeArguments
      (Expr.optional "textAlign" (align.map fun align => .ident align.path)) := by simp
  exact ⟨htext, fun argument hargument => halign argument hargument _⟩

/-! ## Nodes -/

/-- Whatever the assets are, a step of synthesis yields a value with a property. -/
def Yields {α : Type} (P : α → Prop) (step : Synth α) : Prop :=
  ∀ assets, P (step.run assets).1

theorem yields_pure {α : Type} {P : α → Prop} {value : α} (hvalue : P value) :
    Yields P (pure value) := fun _ => hvalue

theorem yields_bind {α β : Type} {P : α → Prop} {Q : β → Prop} {step : Synth α}
    {next : α → Synth β} (hstep : Yields P step)
    (hnext : ∀ value, P value → Yields Q (next value)) :
    Yields Q (step >>= next) := fun assets => hnext _ (hstep assets) _

theorem yields_modifyGet {α : Type} {P : α → Prop} {f : AssetRegistry → α × AssetRegistry}
    (hf : ∀ assets, P (f assets).1) : Yields P (modifyGet f : Synth α) := hf

/-- The reference to an asset is an identifier or a path. -/
theorem free_reference {registry : AssetRegistry} {fs : FileSystem} {source : String}
    {hint : Option String} {asset : LocalAsset}
    (hasset : (registry.resolve fs source hint).1 = some asset) : Free asset.reference := by
  rw [AssetRegistry.resolve] at hasset
  split at hasset
  · cases hasset
  · obtain rfl := Option.some.inj hasset
    dsimp only
    rw [AssetRegistry.reference]
    split
    · exact free_ident _
    · exact free_str _

namespace Scene

theorem free_subjectImage {subject : Subject} {widget : Expr} (hwidget : Free widget) :
    Free (subject.image widget).widget := by
  rw [Subject.image]
  split
  · exact hwidget
  · exact free_rotate hwidget

theorem free_rasterImage {callee : String} {source : Expr} {fit : String} {size : Size}
    (hcallee : callee ∉ parentDataWidgets) (hsource : Free source) :
    Free (rasterImage callee source fit size) :=
  free_sized (free_call hcallee (by simpa using hsource) (by simp))

theorem free_vectorImage {subject : Subject} {reference : Expr} (hreference : Free reference) :
    Free (vectorImage subject reference).widget :=
  free_subjectImage (free_sized (free_call (by decide) (by simpa using hreference) (by simp)))

theorem yields_image (scene : Scene) (subject : Subject) :
    Yields (fun part => Free part.widget) (scene.image subject) := by
  rw [image]
  split
  · exact yields_pure (free_subjectImage (free_rasterImage (by decide) (free_str _)))
  · refine yields_bind (P := fun asset => ∀ found ∈ asset, Free found.reference) ?_ ?_
    · exact yields_modifyGet fun assets found hfound => free_reference hfound
    · intro asset hasset
      split
      · split
        · exact yields_pure (free_vectorImage (hasset _ rfl))
        · exact yields_pure (free_subjectImage (free_rasterImage (by decide) (hasset _ rfl)))
      · split
        · exact yields_pure (free_vectorImage (free_ident _))
        · exact yields_pure (free_rotate free_placeholder)

theorem free_simplifiedIcon {subject : Subject} {children : List Node} {kids : List Part}
    {icon : Expr} (hkids : ∀ kid ∈ kids, Free kid.widget)
    (hicon : simplifiedIcon? subject children kids = some icon) : Free icon := by
  rw [simplifiedIcon?.eq_def] at hicon
  split at hicon
  · rw [Option.ite_none_left_eq_some] at hicon
    exact free_simplifyIcon (hkids _ List.mem_cons_self) hicon.2
  · cases hicon

theorem free_box {scene : Scene} {subject : Subject} {children : List Node} {kids : List Part}
    (hkids : ∀ kid ∈ kids, Free kid.widget) : Free (scene.box subject children kids).widget := by
  rw [box]
  split
  · rename_i icon hicon
    split at hicon
    · exact free_simplifiedIcon hkids hicon
    · cases hicon
  · exact free_compose (by simp) hkids

theorem free_paragraph {subject : Subject} {spans : List Expr}
    (hspans : ∀ span ∈ spans, LegalAt (.childOf "TextSpan") span) :
    Free (paragraph subject spans).widget := by
  refine free_rotate ?_
  split
  · exact free_placeholder
  · exact free_richText hspans

mutual

/-- The widget of a node may stand anywhere. -/
theorem yields_node (scene : Scene) (isRoot : Bool) :
    ∀ node : Node, Yields (fun part => Free part.widget) (scene.node isRoot node)
  | .text _ => by
    rw [node]
    exact yields_pure free_placeholder
  | .element element children => by
    rw [node]
    split
    · rename_i widget hsemantic
      exact yields_pure (free_rotate (Control.free_semantic hsemantic))
    · rename_i widget hsemantic
      refine yields_pure (free_compose ?_ (by simp))
      simpa using Control.free_semantic hsemantic
    · split
      · exact yields_image scene _
      · split
        · exact yields_bind (yields_spans scene _ children) fun spans hspans =>
            yields_pure (free_paragraph hspans)
        · exact yields_bind (yields_kids scene _ children) fun kids hkids =>
            yields_pure (free_box hkids)

theorem yields_kids (scene : Scene) (style : ResolvedStyle) :
    ∀ nodes : List Node,
      Yields (fun kids => ∀ kid ∈ kids, Free kid.widget) (scene.kids style nodes)
  | [] => by
    rw [kids]
    exact yields_pure (by simp)
  | .text content :: rest => by
    rw [kids]
    refine yields_bind (yields_kids scene style rest) fun others hothers => yields_pure ?_
    rw [List.forall_mem_append]
    refine ⟨fun kid hkid => ?_, hothers⟩
    obtain ⟨widget, hwidget, rfl⟩ := Option.map_eq_some_iff.mp (Option.mem_toList.mp hkid)
    exact free_textRun hwidget
  | .element element children :: rest => by
    rw [kids]
    refine yields_bind (yields_node scene false (.element element children)) fun kid hkid => ?_
    refine yields_bind (yields_kids scene style rest) fun others hothers => yields_pure ?_
    exact List.forall_mem_cons.mpr ⟨hkid, hothers⟩

theorem yields_spans (scene : Scene) (style : Option TextStyle) :
    ∀ nodes : List Node,
      Yields (fun spans => ∀ span ∈ spans, LegalAt (.childOf "TextSpan") span)
        (scene.spans style nodes)
  | [] => by
    rw [spans]
    exact yields_pure (by simp)
  | .text content :: rest => by
    rw [spans]
    refine yields_bind (yields_spans scene style rest) fun others hothers => yields_pure ?_
    exact List.forall_mem_append.mpr ⟨legalAt_spanOfText, hothers⟩
  | .element element children :: rest => by
    rw [spans]
    have hrest : ∀ here : List Expr, (∀ span ∈ here, LegalAt (.childOf "TextSpan") span) →
        Yields (fun spans => ∀ span ∈ spans, LegalAt (.childOf "TextSpan") span)
          (do let others ← scene.spans style rest; return here ++ others) := by
      intro here hhere
      refine yields_bind (yields_spans scene style rest) fun others hothers => yields_pure ?_
      exact List.forall_mem_append.mpr ⟨hhere, hothers⟩
    split
    · exact hrest _ (List.forall_mem_singleton.mpr (legalAt_textSpan _ style))
    · split
      · exact yields_bind (yields_spans scene _ children) hrest
      · refine yields_bind (yields_node scene false (.element element children))
          fun embedded hembedded => ?_
        exact hrest _ (List.forall_mem_singleton.mpr (legalAt_widgetSpan hembedded))

end

theorem free_synthesize (scene : Scene) (root : Node) (assets : AssetRegistry) :
    Free (scene.synthesize root assets).1.widget := yields_node scene true root assets

end Scene

/-! ## Shells -/

theorem free_scroll {child : Expr} (hchild : Free child) : Free (Page.scroll child) :=
  free_named (by decide) (by simp [hchild])

theorem free_shell {mode : GenerationMode} {decoration : Option Expr} {inner : Expr}
    (hdecoration : ∀ e ∈ decoration, Free e) (hinner : Free inner) :
    Free (Page.shell mode decoration inner) := by
  cases mode with
  | raw => exact hinner
  | scaffold =>
    have hbody : Free (.named "Container" (("width", .extent .available) ::
        Expr.optional "decoration" decoration ++ [Expr.child (Page.scroll inner)])) :=
      free_named (by decide) (by simpa [free_scroll hinner] using hdecoration)
    exact free_named (by decide) (freeArguments_cons.mpr ⟨hbody, freeArguments_nil⟩)
  | fit =>
    have hfitted : Free (Page.scroll (.named "FittedBox" [
        ("alignment", .ident "Alignment.topLeft"), ("fit", .ident "BoxFit.fitWidth"),
        Expr.child inner])) :=
      free_scroll (free_named (by decide) (by simp [hinner]))
    cases decoration with
    | none => exact hfitted
    | some decoration =>
      exact free_named (by decide) (by simp [hfitted, hdecoration])

theorem free_wrapRoot {widget : Expr} {style : ResolvedStyle} {mode : GenerationMode}
    (hwidget : Free widget) : Free (Page.wrapRoot widget style mode) := by
  have hshell :
      Free (Page.shell mode (style.decoration.toExpr? false) (Page.unwrapFlex widget)) := by
    rw [hwidget.unwrapFlex_eq]
    exact free_shell (fun e he => free_decoration he) hwidget
  rw [Page.wrapRoot]
  split
  · exact fun place => (hshell place).markAvailable _ _
  · exact hshell

/-- The widget of a document keeps the discipline, by itself and in every shell. The root is no flex
    wrapper, so none is taken off it. -/
theorem parentData_synthesize (scene : Scene) (root : Node) (assets : AssetRegistry) :
    let widget := (scene.synthesize root assets).1.widget
    ParentData widget ∧ Page.unwrapFlex widget = widget ∧
      ∀ style mode, ParentData (Page.wrapRoot widget style mode) := by
  intro widget
  have hwidget : Free widget := scene.free_synthesize root assets
  exact ⟨hwidget .root, hwidget.unwrapFlex_eq, fun style mode => free_wrapRoot hwidget .root⟩

end DesignCompiler.Synthesis
