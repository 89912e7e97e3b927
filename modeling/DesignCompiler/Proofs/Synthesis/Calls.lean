import DesignCompiler.Proofs.Dart.Nesting
import DesignCompiler.Proofs.Synthesis.ParentData

/-!
# Calls in widgets

The widgets that show an asset or take input are the leaves that the rest of a tree is built around.
All other calls are plain ones, of fixed callees. A property that all plain calls have holds of
every call in a composed widget as soon as it holds of the calls in its parts.
-/

namespace DesignCompiler.Synthesis

open Dart Style

/-- The widgets that show an asset. -/
def assetWidgets : List String := [vectorWidget, "Image.asset"]

/-- The widgets that take input. -/
def inputWidgets : List String := ["AppInput", "_GeneratedDateTimeField"]

theorem ownsInputBackground_iff {widget : Expr} :
    Control.ownsInputBackground widget = true ↔
      ∃ callee ∈ inputWidgets, ∃ args named, widget = .call callee args named := by
  simp [Control.ownsInputBackground, inputWidgets, isCallOf_iff]

/-- The widgets that show an asset or take input. -/
def leafWidgets : List String := assetWidgets ++ inputWidgets

/-- The callees of all other calls in a widget: other widgets, styles and values. -/
def plainCallees : List String := [
  "Row", "Column", "Stack", "Positioned", "Expanded", "SizedBox", "SizedBox.shrink", "OverflowBox",
  "Container", "Transform.rotate", "ClipRRect", "ClipRect",
  "Text", "AppTextGradient", "RichText", "TextSpan", "WidgetSpan", "Image.network",
  "RippleButton", "AppRadioOption", "_GeneratedRadioGroup", "_GeneratedCheckbox",
  "Scaffold", "SingleChildScrollView", "FittedBox", "DecoratedBox",
  "BoxDecoration", "BoxShadow", "Border.all", "BorderRadius.only", "BorderRadius.circular",
  "Radius.circular", "EdgeInsets.fromLTRB", "Offset", "LinearGradient", "TextStyle",
  "AppColors.fromHex", "AppColors.primaryBackgroundGradient", "DateTime"]

/-- Every call nested in the expression has a callee and positional arguments with a property. -/
def CallsIn (Q : String → List Expr → Prop) (e : Expr) : Prop :=
  ∀ callee args named, Nested (.call callee args named) e → Q callee args

/-- The same for the named arguments of a call. -/
def ArgumentCallsIn (Q : String → List Expr → Prop) (arguments : List Argument) : Prop :=
  ∀ argument ∈ arguments, CallsIn Q argument.2

/-- Every leaf nested in the expression is called with positional arguments that have a property. -/
def LeavesIn (Q : String → List Expr → Prop) (e : Expr) : Prop :=
  ∀ callee args named, Nested (.call callee args named) e → callee ∈ leafWidgets → Q callee args

/-- A property of calls that all plain calls have. -/
class AllowsPlain (Q : String → List Expr → Prop) : Prop where
  allows : ∀ callee args, callee ∈ plainCallees → Q callee args

theorem CallsIn.leavesIn {Q : String → List Expr → Prop} {e : Expr} (he : CallsIn Q e) :
    LeavesIn Q e :=
  fun callee args named hnested _ => he callee args named hnested

section

variable {Q R : String → List Expr → Prop}

theorem CallsIn.mono {e : Expr} (he : CallsIn Q e)
    (hmono : ∀ callee args, Q callee args → R callee args) : CallsIn R e :=
  fun callee args named hnested => hmono _ _ (he callee args named hnested)

theorem CallsIn.nested {sub e : Expr} (he : CallsIn Q e) (hsub : Nested sub e) : CallsIn Q sub :=
  fun callee args named hnested => he callee args named (hnested.trans hsub)

theorem callsIn_leaf {callee : String} {args : List Expr} {named : List Argument}
    (hcallee : Q callee args) (hargs : ∀ arg ∈ args, CallsIn Q arg)
    (hnamed : ArgumentCallsIn Q named) : CallsIn Q (.call callee args named) := by
  intro inner _ _ hnested
  cases hnested with
  | here => exact hcallee
  | positional hmem hinside => exact hargs _ hmem _ _ _ hinside
  | named hmem hinside => exact hnamed _ hmem _ _ _ hinside

theorem callsIn_list {items : List Expr} (hitems : ∀ item ∈ items, CallsIn Q item) :
    CallsIn Q (.list items) := by
  intro inner _ _ hnested
  cases hnested with
  | element hmem hinside => exact hitems _ hmem _ _ _ hinside

@[simp]
theorem callsIn_str (text : String) : CallsIn Q (.str text) := by
  intro inner _ _ hnested
  cases hnested

@[simp]
theorem callsIn_num (value : Float) : CallsIn Q (.num value) := by
  intro inner _ _ hnested
  cases hnested

@[simp]
theorem callsIn_bool (value : Bool) : CallsIn Q (.bool value) := by
  intro inner _ _ hnested
  cases hnested

@[simp]
theorem callsIn_ident (path : String) : CallsIn Q (.ident path) := by
  intro inner _ _ hnested
  cases hnested

@[simp]
theorem callsIn_extent (width : Extent) : CallsIn Q (.extent width) := by
  intro inner _ _ hnested
  cases hnested

@[simp]
theorem argumentCallsIn_nil : ArgumentCallsIn Q [] := by simp [ArgumentCallsIn]

@[simp]
theorem argumentCallsIn_cons {argument : Argument} {arguments : List Argument} :
    ArgumentCallsIn Q (argument :: arguments) ↔
      CallsIn Q argument.2 ∧ ArgumentCallsIn Q arguments := by
  simp [ArgumentCallsIn]

@[simp]
theorem argumentCallsIn_append {front back : List Argument} :
    ArgumentCallsIn Q (front ++ back) ↔
      ArgumentCallsIn Q front ∧ ArgumentCallsIn Q back := by
  simp [ArgumentCallsIn, or_imp, forall_and]

@[simp]
theorem argumentCallsIn_optional {name : String} {value : Option Expr} :
    ArgumentCallsIn Q (Expr.optional name value) ↔ ∀ e ∈ value, CallsIn Q e := by
  cases value <;> simp [ArgumentCallsIn, Expr.optional]

theorem argumentCallsIn_optional_map {α : Type} {name : String} {value : Option α} {f : α → Expr}
    (hf : ∀ x, CallsIn Q (f x)) : ArgumentCallsIn Q (Expr.optional name (value.map f)) := by
  cases value <;> simp [hf]

@[simp]
theorem callsIn_child {e : Expr} : CallsIn Q (Expr.child e).2 ↔ CallsIn Q e := Iff.rfl

@[simp]
theorem callsIn_children {items : List Expr} :
    CallsIn Q (Expr.children items).2 ↔ ∀ item ∈ items, CallsIn Q item :=
  ⟨fun h _ hitem => h.nested (.element hitem .here), callsIn_list⟩

theorem argumentCallsIn_size (width height : Option Float) :
    ArgumentCallsIn Q (sizeArguments width height) := by simp [sizeArguments]

variable [AllowsPlain Q]

theorem callsIn_call {callee : String} {args : List Expr} {named : List Argument}
    (hcallee : callee ∈ plainCallees) (hargs : ∀ arg ∈ args, CallsIn Q arg)
    (hnamed : ArgumentCallsIn Q named) : CallsIn Q (.call callee args named) :=
  callsIn_leaf (AllowsPlain.allows callee args hcallee) hargs hnamed

theorem callsIn_named {callee : String} {arguments : List Argument}
    (hcallee : callee ∈ plainCallees)
    (harguments : ArgumentCallsIn Q arguments) : CallsIn Q (.named callee arguments) :=
  callsIn_call hcallee (by simp) harguments

/-! ## Styles -/

@[simp]
theorem callsIn_color (color : Color) : CallsIn Q color.toExpr := by
  cases color with
  | argb rgba => exact callsIn_call (by decide) (by simp) (by simp)
  | _ => exact callsIn_ident _

@[simp]
theorem callsIn_insets (insets : Insets) : CallsIn Q insets.toExpr :=
  callsIn_call (by decide) (by simp) (by simp)

@[simp]
theorem callsIn_radius (corners : Corners) : CallsIn Q (radiusExpr corners) := by
  have hcircular : ∀ radius, CallsIn Q (.call "Radius.circular" [.num radius] []) := fun radius =>
    callsIn_call (by decide) (by simp) (by simp)
  rw [radiusExpr]
  split
  · exact callsIn_call (by decide) (by simp) (by simp)
  · exact callsIn_named (by decide) (by simp [hcircular])

@[simp]
theorem callsIn_border (border : Border) : CallsIn Q border.toExpr :=
  callsIn_named (by decide) (by simp)

@[simp]
theorem callsIn_shadow (shadow : BoxShadow) : CallsIn Q shadow.toExpr := by
  have hoffset : CallsIn Q (.call "Offset" [.num shadow.offsetX, .num shadow.offsetY] []) :=
    callsIn_call (by decide) (by simp) (by simp)
  exact callsIn_named (by decide) (by simp [hoffset])

@[simp]
theorem callsIn_linearGradient (gradient : LinearGradient) : CallsIn Q gradient.toExpr := by
  have hcolors : CallsIn Q (.list (gradient.colors.map Color.toExpr)) := callsIn_list (by simp)
  exact callsIn_named (by decide) (by simp [hcolors])

@[simp]
theorem callsIn_gradient (gradient : Gradient) : CallsIn Q gradient.toExpr := by
  cases gradient with
  | linear gradient => exact callsIn_linearGradient gradient
  | themeDefault => exact callsIn_call (by decide) (by simp) (by simp)

@[simp]
theorem callsIn_textStyle (style : TextStyle) : CallsIn Q style.toExpr :=
  callsIn_named (by decide) (by simp)

theorem callsIn_decoration {decoration : Decoration} {omitBackground : Bool} {e : Expr}
    (he : decoration.toExpr? omitBackground = some e) : CallsIn Q e := by
  have hshadows : CallsIn Q (.list (decoration.shadows.map BoxShadow.toExpr)) :=
    callsIn_list (by simp)
  rw [Decoration.toExpr?, Option.ite_none_left_eq_some] at he
  obtain rfl := Option.some.inj he.2
  refine callsIn_named (by decide) ?_
  simp only [argumentCallsIn_append, argumentCallsIn_optional]
  refine ⟨⟨⟨⟨?_, by simp⟩, by simp⟩, by simp⟩, ?_⟩
  · cases omitBackground <;> simp
  · split <;> simp [hshadows]

theorem callsIn_rotate {style : ResolvedStyle} {widget : Expr} (hwidget : CallsIn Q widget) :
    CallsIn Q (style.rotate widget) := by
  unfold ResolvedStyle.rotate rotated
  split
  · exact callsIn_named (by decide) (by simp [hwidget])
  · exact hwidget

theorem callsIn_clip {style : ResolvedStyle} {widget : Expr} (hwidget : CallsIn Q widget) :
    CallsIn Q (style.clip widget) := by
  unfold ResolvedStyle.clip
  split
  · split
    · exact callsIn_named (by decide) (by simp [hwidget])
    · exact callsIn_named (by decide) (by simp [hwidget])
  · exact hwidget

/-! ## Controls -/

theorem callsIn_textInput
    (hinput : ∀ callee args, callee ∈ inputWidgets → Q callee args)
    (element : Markup.Element) (inputType : String) (texts : List String) :
    CallsIn Q (Control.textInput element inputType texts) := by
  have hdate : ∀ seed : Control.DateSeed, CallsIn Q seed.toExpr := fun seed =>
    callsIn_call (by decide) (by simp) (by simp)
  unfold Control.textInput
  dsimp only
  refine iteInduction (motive := CallsIn Q) (fun _ => ?_) fun _ => ?_
  · refine callsIn_leaf (hinput _ _ (by decide)) (by simp) ?_
    exact argumentCallsIn_append.mpr ⟨by simp, argumentCallsIn_optional_map hdate⟩
  · refine callsIn_leaf (hinput _ _ (by decide)) (by simp) ?_
    refine argumentCallsIn_append.mpr ⟨by simp, ?_⟩
    split <;> simp

/-- A control shows no asset; at most it takes input. -/
theorem callsIn_semantic
    (hinput : ∀ callee args, callee ∈ inputWidgets → Q callee args)
    {vocabulary : Vocabulary} {styles : StyleTable} {element : Markup.Element}
    {children : List Markup.Node} {semantic : Control.Semantic}
    (hsemantic : Control.semantic? vocabulary styles element children = some semantic) :
    CallsIn Q semantic.widget := by
  have hripple : ∀ title, CallsIn Q (Control.rippleButton title) := fun title =>
    callsIn_named (by decide) (by simp)
  have hoption : ∀ label, CallsIn Q (Control.radioOptionExpr label) := fun label =>
    callsIn_named (by decide) (by simp)
  obtain ⟨kind, -, hkind⟩ := List.exists_of_findSome?_eq_some hsemantic
  cases kind with
  | checkbox =>
    simp only [Control.build?, Control.checkbox?, Option.bind_eq_bind, Option.bind_eq_some_iff,
      Option.pure_def, Option.some.injEq] at hkind
    obtain ⟨box, -, title, -, rfl⟩ := hkind
    refine callsIn_named (by decide) (argumentCallsIn_append.mpr ⟨by simp, ?_⟩)
    exact argumentCallsIn_optional_map callsIn_color
  | radioGroup =>
    simp only [Control.build?, Control.radioGroup?, Option.bind_eq_bind, Option.bind_eq_some_iff,
      Option.pure_def, Option.some.injEq] at hkind
    obtain ⟨options, -, -, -, selected, -, rfl⟩ := hkind
    have hoptions : CallsIn Q
        (.list (options.map fun option => Control.radioOptionExpr option.label)) :=
      callsIn_list (by simp [hoption])
    refine callsIn_named (by decide) ?_
    simp only [argumentCallsIn_append]
    exact ⟨⟨by simp [hoptions], argumentCallsIn_optional_map callsIn_color⟩,
      argumentCallsIn_optional_map callsIn_color⟩
  | button =>
    rw [Control.build?, Control.button?] at hkind
    split at hkind
    · obtain rfl := Option.some.inj hkind
      exact hripple _
    · obtain ⟨title, -, rfl⟩ := Option.map_eq_some_iff.mp hkind
      exact hripple title
  | input =>
    rw [Control.build?, Control.input?] at hkind
    obtain ⟨head, -, rfl⟩ := Option.map_eq_some_iff.mp hkind
    dsimp only
    split
    · have hoptions : ∀ label, CallsIn Q (.list [Control.radioOptionExpr label]) := fun label =>
        callsIn_list (by simp [hoption])
      exact callsIn_named (by decide) (by simp [hoptions])
    · exact callsIn_textInput hinput head _ _

/-! ## Boxes and stacks -/

theorem callsIn_placeholder : CallsIn Q placeholder :=
  callsIn_call (by decide) (by simp) (by simp)

theorem callsIn_sized {widget : Expr} {size : Size} (hwidget : CallsIn Q widget) :
    CallsIn Q (sized widget size) := by
  unfold sized
  split
  · exact hwidget
  · exact callsIn_named (by decide) (by simp [argumentCallsIn_size, hwidget])

theorem callsIn_overflowBox {enabled : Bool} {body : Expr} {size : Size} (hbody : CallsIn Q body) :
    CallsIn Q (overflowBox enabled body size) := by
  unfold overflowBox
  dsimp only
  split
  · split
    · refine callsIn_named (by decide) ?_
      simp only [argumentCallsIn_cons, callsIn_ident, callsIn_num, true_and,
        argumentCallsIn_nil, and_true]
      refine ⟨?_, ?_, hbody⟩
      · split <;> simp
      · split <;> simp
    · exact hbody
  · exact hbody

theorem callsIn_container {style : ResolvedStyle} {decoration : Option Expr} {content : Expr}
    (hdecoration : ∀ e ∈ decoration, CallsIn Q e) (hcontent : CallsIn Q content) :
    CallsIn Q (container style decoration content) := by
  unfold container
  dsimp only
  split
  · exact hcontent
  · refine callsIn_named (by decide) ?_
    simp only [argumentCallsIn_append, argumentCallsIn_optional]
    exact ⟨⟨⟨by simp, by simp⟩, hdecoration⟩, by simp [hcontent]⟩

theorem callsIn_finalizeBox {options : CompileOptions} {subject : Subject} {body : Expr}
    {size : Size} {inputOwned : Bool} (hbody : CallsIn Q body) :
    CallsIn Q (finalizeBox options subject body size inputOwned) := by
  refine callsIn_container (fun e he => ?_) ?_
  · split at he
    · cases he
    · exact callsIn_decoration he
  · split
    · exact callsIn_named (by decide)
        (by simp [argumentCallsIn_size, callsIn_overflowBox hbody])
    · exact hbody

theorem callsIn_flexBox {config : FlexConfig} {kids : List Part} {determinate : Bool}
    (hkids : ∀ kid ∈ kids, CallsIn Q kid.widget) : CallsIn Q (flexBox config kids determinate) := by
  have hchild : ∀ kid ∈ kids, CallsIn Q (flexChild determinate kid) := by
    intro kid hkid
    unfold flexChild
    split
    · exact callsIn_named (by decide) (by simp [hkids kid hkid])
    · exact hkids kid hkid
  have hgap : ∀ gap, CallsIn Q (gapBox config.axis gap) := fun gap =>
    callsIn_named (by decide) (by simp)
  have hchildren : ∀ widget ∈ withGaps config (kids.map (flexChild determinate)),
      CallsIn Q widget := by
    intro widget hwidget
    obtain hmem | ⟨gap, rfl⟩ := mem_withGaps hwidget
    · obtain ⟨kid, hkid, rfl⟩ := List.mem_map.mp hmem
      exact hchild kid hkid
    · exact hgap gap
  unfold flexBox
  split
  · exact callsIn_named (by decide) (by simpa using hchildren)
  · exact callsIn_named (by decide) (by simpa using hchildren)

theorem callsIn_composeFlow {flex : Option FlexConfig} {kids : List Part}
    {hasAbsolute determinate : Bool} {body : Expr} (hkids : ∀ kid ∈ kids, CallsIn Q kid.widget)
    (hbody : composeFlow flex kids hasAbsolute determinate = some body) : CallsIn Q body := by
  rw [composeFlow.eq_def] at hbody
  split at hbody
  · cases hbody
  · obtain rfl := Option.some.inj hbody
    exact callsIn_flexBox hkids
  · split at hbody
    · obtain rfl := Option.some.inj hbody
      exact hkids _ List.mem_cons_self
    · obtain rfl := Option.some.inj hbody
      refine callsIn_named (by decide) ?_
      simpa using hkids

theorem callsIn_simplifyIcon {widget icon : Expr} {size : Size} (hwidget : CallsIn Q widget)
    (hicon : simplifyIcon? widget size = some icon) : CallsIn Q icon := by
  obtain ⟨found, hfound, rfl⟩ := Option.map_eq_some_iff.mp hicon
  exact callsIn_sized (hwidget.nested (mem_subterms_iff.mp (List.mem_of_find?_eq_some hfound)))

theorem callsIn_layer {thresholds : Thresholds} {kid : Part} (hkid : CallsIn Q kid.widget) :
    CallsIn Q (layer thresholds kid) := by
  have hpositioned : CallsIn Q (positioned (edgesOf kid) kid.widget) := by
    unfold positioned
    split
    · exact hkid
    · exact callsIn_named (by decide) (by simp [hkid])
  unfold layer
  dsimp only
  split
  · cases hicon : simplifyIcon? kid.widget kid.size with
    | none => exact hpositioned
    | some icon => exact callsIn_simplifyIcon hkid hicon
  · exact hpositioned

theorem callsIn_composeStack {flowBody : Option Expr} {kids : List Part} {isRoot : Bool}
    {thresholds : Thresholds} (hbody : ∀ body ∈ flowBody, CallsIn Q body)
    (hkids : ∀ kid ∈ kids, CallsIn Q kid.widget) :
    CallsIn Q (composeStack flowBody kids isRoot thresholds) := by
  have hlayers : ∀ others : List Part, (∀ kid ∈ others, kid ∈ kids) →
      ∀ widget ∈ others.map (layer thresholds), CallsIn Q widget := by
    intro others hothers widget hwidget
    obtain ⟨kid, hkid, rfl⟩ := List.mem_map.mp hwidget
    exact callsIn_layer (hkids kid (hothers kid hkid))
  have hall : ∀ widget ∈ stackLayers flowBody kids isRoot thresholds, CallsIn Q widget := by
    rw [stackLayers.eq_def]
    split
    · exact List.forall_mem_cons.mpr ⟨hbody _ rfl, hlayers kids fun _ h => h⟩
    · split
      · rw [List.forall_mem_append]
        refine ⟨fun widget hwidget => ?_, hlayers _ fun _ h => List.mem_of_mem_eraseIdx h⟩
        obtain ⟨kid, hkid, rfl⟩ := Option.map_eq_some_iff.mp (Option.mem_toList.mp hwidget)
        exact hkids kid (List.mem_of_getElem? hkid)
      · rw [List.forall_mem_append]
        refine ⟨fun widget hwidget => ?_, hlayers kids fun _ h => h⟩
        have hextent := Option.mem_toList.mp hwidget
        rw [extentBox?, Option.ite_none_left_eq_some] at hextent
        obtain rfl := Option.some.inj hextent.2
        exact callsIn_named (by decide) (argumentCallsIn_size _ _)
  exact callsIn_named (by decide) (by simpa using hall)

/-- The calls in a composed element are plain ones and those in its parts. -/
theorem callsIn_compose {options : CompileOptions} {subject : Subject} {semantic : Option Expr}
    {kids : List Part} (hsemantic : ∀ widget ∈ semantic, CallsIn Q widget)
    (hkids : ∀ kid ∈ kids, CallsIn Q kid.widget) :
    CallsIn Q (compose options subject semantic kids).widget := by
  have hflow : ∀ hasAbsolute size,
      ∀ body ∈ flowBody? subject semantic (kids.filter (!·.isAbsolute)) hasAbsolute size,
        CallsIn Q body := by
    intro hasAbsolute size body hbody
    rw [flowBody?.eq_def] at hbody
    split at hbody
    · obtain rfl := Option.some.inj hbody
      exact hsemantic _ rfl
    · exact callsIn_composeFlow (fun kid hkid => hkids kid (List.mem_filter.mp hkid).1) hbody
  refine callsIn_rotate (callsIn_clip (callsIn_finalizeBox ?_))
  split
  · cases hbody : flowBody? subject semantic _ _ _ with
    | none => exact callsIn_placeholder
    | some body => exact hflow _ _ body hbody
  · exact callsIn_composeStack (hflow _ _) fun kid hkid =>
      hkids kid (List.mem_filter.mp (List.mem_mergeSort.mp hkid)).1

/-! ## Text -/

theorem callsIn_textRun {raw : String} {style : ResolvedStyle} {widget : Expr}
    (hwidget : textRun? raw style = some widget) : CallsIn Q widget := by
  rw [textRun?, Option.ite_none_left_eq_some] at hwidget
  replace hwidget := hwidget.2
  split at hwidget
  · obtain rfl := Option.some.inj hwidget
    exact callsIn_named (by decide) (by simp)
  · obtain rfl := Option.some.inj hwidget
    exact callsIn_call (by decide) (by simp) (by simp)

theorem callsIn_textSpan (content : String) (style : Option TextStyle) :
    CallsIn Q (textSpan content style) := callsIn_named (by decide) (by simp)

theorem callsIn_spanOfText {raw : String} {style : Option TextStyle} :
    ∀ span ∈ spanOfText raw style, CallsIn Q span := by
  intro span hspan
  unfold spanOfText at hspan
  dsimp only at hspan
  split at hspan
  · cases hspan
  · obtain rfl := List.mem_singleton.mp hspan
    exact callsIn_textSpan _ style

theorem callsIn_paragraph {subject : Subject} {spans : List Expr}
    (hspans : ∀ span ∈ spans, CallsIn Q span) :
    CallsIn Q (Scene.paragraph subject spans).widget := by
  refine callsIn_rotate ?_
  split
  · exact callsIn_placeholder
  · have htext : CallsIn Q (.named "TextSpan" [Expr.children spans]) :=
      callsIn_named (by decide) (by simpa using hspans)
    exact callsIn_named (by decide) (by simp [htext])

theorem callsIn_image {subject : Subject} {widget : Expr} (hwidget : CallsIn Q widget) :
    CallsIn Q (subject.image widget).widget := by
  unfold Subject.image
  split
  · exact hwidget
  · exact callsIn_rotate hwidget

theorem callsIn_box {scene : Scene} {subject : Subject} {children : List Markup.Node}
    {kids : List Part} (hkids : ∀ kid ∈ kids, CallsIn Q kid.widget) :
    CallsIn Q (scene.box subject children kids).widget := by
  unfold Scene.box
  dsimp only
  split
  · rename_i icon hicon
    split at hicon
    · unfold Scene.simplifiedIcon? at hicon
      split at hicon
      · rw [Option.ite_none_left_eq_some] at hicon
        exact callsIn_simplifyIcon (hkids _ List.mem_cons_self) hicon.2
      · cases hicon
    · cases hicon
  · exact callsIn_compose (by simp) hkids

/-! ## Shells -/

theorem callsIn_shell {mode : GenerationMode} {decoration : Option Expr} {inner : Expr}
    (hdecoration : ∀ e ∈ decoration, CallsIn Q e) (hinner : CallsIn Q inner) :
    CallsIn Q (Page.shell mode decoration inner) := by
  have hscroll : ∀ child, CallsIn Q child → CallsIn Q (Page.scroll child) := fun child hchild =>
    callsIn_named (by decide) (by simp [hchild])
  cases mode with
  | raw => exact hinner
  | scaffold =>
    have hbody : CallsIn Q (.named "Container" (("width", .extent .available) ::
        Expr.optional "decoration" decoration ++ [Expr.child (Page.scroll inner)])) :=
      callsIn_named (by decide) (by simpa [hscroll inner hinner] using hdecoration)
    exact callsIn_named (by decide) (argumentCallsIn_cons.mpr ⟨hbody, argumentCallsIn_nil⟩)
  | fit =>
    have hfitted : CallsIn Q (Page.scroll (.named "FittedBox" [
        ("alignment", .ident "Alignment.topLeft"), ("fit", .ident "BoxFit.fitWidth"),
        Expr.child inner])) :=
      hscroll _ (callsIn_named (by decide) (by simp [hinner]))
    cases decoration with
    | none => exact hfitted
    | some decoration => exact callsIn_named (by decide) (by simp [hfitted, hdecoration])

/-- The shell of the root adds plain calls, and marking its widths changes no callee. -/
theorem callsIn_wrapRoot {widget : Expr} {style : ResolvedStyle} {mode : GenerationMode}
    (hfree : Free widget) (hwidget : CallsIn Q widget)
    (hmark : ∀ width callee args, Q callee args → Q callee (args.map (Expr.markAvailable width))) :
    CallsIn Q (Page.wrapRoot widget style mode) := by
  have hshell : CallsIn Q
      (Page.shell mode (style.decoration.toExpr? false) (Page.unwrapFlex widget)) := by
    rw [hfree.unwrapFlex_eq]
    exact callsIn_shell (fun e he => callsIn_decoration he) hwidget
  unfold Page.wrapRoot
  dsimp only
  split
  · rename_i width _
    intro callee args named hnested
    obtain ⟨inner, hinner, heq⟩ := hnested.exists_of_markAvailable
    obtain ⟨items, arguments, rfl, rfl, -⟩ := exists_of_markAvailable_eq_call heq.symm
    exact hmark width _ _ (hshell _ _ _ hinner)
  · exact hshell

end

end DesignCompiler.Synthesis
