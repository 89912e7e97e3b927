import DesignCompiler.Proofs.Synthesis.Composition
import DesignCompiler.Proofs.Synthesis.Tracking
import DesignCompiler.Proofs.Text.Trimming

/-!
# Shown text

Synthesis shows every run of text that is not blank, trimmed, in a text widget or a span. Text is
lost in one place only: an element of the size of an icon that is placed or rotated can be reduced
to a vector icon in it, whatever else it holds.
-/

namespace DesignCompiler.Synthesis

open Dart Style Markup Asset

/-- The widget or span of a text. -/
def IsTextOf (content : String) : Expr → Prop
  | .call callee args named =>
    (callee = "Text" ∧ args.head? = some (.str content)) ∨
      ((callee = "AppTextGradient" ∨ callee = "TextSpan") ∧ ("text", .str content) ∈ named)
  | _ => False

/-- The text is shown somewhere in the widget. -/
def ShowsText (content : String) (widget : Expr) : Prop :=
  ∃ sub, Nested sub widget ∧ IsTextOf content sub

theorem ShowsText.of_nested {content : String} {sub widget : Expr} (hsub : ShowsText content sub)
    (hnested : Nested sub widget) : ShowsText content widget := by
  obtain ⟨text, htext, hcontent⟩ := hsub
  exact ⟨text, htext.trans hnested, hcontent⟩

/-! ## Runs of text -/

/-- A run of text in a tree, with the elements that it is inside of and their children, from the
root on. -/
inductive RunIn (raw : String) : List (Element × List Node) → Node → Prop where
  | here : RunIn raw [] (.text raw)
  | inside {enclosing : List (Element × List Node)} {element : Element} {children : List Node}
      {child : Node} :
      child ∈ children → RunIn raw enclosing child →
      RunIn raw ((element, children) :: enclosing) (.element element children)

/-- The node holds an image that is not fetched from the network, and so may be a vector icon. -/
def HoldsIcon (node : Node) : Prop :=
  ∃ image children, .element image children ∈ node.subtrees ∧ image.tag = "img" ∧
    Scene.isNetworkImage (imageSource image) = false

/-- The element does not replace the text in it: it is no image and no line break, and if it has the
size of an icon and is placed or rotated it holds no icon. -/
structure KeepsText (scene : Scene) (element : Element) (children : List Node) : Prop where
  not_image : element.tag ≠ "img"
  not_break : element.tag ≠ "br"
  no_icon : (scene.subject false element).stripsPlacement = true →
    ¬ HoldsIcon (.element element children)

/-- A trimmed run of text in the tree that is not blank and is not replaced. -/
def HoldsText (scene : Scene) (content : String) (node : Node) : Prop :=
  ∃ raw enclosing, RunIn raw enclosing node ∧ (∀ e ∈ enclosing, KeepsText scene e.1 e.2) ∧
    content = Text.onChars Text.trim raw ∧ content ≠ ""

theorem HoldsText.element {scene : Scene} {content : String} {element : Element}
    {children : List Node} (hholds : HoldsText scene content (.element element children)) :
    KeepsText scene element children ∧ ∃ child ∈ children, HoldsText scene content child := by
  obtain ⟨raw, enclosing, hrun, hkeeps, hcontent⟩ := hholds
  cases hrun with
  | inside hchild hinside =>
    rw [List.forall_mem_cons] at hkeeps
    exact ⟨hkeeps.1, _, hchild, raw, _, hinside, hkeeps.2, hcontent⟩

theorem HoldsText.text {scene : Scene} {content raw : String}
    (hholds : HoldsText scene content (.text raw)) :
    content = Text.onChars Text.trim raw ∧ content ≠ "" := by
  obtain ⟨_, _, hrun, -, hcontent⟩ := hholds
  cases hrun
  exact hcontent

/-- No element in the tree is a form control. -/
def NoControls (scene : Scene) (node : Node) : Prop :=
  ∀ element children, .element element children ∈ node.subtrees →
    Control.semantic? scene.options.vocabulary scene.styles element children = none

theorem NoControls.child {scene : Scene} {element : Element} {children : List Node}
    (hnode : NoControls scene (.element element children)) :
    ∀ child ∈ children, NoControls scene child :=
  fun _ hchild _ _ hsub => hnode _ _ (mem_subtrees_of_child hchild hsub)

/-! ## Icons -/

/-- A call takes no input, and it is a vector icon only under a condition. -/
def IsIconOnly (allowed : Prop) (callee : String) (_args : List Expr) : Prop :=
  callee ∉ inputWidgets ∧ (callee = vectorWidget → allowed)

instance (allowed : Prop) : AllowsPlain (IsIconOnly allowed) where
  allows callee _ hplain := by
    constructor
    · revert callee
      decide
    · rintro rfl
      exact absurd hplain (by decide)

/-- The calls in a tree without controls, whatever the assets are. -/
def iconTracker (allowed : Prop) : Tracker where
  Valid _ := True
  Grows _ _ := True
  Shows _ := IsIconOnly allowed
  refl _ := trivial
  trans _ _ _ _ _ := trivial
  mono _ _ _ _ _ h := h
  plain _ := inferInstance

theorem admits_icons {scene : Scene} {node : Node} (hcontrols : NoControls scene node) :
    (iconTracker (HoldsIcon node)).Admits scene node := by
  intro element children hmem
  constructor
  · intro semantic assets hsemantic
    rw [hcontrols element children hmem] at hsemantic
    cases hsemantic
  · intro htag isRoot assets _
    refine Tracker.at_image trivial fun hlocal => ?_
    have hallowed : HoldsIcon node := ⟨element, children, hmem, htag, hlocal⟩
    refine ⟨trivial, trivial, fun found hfound => ?_, fun _ _ _ => ⟨by decide, fun _ => hallowed⟩⟩
    refine ⟨callsIn_reference hfound, fun callee hcallee => ⟨?_, fun _ => hallowed⟩⟩
    revert callee
    decide

variable {scene : Scene} {assets : AssetRegistry}

theorem vectorIcon?_eq_none {allowed : Prop} {widget : Expr}
    (hleaves : CallsIn (IsIconOnly allowed) widget) (hallowed : ¬ allowed) :
    vectorIcon? widget = none := by
  unfold vectorIcon?
  rw [List.find?_eq_none]
  intro sub hsub hcall
  obtain ⟨args, named, rfl⟩ := isCallOf_iff.mp hcall
  exact hallowed ((hleaves _ args named (mem_subterms_iff.mp hsub)).2 rfl)

/-- Without input fields the size of an element is the declared one. -/
theorem size_compose {options : CompileOptions} {subject : Subject} {kids : List Part}
    {allowed : Prop} (hkids : ∀ kid ∈ kids, CallsIn (IsIconOnly allowed) kid.widget) :
    (compose options subject none kids).size = subject.style.size := by
  have hinput : inputOwned none (kids.filter (!·.isAbsolute)) = false := by
    unfold inputOwned
    split
    · rename_i heq
      cases heq
    · rename_i only _ heq
      have hmem : only ∈ kids := by
        have : only ∈ kids.filter (!·.isAbsolute) := by rw [heq]; exact List.mem_cons_self
        exact (List.mem_filter.mp this).1
      rw [← Bool.not_eq_true, ownsInputBackground_iff]
      rintro ⟨callee, hcallee, args, named, hwidget⟩
      exact (hkids only hmem callee args named (by rw [hwidget]; exact .here)).1 hcallee
    · rfl
  unfold compose
  simp only [hinput]
  rfl

/-! ## Parts that show text -/

/-- The part shows the text, and no stack reduces it. -/
def Exposes (scene : Scene) (content : String) (part : Part) : Prop :=
  ShowsText content part.widget ∧ ¬ part.IsReduced scene.options.thresholds

/-- An element that keeps its text is not reduced. -/
theorem not_isReduced (isRoot : Bool) {element : Element} {children : List Node} {part : Part}
    (hkeeps : KeepsText scene element children)
    (hleaves : CallsIn (IsIconOnly (HoldsIcon (.element element children))) part.widget)
    (hplacement : part.placement = (scene.subject isRoot element).style.position)
    (hsize : part.size = (scene.subject isRoot element).style.size) :
    ¬ part.IsReduced scene.options.thresholds := by
  rintro ⟨habsolute, hsmall, hicon⟩
  apply hicon
  apply vectorIcon?_eq_none hleaves
  apply hkeeps.no_icon
  unfold Part.isAbsolute at habsolute
  rw [hplacement] at habsolute
  rw [hsize] at hsmall
  unfold Subject.stripsPlacement
  rw [Bool.and_eq_true, Bool.or_eq_true]
  exact ⟨.inl habsolute, hsmall⟩

theorem exposes_box {isRoot : Bool} {element : Element} {children : List Node} {kids : List Part}
    {kid : Part} {content : String} (hkeeps : KeepsText scene element children)
    (hleaves : ∀ kid ∈ kids,
      CallsIn (IsIconOnly (HoldsIcon (.element element children))) kid.widget)
    (hkid : kid ∈ kids) (hexposes : Exposes scene content kid) :
    Exposes scene content (scene.box (scene.subject isRoot element) children kids) := by
  have hicon : (if (scene.subject isRoot element).stripsPlacement then
      Scene.simplifiedIcon? (scene.subject isRoot element) children kids else none) = none := by
    split
    · rename_i hstrips
      unfold Scene.simplifiedIcon?
      split
      · split
        · rfl
        · rw [simplifyIcon?, vectorIcon?_eq_none (hleaves _ List.mem_cons_self)
            (hkeeps.no_icon hstrips)]
          rfl
      · rfl
    · rfl
  have hbox : scene.box (scene.subject isRoot element) children kids =
      compose scene.options (scene.subject isRoot element) none kids := by
    unfold Scene.box
    rw [hicon]
  rw [hbox]
  refine ⟨hexposes.1.of_nested (nested_compose hkid hexposes.2 .here), ?_⟩
  exact not_isReduced isRoot hkeeps (callsIn_compose (by simp) hleaves) rfl (size_compose hleaves)

/-! ## Runs and spans -/

theorem exists_textRun {content raw : String} (hcontent : content = Text.onChars Text.trim raw)
    (hne : content ≠ "") (style : ResolvedStyle) :
    ∃ widget, textRun? raw style = some widget ∧ ShowsText content widget := by
  have htrim : String.ofList (Text.trim raw.toList) = content := hcontent.symm
  unfold textRun?
  dsimp only
  rw [htrim, if_neg (by simpa using hne)]
  split
  · exact ⟨_, rfl, _, .here, .inr ⟨.inl rfl, List.mem_cons_self⟩⟩
  · exact ⟨_, rfl, _, .here, .inl ⟨rfl, rfl⟩⟩

theorem exists_spanOfText {content raw : String} (hcontent : content = Text.onChars Text.trim raw)
    (hne : content ≠ "") (style : Option TextStyle) :
    ∃ span ∈ spanOfText raw style, ShowsText content span := by
  have htrim : String.ofList (Text.trim raw.toList) = content := hcontent.symm
  unfold spanOfText
  dsimp only
  rw [htrim, if_neg (by simpa using hne)]
  exact ⟨_, List.mem_singleton.mpr rfl, _, .here, .inr ⟨.inr rfl, List.mem_cons_self⟩⟩

theorem exposes_paragraph {isRoot : Bool} {element : Element} {children : List Node}
    {spans : List Expr} {span : Expr} {content : String} (hkeeps : KeepsText scene element children)
    (hleaves : ∀ span ∈ spans, CallsIn (IsIconOnly (HoldsIcon (.element element children))) span)
    (hspan : span ∈ spans) (hshows : ShowsText content span) :
    Exposes scene content (Scene.paragraph (scene.subject isRoot element) spans) := by
  have hnested : Nested span (Scene.paragraph (scene.subject isRoot element) spans).widget := by
    refine nested_rotate ?_
    rw [if_neg (by simpa using List.ne_nil_of_mem hspan)]
    exact .of_mem_named List.mem_cons_self (.of_children List.mem_cons_self hspan .here)
  refine ⟨hshows.of_nested hnested, ?_⟩
  exact not_isReduced isRoot hkeeps (callsIn_paragraph hleaves) rfl rfl

/-! ## Trees -/

theorem yields_icons_kids {element : Element} {children : List Node}
    (hcontrols : NoControls scene (.element element children)) (style : ResolvedStyle) :
    Yields (fun kids => ∀ kid ∈ kids,
      CallsIn (IsIconOnly (HoldsIcon (.element element children))) kid.widget)
      (scene.kids style children) := fun assets =>
  (Tracker.at_kids style children assets (admits_icons hcontrols).child trivial).2.2

theorem yields_icons_spans {element : Element} {children : List Node}
    (hcontrols : NoControls scene (.element element children)) (style : Option TextStyle) :
    Yields (fun spans => ∀ span ∈ spans,
      CallsIn (IsIconOnly (HoldsIcon (.element element children))) span)
      (scene.spans style children) := fun assets =>
  (Tracker.at_spans style children assets (admits_icons hcontrols).child trivial).2.2

theorem Yields.and {α : Type} {P Q : α → Prop} {step : Synth α} (hP : Yields P step)
    (hQ : Yields Q step) : Yields (fun value => P value ∧ Q value) step :=
  fun assets => ⟨hP assets, hQ assets⟩

/-- Each text that one of the nodes holds is shown by one of the items. -/
def Covers {α : Type} (scene : Scene) (Shows : String → α → Prop) (nodes : List Node)
    (items : List α) : Prop :=
  ∀ content, (∃ node ∈ nodes, HoldsText scene content node) → ∃ item ∈ items, Shows content item

theorem covers_nil {α : Type} {Shows : String → α → Prop} : Covers scene Shows [] [] := by
  rintro content ⟨node, hnode, -⟩
  cases hnode

theorem Covers.cons {α : Type} {Shows : String → α → Prop} {node : Node} {nodes : List Node}
    {here others : List α}
    (hhere : ∀ content, HoldsText scene content node → ∃ item ∈ here, Shows content item)
    (hothers : Covers scene Shows nodes others) :
    Covers scene Shows (node :: nodes) (here ++ others) := by
  rintro content ⟨holder, hholder, hholds⟩
  obtain rfl | hrest := List.mem_cons.mp hholder
  · obtain ⟨item, hitem, hshows⟩ := hhere content hholds
    exact ⟨item, List.mem_append_left _ hitem, hshows⟩
  · obtain ⟨item, hitem, hshows⟩ := hothers content ⟨holder, hrest, hholds⟩
    exact ⟨item, List.mem_append_right _ hitem, hshows⟩

mutual

/-- The part of an element shows every text that the element holds. -/
theorem exposes_node (isRoot : Bool) (element : Element) (children : List Node)
    (hcontrols : NoControls scene (.element element children)) :
    Yields (fun part => ∀ content, HoldsText scene content (.element element children) →
      Exposes scene content part) (scene.node isRoot (.element element children)) := by
  rw [Scene.node, hcontrols element children (mem_subtrees_self element children)]
  dsimp only
  split
  · rename_i htag
    exact fun assets content hholds => absurd (beq_iff_eq.mp htag) hholds.element.1.not_image
  · split
    · refine yields_bind ((yields_icons_spans hcontrols _).and
        (exposes_spans _ children hcontrols.child)) fun spans hspans => yields_pure ?_
      intro content hholds
      obtain ⟨hkeeps, hinside⟩ := hholds.element
      obtain ⟨span, hspan, hshows⟩ := hspans.2 content hinside
      exact exposes_paragraph hkeeps hspans.1 hspan hshows
    · refine yields_bind ((yields_icons_kids hcontrols _).and
        (exposes_kids _ children hcontrols.child)) fun kids hkids => yields_pure ?_
      intro content hholds
      obtain ⟨hkeeps, hinside⟩ := hholds.element
      obtain ⟨kid, hkid, hexposes⟩ := hkids.2 content hinside
      exact exposes_box hkeeps hkids.1 hkid hexposes

theorem exposes_kids (style : ResolvedStyle) :
    ∀ nodes : List Node, (∀ node ∈ nodes, NoControls scene node) →
      Yields (Covers scene (Exposes scene) nodes) (scene.kids style nodes)
  | [], _ => by
    rw [Scene.kids]
    exact yields_pure covers_nil
  | .text raw :: rest, hcontrols => by
    rw [List.forall_mem_cons] at hcontrols
    rw [Scene.kids]
    refine yields_bind (exposes_kids style rest hcontrols.2) fun others hothers => yields_pure ?_
    refine .cons (fun content hholds => ?_) hothers
    obtain ⟨hcontent, hne⟩ := hholds.text
    obtain ⟨widget, hwidget, hshows⟩ := exists_textRun hcontent hne style
    refine ⟨.flow widget, ?_, hshows, fun hreduced => ?_⟩
    · rw [hwidget]
      exact List.mem_singleton.mpr rfl
    · cases hreduced.1
  | .element element children :: rest, hcontrols => by
    rw [List.forall_mem_cons] at hcontrols
    rw [Scene.kids]
    refine yields_bind (exposes_node false element children hcontrols.1) fun kid hkid => ?_
    refine yields_bind (exposes_kids style rest hcontrols.2) fun others hothers => yields_pure ?_
    have hhere : ∀ content, HoldsText scene content (.element element children) →
        ∃ shown ∈ [kid], Exposes scene content shown :=
      fun content hholds => ⟨kid, List.mem_cons_self, hkid content hholds⟩
    exact Covers.cons hhere hothers

theorem exposes_spans (style : Option TextStyle) :
    ∀ nodes : List Node, (∀ node ∈ nodes, NoControls scene node) →
      Yields (Covers scene ShowsText nodes) (scene.spans style nodes)
  | [], _ => by
    rw [Scene.spans]
    exact yields_pure covers_nil
  | .text raw :: rest, hcontrols => by
    rw [List.forall_mem_cons] at hcontrols
    rw [Scene.spans]
    refine yields_bind (exposes_spans style rest hcontrols.2) fun others hothers => yields_pure ?_
    refine .cons (fun content hholds => ?_) hothers
    obtain ⟨hcontent, hne⟩ := hholds.text
    exact exists_spanOfText hcontent hne style
  | .element element children :: rest, hcontrols => by
    rw [List.forall_mem_cons] at hcontrols
    rw [Scene.spans]
    have hhere : ∀ here : List Expr,
        (∀ content, HoldsText scene content (.element element children) →
          ∃ span ∈ here, ShowsText content span) →
        Yields (Covers scene ShowsText (.element element children :: rest))
          (do let others ← scene.spans style rest; return here ++ others) := fun here hshown =>
      yields_bind (exposes_spans style rest hcontrols.2) fun others hothers =>
        yields_pure (.cons hshown hothers)
    split
    · rename_i htag
      exact hhere _ fun content hholds => absurd (beq_iff_eq.mp htag) hholds.element.1.not_break
    · split
      · refine yields_bind (exposes_spans _ children hcontrols.1.child) fun inner hinner => ?_
        exact hhere inner fun content hholds => hinner content hholds.element.2
      · refine yields_bind (exposes_node false element children hcontrols.1)
          fun embedded hembedded => ?_
        refine hhere _ fun content hholds => ⟨_, List.mem_singleton.mpr rfl, ?_⟩
        exact (hembedded content hholds).1.of_nested (.of_child [] .here)

end

/-- In a tree without controls every run of text below the root that is not blank is shown, trimmed,
unless it is inside an image, a line break, or a placed or rotated element of the size of an icon
that holds an icon. -/
theorem showsText_synthesize (scene : Scene) (root : Node) (assets : AssetRegistry)
    (hcontrols : NoControls scene root) {raw : String} {enclosing : List (Element × List Node)}
    (hrun : RunIn raw enclosing root) (hbelow : enclosing ≠ [])
    (hkeeps : ∀ e ∈ enclosing, KeepsText scene e.1 e.2) (hblank : isBlankText raw = false) :
    ∃ sub ∈ (scene.synthesize root assets).1.widget.subterms,
      IsTextOf (Text.onChars Text.trim raw) sub := by
  cases hrun with
  | here => exact absurd rfl hbelow
  | @inside inner element children child hchild hinside =>
    have hne : Text.onChars Text.trim raw ≠ "" := by
      intro hempty
      have hnil : Text.trim raw.toList = [] := by
        simpa [Text.onChars] using congrArg String.toList hempty
      rw [isBlankText, Text.trim_eq_nil_iff.mp hnil] at hblank
      cases hblank
    have hholds : HoldsText scene (Text.onChars Text.trim raw) (.element element children) :=
      ⟨raw, _, .inside hchild hinside, hkeeps, rfl, hne⟩
    obtain ⟨⟨sub, hsub, htext⟩, -⟩ := exposes_node true element children hcontrols assets _ hholds
    exact ⟨sub, mem_subterms_iff.mpr hsub, htext⟩

theorem noControls_of_all {scene : Scene} {root : Node}
    (hall : (root.subtrees.all fun
      | .element element children =>
        (Control.semantic? scene.options.vocabulary scene.styles element children).isNone
      | .text _ => true) = true) : NoControls scene root := by
  intro element children hmem
  simpa using List.all_eq_true.mp hall _ hmem

/-- A scene with nothing but a stylesheet and the file of an icon. -/
def iconScene (style : String) : Scene where
  styles := StyleTable.compile style none
  options := {}
  files := ⟨[(["a.svg"], .file (.text "<svg/>"))]⟩

/-- The assets before synthesis. -/
def noAssets : AssetRegistry := AssetRegistry.start (iconScene "").files {} ""

/-- An element with a class. -/
def classed (className : String) : Element := ⟨"div", ⟨[("className", className)]⟩⟩

/-- The element of the icon. -/
def iconImage : Node := .element ⟨"img", ⟨[("src", "a.svg")]⟩⟩ []

theorem showsText_synthesize_label :
    ∃ sub ∈ ((iconScene ".row\x7bgap:4px;\x7d").synthesize
        (.element (classed "row") [iconImage, .text " Hello "]) noAssets).1.widget.subterms,
      IsTextOf "Hello" sub := by
  have hrun : RunIn " Hello " [(classed "row", [iconImage, .text " Hello "])]
      (.element (classed "row") [iconImage, .text " Hello "]) := .inside (by simp) .here
  have hplain : ((iconScene ".row\x7bgap:4px;\x7d").subject false
      (classed "row")).stripsPlacement = false := by decide +kernel
  have hkeeps : KeepsText (iconScene ".row\x7bgap:4px;\x7d") (classed "row")
      [iconImage, .text " Hello "] :=
    ⟨by decide, by decide, fun hstrips => absurd hstrips (by rw [hplain]; simp)⟩
  have htrim : Text.onChars Text.trim " Hello " = "Hello" := by decide +kernel
  rw [← htrim]
  exact showsText_synthesize _ _ _ (noControls_of_all (by decide +kernel)) hrun (by simp)
    (List.forall_mem_singleton.mpr hkeeps) (by decide)

/-- A placed box of the size of an icon comes down to the icon in it: its text is lost. -/
theorem not_showsText_icon :
    let scene := iconScene ".icon\x7bposition:absolute;left:4px;width:24px;height:24px;\x7d"
    let root := Node.element ⟨"div", ⟨[]⟩⟩ [.element (classed "icon") [iconImage, .text "Hello"]]
    NoControls scene root ∧ RunIn "Hello"
        [(⟨"div", ⟨[]⟩⟩, [.element (classed "icon") [iconImage, .text "Hello"]]),
          (classed "icon", [iconImage, .text "Hello"])] root ∧
      ∀ sub ∈ (scene.synthesize root noAssets).1.widget.subterms, ¬ IsTextOf "Hello" sub := by
  intro scene root
  refine ⟨noControls_of_all (by decide +kernel), ?_, ?_⟩
  · exact .inside (List.mem_singleton.mpr rfl) (.inside (by simp) .here)
  · have hcalls : ((scene.synthesize root noAssets).1.widget.subterms.all fun sub =>
        !(["Text", "AppTextGradient", "TextSpan"].any sub.isCallOf)) = true := by decide +kernel
    intro sub hsub htext
    have hnone := List.all_eq_true.mp hcalls sub hsub
    cases sub with
    | call callee args named =>
      obtain ⟨rfl, -⟩ | ⟨rfl | rfl, -⟩ := htext
      all_goals simp [Expr.isCallOf, Expr.callee?] at hnone
    | _ => exact htext

end DesignCompiler.Synthesis
