import DesignCompiler.Proofs.Synthesis.Calls

/-!
# Assets during synthesis

Synthesis reaches the assets only through images. Whatever resolving an image keeps of the assets
the synthesis of a tree keeps, and what calls show of the assets they still show at the end.
-/

namespace DesignCompiler.Synthesis

open Dart Style Markup Asset

/-- An asset is referred to without a call. -/
theorem callsIn_reference {Q : String → List Expr → Prop} {registry : AssetRegistry}
    {files : FileSystem} {source : String} {hint : Option String} {asset : LocalAsset}
    (hasset : (registry.resolve files source hint).1 = some asset) : CallsIn Q asset.reference := by
  rw [AssetRegistry.resolve] at hasset
  split at hasset
  · cases hasset
  · obtain rfl := Option.some.inj hasset
    dsimp only
    rw [AssetRegistry.reference]
    split
    · exact callsIn_ident _
    · exact callsIn_str _

/-- The reference that an image makes. -/
def imageSource (element : Element) : String :=
  Text.onChars Text.trim ((element.attribute? "src").getD "")

/-- What is kept of the assets, how they may grow, and which calls there may be with them. -/
structure Tracker where
  Valid : AssetRegistry → Prop
  Grows : AssetRegistry → AssetRegistry → Prop
  Shows : AssetRegistry → String → List Expr → Prop
  refl : ∀ assets, Grows assets assets
  trans : ∀ first second third, Grows first second → Grows second third → Grows first third
  mono : ∀ assets later callee args, Grows assets later → Shows assets callee args →
    Shows later callee args
  plain : ∀ assets, AllowsPlain (Shows assets)

namespace Tracker

instance (tracker : Tracker) (assets : AssetRegistry) : AllowsPlain (tracker.Shows assets) :=
  tracker.plain assets

/-- A step from some assets leads to valid grown ones and to a value with a property of these. -/
def At {α : Type} (tracker : Tracker) (assets : AssetRegistry) (step : Synth α)
    (P : AssetRegistry → α → Prop) : Prop :=
  tracker.Valid (step.run assets).2 ∧ tracker.Grows assets (step.run assets).2 ∧
    P (step.run assets).2 (step.run assets).1

section

variable {tracker : Tracker} {assets : AssetRegistry} {α β : Type}

theorem at_pure {P : AssetRegistry → α → Prop} {value : α} (hvalid : tracker.Valid assets)
    (hvalue : P assets value) : tracker.At assets (pure value) P :=
  ⟨hvalid, tracker.refl assets, hvalue⟩

theorem at_bind {P : AssetRegistry → α → Prop} {R : AssetRegistry → β → Prop} {step : Synth α}
    {next : α → Synth β} (hstep : tracker.At assets step P)
    (hnext : ∀ value later, tracker.Valid later → tracker.Grows assets later → P later value →
      tracker.At later (next value) R) : tracker.At assets (step >>= next) R := by
  obtain ⟨hvalid, hgrows, hvalue⟩ := hstep
  obtain ⟨hvalid', hgrows', hvalue'⟩ := hnext _ _ hvalid hgrows hvalue
  exact ⟨hvalid', tracker.trans _ _ _ hgrows hgrows', hvalue'⟩

theorem at_modifyGet {P : AssetRegistry → α → Prop} {f : AssetRegistry → α × AssetRegistry}
    (hvalid : tracker.Valid (f assets).2) (hgrows : tracker.Grows assets (f assets).2)
    (hvalue : P (f assets).2 (f assets).1) : tracker.At assets (modifyGet f : Synth α) P :=
  ⟨hvalid, hgrows, hvalue⟩

/-- The calls in an expression are as they may be with some assets. -/
def Calls (tracker : Tracker) (assets : AssetRegistry) (e : Expr) : Prop :=
  CallsIn (tracker.Shows assets) e

theorem Calls.later {later : AssetRegistry} {e : Expr} (he : tracker.Calls assets e)
    (hgrows : tracker.Grows assets later) : tracker.Calls later e :=
  CallsIn.mono he fun callee args => tracker.mono _ _ callee args hgrows

end

/-- What resolving the reference of an image must come to for the calls in its widget: the asset may
be shown, or the icon of the class where there is none. -/
structure Resolves (tracker : Tracker) (scene : Scene) (element : Element) (assets : AssetRegistry)
    (asset : Option LocalAsset) (later : AssetRegistry) : Prop where
  valid : tracker.Valid later
  grows : tracker.Grows assets later
  resolved : ∀ found, asset = some found → tracker.Calls later found.reference ∧
    ∀ callee ∈ assetWidgets, tracker.Shows later callee [found.reference]
  unresolved : asset = none → ∀ icon,
    element.classAttribute?.bind scene.options.classIcons.lookup? = some icon →
      tracker.Shows later vectorWidget [.ident icon]

/-- The widget of an image shows what the reference was resolved to. -/
theorem at_image {tracker : Tracker} {scene : Scene} {isRoot : Bool} {element : Element}
    {assets : AssetRegistry} (hvalid : tracker.Valid assets)
    (hresolves : Scene.isNetworkImage (imageSource element) = false →
      tracker.Resolves scene element assets
        (assets.resolve scene.files (imageSource element) element.classAttribute?).1
        (assets.resolve scene.files (imageSource element) element.classAttribute?).2) :
    tracker.At assets (scene.image (scene.subject isRoot element))
      fun later part => tracker.Calls later part.widget := by
  unfold Scene.image
  dsimp only
  split
  · refine at_pure hvalid (callsIn_image (callsIn_sized ?_))
    exact callsIn_call (by decide) (by simp) (by simp)
  rename_i hlocal
  replace hresolves := hresolves (by rw [← Bool.not_eq_true]; exact hlocal)
  refine at_bind (P := fun later asset => tracker.Resolves scene element assets asset later)
    (at_modifyGet hresolves.valid hresolves.grows hresolves) ?_
  intro asset later hlater _ hasset
  have hcall : ∀ callee reference named, tracker.Shows later callee [reference] →
      tracker.Calls later reference → ArgumentCallsIn (tracker.Shows later) named →
      CallsIn (tracker.Shows later) (.call callee [reference] named) :=
    fun callee reference named hshows hreference hnamed =>
      callsIn_leaf hshows (List.forall_mem_singleton.mpr hreference) hnamed
  split
  · rename_i found
    obtain ⟨hreference, hshows⟩ := hasset.resolved found rfl
    split
    · refine at_pure hlater (callsIn_image (callsIn_sized ?_))
      exact hcall _ _ _ (hshows _ (by decide)) hreference (by simp)
    · refine at_pure hlater (callsIn_image (callsIn_sized ?_))
      exact hcall _ _ _ (hshows _ (by decide)) hreference (by simp)
  · split
    · rename_i icon hicon
      refine at_pure hlater (callsIn_image (callsIn_sized ?_))
      exact hcall _ _ _ (hasset.unresolved rfl icon hicon) (callsIn_ident _) (by simp)
    · exact at_pure hlater (callsIn_rotate callsIn_placeholder)

/-- What a tree must have for the calls in its widget: those of its controls are fine, and so are
those of its images. -/
def Admits (tracker : Tracker) (scene : Scene) (node : Node) : Prop :=
  ∀ element children, .element element children ∈ node.subtrees →
    (∀ semantic assets,
      Control.semantic? scene.options.vocabulary scene.styles element children = some semantic →
        tracker.Calls assets semantic.widget) ∧
    (element.tag = "img" → ∀ isRoot assets, tracker.Valid assets →
      tracker.At assets (scene.image (scene.subject isRoot element))
        fun later part => tracker.Calls later part.widget)

end Tracker

theorem mem_subtreesOfList_iff {sub : Node} {nodes : List Node} :
    sub ∈ Node.subtreesOfList nodes ↔ ∃ node ∈ nodes, sub ∈ node.subtrees := by
  induction nodes with
  | nil => simp [Node.subtreesOfList]
  | cons node nodes ih => simp [Node.subtreesOfList, ih]

theorem mem_subtrees_self (element : Element) (children : List Node) :
    .element element children ∈ (Node.element element children).subtrees := List.mem_cons_self

theorem mem_subtrees_of_child {element : Element} {children : List Node} {child sub : Node}
    (hchild : child ∈ children) (hsub : sub ∈ child.subtrees) :
    sub ∈ (Node.element element children).subtrees :=
  List.mem_cons_of_mem _ (mem_subtreesOfList_iff.mpr ⟨child, hchild, hsub⟩)

namespace Tracker

variable {tracker : Tracker} {scene : Scene}

theorem Admits.child {element : Element} {children : List Node}
    (hadmits : tracker.Admits scene (.element element children)) :
    ∀ child ∈ children, tracker.Admits scene child :=
  fun _ hchild _ _ hsub => hadmits _ _ (mem_subtrees_of_child hchild hsub)

mutual

/-- The calls in the widget of a node are plain ones and those of its controls and images. -/
theorem at_node (isRoot : Bool) :
    ∀ (node : Node) (assets : AssetRegistry), tracker.Admits scene node → tracker.Valid assets →
      tracker.At assets (scene.node isRoot node) fun later part => tracker.Calls later part.widget
  | .text _, assets, _, hvalid => by
    rw [Scene.node]
    exact at_pure hvalid callsIn_placeholder
  | .element element children, assets, hadmits, hvalid => by
    obtain ⟨hcontrol, himage⟩ := hadmits element children (mem_subtrees_self element children)
    rw [Scene.node]
    split
    · rename_i widget hsemantic
      exact at_pure hvalid (callsIn_rotate (hcontrol _ assets hsemantic))
    · rename_i widget hsemantic
      refine at_pure hvalid (callsIn_compose ?_ (by simp))
      rintro _ ⟨⟩
      exact hcontrol _ assets hsemantic
    · split
      · rename_i htag
        exact himage (beq_iff_eq.mp htag) isRoot assets hvalid
      · split
        · refine at_bind (at_spans _ children assets hadmits.child hvalid) ?_
          exact fun spans later hlater _ hspans => at_pure hlater (callsIn_paragraph hspans)
        · refine at_bind (at_kids _ children assets hadmits.child hvalid) ?_
          exact fun kids later hlater _ hkids => at_pure hlater (callsIn_box hkids)

theorem at_kids (style : ResolvedStyle) :
    ∀ (nodes : List Node) (assets : AssetRegistry), (∀ node ∈ nodes, tracker.Admits scene node) →
      tracker.Valid assets →
      tracker.At assets (scene.kids style nodes)
        fun later kids => ∀ kid ∈ kids, tracker.Calls later kid.widget
  | [], assets, _, hvalid => by
    rw [Scene.kids]
    exact at_pure hvalid (by simp)
  | .text content :: rest, assets, hadmits, hvalid => by
    rw [List.forall_mem_cons] at hadmits
    rw [Scene.kids]
    refine at_bind (at_kids style rest assets hadmits.2 hvalid) ?_
    intro others later hlater _ hothers
    refine at_pure hlater (List.forall_mem_append.mpr ⟨fun kid hkid => ?_, hothers⟩)
    obtain ⟨widget, hwidget, rfl⟩ := Option.map_eq_some_iff.mp (Option.mem_toList.mp hkid)
    exact callsIn_textRun hwidget
  | .element element children :: rest, assets, hadmits, hvalid => by
    rw [List.forall_mem_cons] at hadmits
    rw [Scene.kids]
    refine at_bind (at_node false (.element element children) assets hadmits.1 hvalid) ?_
    intro kid middle hmiddle _ hkid
    refine at_bind (at_kids style rest middle hadmits.2 hmiddle) ?_
    intro others later hlater hgrows hothers
    exact at_pure hlater (List.forall_mem_cons.mpr ⟨Calls.later hkid hgrows, hothers⟩)

theorem at_spans (style : Option TextStyle) :
    ∀ (nodes : List Node) (assets : AssetRegistry), (∀ node ∈ nodes, tracker.Admits scene node) →
      tracker.Valid assets →
      tracker.At assets (scene.spans style nodes)
        fun later spans => ∀ span ∈ spans, tracker.Calls later span
  | [], assets, _, hvalid => by
    rw [Scene.spans]
    exact at_pure hvalid (by simp)
  | .text content :: rest, assets, hadmits, hvalid => by
    rw [List.forall_mem_cons] at hadmits
    rw [Scene.spans]
    refine at_bind (at_spans style rest assets hadmits.2 hvalid) ?_
    intro others later hlater _ hothers
    exact at_pure hlater (List.forall_mem_append.mpr ⟨callsIn_spanOfText, hothers⟩)
  | .element element children :: rest, assets, hadmits, hvalid => by
    rw [List.forall_mem_cons] at hadmits
    rw [Scene.spans]
    have hrest : ∀ here middle, tracker.Valid middle → tracker.Grows assets middle →
        (∀ span ∈ here, tracker.Calls middle span) →
        tracker.At middle (do let others ← scene.spans style rest; return here ++ others)
          fun later spans => ∀ span ∈ spans, tracker.Calls later span := by
      intro here middle hmiddle _ hhere
      refine at_bind (at_spans style rest middle hadmits.2 hmiddle) ?_
      intro others later hlater hgrows hothers
      refine at_pure hlater (List.forall_mem_append.mpr ⟨fun span hspan => ?_, hothers⟩)
      exact Calls.later (hhere span hspan) hgrows
    split
    · refine hrest _ assets hvalid (tracker.refl assets) (List.forall_mem_singleton.mpr ?_)
      exact callsIn_textSpan _ style
    · split
      · exact at_bind (at_spans _ children assets hadmits.1.child hvalid) hrest
      · refine at_bind (at_node false (.element element children) assets hadmits.1 hvalid) ?_
        intro embedded middle hmiddle hgrows hembedded
        refine hrest _ middle hmiddle hgrows (List.forall_mem_singleton.mpr ?_)
        exact callsIn_named (by decide) (argumentCallsIn_cons.mpr ⟨hembedded, argumentCallsIn_nil⟩)

end

end Tracker

end DesignCompiler.Synthesis
