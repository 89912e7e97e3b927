import DesignCompiler.Proofs.Synthesis.Tracking

/-!
# Syntheses that agree

Two scenes that differ in their files alone synthesize the same widgets, as long as the references
of images are resolved alike. How the assets are related on the way is up to the caller, and so is
what the first synthesis has to end with: that may be a fact about the end, which held all the way.
-/

namespace DesignCompiler.Synthesis

open Dart Style Markup Asset

/-- What the first of two runs keeps of its assets, how the assets of both are related, and what the
first run has to end with. -/
structure Correspondence where
  Valid : AssetRegistry → Prop
  Related : AssetRegistry → AssetRegistry → Prop
  Accepted : AssetRegistry → Prop

namespace Correspondence

/-- Two steps that agree: from valid assets the first one leads to valid ones, to accepted ones only
from accepted ones, and if it does both come to the same from related assets and lead to related
ones. -/
structure Agree {α : Type} (correspondence : Correspondence) (step other : Synth α) : Prop where
  valid : ∀ assets, correspondence.Valid assets → correspondence.Valid (step.run assets).2
  accepted : ∀ assets, correspondence.Valid assets →
    correspondence.Accepted (step.run assets).2 → correspondence.Accepted assets
  agree : ∀ assets assets', correspondence.Valid assets → correspondence.Related assets assets' →
    correspondence.Accepted (step.run assets).2 →
      (step.run assets).1 = (other.run assets').1 ∧
        correspondence.Related (step.run assets).2 (other.run assets').2

variable {correspondence : Correspondence} {α β : Type}

theorem agree_pure (value : α) : correspondence.Agree (pure value) (pure value) :=
  ⟨fun _ h => h, fun _ _ h => h, fun _ _ _ hrelated _ => ⟨rfl, hrelated⟩⟩

theorem agree_bind {step other : Synth α} {next next' : α → Synth β}
    (hstep : correspondence.Agree step other)
    (hnext : ∀ value, correspondence.Agree (next value) (next' value)) :
    correspondence.Agree (step >>= next) (other >>= next') := by
  refine ⟨fun assets hvalid => ?_, fun assets hvalid haccepted => ?_, ?_⟩
  · exact (hnext _).valid _ (hstep.valid assets hvalid)
  · exact hstep.accepted assets hvalid ((hnext _).accepted _ (hstep.valid assets hvalid) haccepted)
  · intro assets assets' hvalid hrelated haccepted
    have hmiddle := hstep.valid assets hvalid
    obtain ⟨hvalue, hrelated⟩ := hstep.agree assets assets' hvalid hrelated
      ((hnext _).accepted _ hmiddle haccepted)
    change _ = ((next' (other.run assets').1).run (other.run assets').2).1 ∧
      correspondence.Related _ ((next' (other.run assets').1).run (other.run assets').2).2
    rw [← hvalue]
    exact (hnext _).agree _ _ hmiddle hrelated haccepted

theorem agree_modifyGet {f g : AssetRegistry → α × AssetRegistry}
    (hvalid : ∀ assets, correspondence.Valid assets → correspondence.Valid (f assets).2)
    (haccepted : ∀ assets, correspondence.Valid assets → correspondence.Accepted (f assets).2 →
      correspondence.Accepted assets)
    (hagree : ∀ assets assets', correspondence.Valid assets →
      correspondence.Related assets assets' → correspondence.Accepted (f assets).2 →
        (f assets).1 = (g assets').1 ∧ correspondence.Related (f assets).2 (g assets').2) :
    correspondence.Agree (modifyGet f : Synth α) (modifyGet g) :=
  ⟨hvalid, haccepted, hagree⟩

/-- The references of an image are resolved alike. -/
def ResolvesAlike (correspondence : Correspondence) (files files' : FileSystem)
    (element : Element) :
    Prop :=
  let source := imageSource element
  correspondence.Agree (modifyGet fun assets => assets.resolve files source element.classAttribute?)
    (modifyGet fun assets => assets.resolve files' source element.classAttribute?)

variable {scene : Scene} {files : FileSystem}

/-- The scene with other files. -/
abbrev withFiles (scene : Scene) (files : FileSystem) : Scene := { scene with files := files }

theorem agree_image (isRoot : Bool) {element : Element}
    (hresolve : correspondence.ResolvesAlike scene.files files element) :
    correspondence.Agree (scene.image (scene.subject isRoot element))
      ((withFiles scene files).image (scene.subject isRoot element)) := by
  unfold Scene.image
  dsimp only
  split
  · exact agree_pure _
  · refine agree_bind hresolve fun asset => ?_
    cases asset with
    | some asset =>
      dsimp only
      split
      · exact agree_pure _
      · exact agree_pure _
    | none =>
      dsimp only
      split
      · exact agree_pure _
      · exact agree_pure _

/-- The references of the images in a tree are resolved alike. -/
def ImagesAgree (correspondence : Correspondence) (files files' : FileSystem)
    (node : Node) : Prop :=
  ∀ element children, .element element children ∈ node.subtrees → element.tag = "img" →
    correspondence.ResolvesAlike files files' element

theorem ImagesAgree.child {files files' : FileSystem} {element : Element} {children : List Node}
    (himages : correspondence.ImagesAgree files files' (.element element children)) :
    ∀ child ∈ children, correspondence.ImagesAgree files files' child :=
  fun _ hchild _ _ hsub => himages _ _ (mem_subtrees_of_child hchild hsub)

mutual

/-- Where the references of images are resolved alike a node becomes the same widget. -/
theorem agree_node (isRoot : Bool) :
    ∀ node : Node, correspondence.ImagesAgree scene.files files node →
      correspondence.Agree (scene.node isRoot node) ((withFiles scene files).node isRoot node)
  | .text _, _ => by
    rw [Scene.node, Scene.node]
    exact agree_pure _
  | .element element children, himages => by
    rw [Scene.node, Scene.node]
    dsimp only
    cases Control.semantic? scene.options.vocabulary scene.styles element children with
    | some semantic =>
      obtain ⟨widget, isClosed⟩ := semantic
      cases isClosed
      · exact agree_pure _
      · exact agree_pure _
    | none =>
      dsimp only
      split
      · rename_i htag
        exact agree_image isRoot
          (himages _ _ (mem_subtrees_self element children) (beq_iff_eq.mp htag))
      · split
        · exact agree_bind (agree_spans _ children himages.child) fun spans => agree_pure _
        · exact agree_bind (agree_kids _ children himages.child) fun kids => agree_pure _

theorem agree_kids (style : ResolvedStyle) :
    ∀ nodes : List Node, (∀ node ∈ nodes, correspondence.ImagesAgree scene.files files node) →
      correspondence.Agree (scene.kids style nodes) ((withFiles scene files).kids style nodes)
  | [], _ => by
    rw [Scene.kids, Scene.kids]
    exact agree_pure _
  | .text content :: rest, himages => by
    rw [List.forall_mem_cons] at himages
    rw [Scene.kids, Scene.kids]
    exact agree_bind (agree_kids style rest himages.2) fun others => agree_pure _
  | .element element children :: rest, himages => by
    rw [List.forall_mem_cons] at himages
    rw [Scene.kids, Scene.kids]
    refine agree_bind (agree_node false (.element element children) himages.1) fun kid => ?_
    exact agree_bind (agree_kids style rest himages.2) fun others => agree_pure _

theorem agree_spans (style : Option TextStyle) :
    ∀ nodes : List Node, (∀ node ∈ nodes, correspondence.ImagesAgree scene.files files node) →
      correspondence.Agree (scene.spans style nodes) ((withFiles scene files).spans style nodes)
  | [], _ => by
    rw [Scene.spans, Scene.spans]
    exact agree_pure _
  | .text content :: rest, himages => by
    rw [List.forall_mem_cons] at himages
    rw [Scene.spans, Scene.spans]
    exact agree_bind (agree_spans style rest himages.2) fun others => agree_pure _
  | .element element children :: rest, himages => by
    rw [List.forall_mem_cons] at himages
    rw [Scene.spans, Scene.spans]
    have hrest : ∀ here : List Expr,
        correspondence.Agree (do let others ← scene.spans style rest; return here ++ others)
          (do let others ← (withFiles scene files).spans style rest; return here ++ others) :=
      fun here => agree_bind (agree_spans style rest himages.2) fun others => agree_pure _
    split
    · exact agree_bind (agree_pure _) hrest
    · split
      · exact agree_bind (agree_spans _ children himages.1.child) hrest
      · refine agree_bind (agree_node false (.element element children) himages.1)
          fun embedded => ?_
        exact agree_bind (agree_pure _) hrest

end

end Correspondence

namespace Scene

/-- What resolving the references of the images in a tree keeps of the assets is kept by
    synthesis. -/
theorem keeps_synthesize (scene : Scene) (root : Node) (P : AssetRegistry → Prop)
    (hresolve : ∀ element children, .element element children ∈ root.subtrees →
      element.tag = "img" → ∀ assets, P assets →
        P (assets.resolve scene.files (imageSource element) element.classAttribute?).2)
    {assets : AssetRegistry} (hassets : P assets) : P (scene.synthesize root assets).2 := by
  let kept : Correspondence := ⟨P, fun _ _ => False, fun _ => True⟩
  have himages : kept.ImagesAgree scene.files scene.files root := fun element children hmem htag =>
    Correspondence.agree_modifyGet (hresolve element children hmem htag) (fun _ _ _ => trivial)
      fun _ _ _ hrelated => hrelated.elim
  exact (Correspondence.agree_node true root himages).valid assets hassets

end Scene

end DesignCompiler.Synthesis
