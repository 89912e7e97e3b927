import DesignCompiler.Proofs.Asset.Registration
import DesignCompiler.Proofs.Synthesis.Tracking

/-!
# References to assets

With a catalog every asset that a synthesized widget shows is either registered and referred to by
its identifier in the catalog, or the icon that the class of an image names whose source leads to no
file.
-/

namespace DesignCompiler.Synthesis

open Dart Style Markup Asset

/-- The identifier of the catalog for a registered path. -/
def IsRegistered (registry : AssetRegistry) (reference : Expr) : Prop :=
  ∃ path relative name, registry.registrations.get? path = some relative ∧
    registry.Names relative name ∧ reference = .ident ("AppAssets." ++ name)

namespace Scene

/-- The icon that the class of an image names, when the source of the image leads to no file. -/
def IsClassIcon (scene : Scene) (registry : AssetRegistry) (element : Element) (reference : Expr) :
    Prop :=
  registry.localPath? scene.files (imageSource element) = none ∧
    ∃ className icon, element.classAttribute? = some className ∧
      scene.options.classIcons.lookup? className = some icon ∧ reference = .ident icon

/-- What a widget that shows an asset is called with. -/
def ShowsAsset (scene : Scene) (root : Node) (registry : AssetRegistry) (callee : String)
    (args : List Expr) : Prop :=
  callee ∈ assetWidgets → ∃ reference, args = [reference] ∧
    (IsRegistered registry reference ∨
      ∃ element children, .element element children ∈ root.subtrees ∧ element.tag = "img" ∧
        scene.IsClassIcon registry element reference)

theorem ShowsAsset.later {scene : Scene} {root : Node} {registry later : AssetRegistry}
    {callee : String} {args : List Expr} (hgrows : registry.GrowsTo later)
    (hshows : scene.ShowsAsset root registry callee args) :
    scene.ShowsAsset root later callee args := by
  intro hcallee
  obtain ⟨reference, hargs, hreference⟩ := hshows hcallee
  refine ⟨reference, hargs, ?_⟩
  obtain ⟨path, relative, name, hpath, hname, heq⟩ |
      ⟨element, children, hmem, htag, hnone, hicon⟩ :=
    hreference
  · exact .inl ⟨path, relative, name, hgrows.registered _ _ hpath, hgrows.names _ _ hname, heq⟩
  · refine .inr ⟨element, children, hmem, htag, ?_, hicon⟩
    rwa [AssetRegistry.localPath?_of_settings hgrows.settings]

instance (scene : Scene) (root : Node) (registry : AssetRegistry) :
    AllowsPlain (scene.ShowsAsset root registry) where
  allows callee _ hplain hasset := absurd hasset (by revert callee; decide)

/-- The references to assets while a tree is synthesized, for a catalog file of the project. -/
def referenceTracker (scene : Scene) (root : Node) (start : Catalog) : Tracker where
  Valid := AssetRegistry.GrownFrom start
  Grows := AssetRegistry.GrowsTo
  Shows := scene.ShowsAsset root
  refl := .refl
  trans _ _ _ := .trans
  mono _ _ _ _ := .later
  plain _ := inferInstance

variable {scene : Scene} {root : Node} {start : Catalog}

theorem admits_references : (scene.referenceTracker root start).Admits scene root := by
  intro element children hmem
  constructor
  · intro semantic assets hsemantic
    refine callsIn_semantic (fun callee args hcallee hasset => ?_) hsemantic
    exact absurd hasset (by revert callee; decide)
  · intro htag isRoot assets hvalid
    refine Tracker.at_image hvalid fun _ => ?_
    have hresolves := AssetRegistry.GrownFrom.resolve hvalid scene.files (imageSource element)
      element.classAttribute?
    refine ⟨hresolves.grown, hresolves.grows, fun found hfound => ?_, fun hnone icon hicon => ?_⟩
    · obtain ⟨path, name, hpath, hname, hreference⟩ := hresolves.resolved found hfound
      refine ⟨?_, fun _ _ _ => ⟨_, rfl, .inl ⟨path, _, name, hpath, hname, hreference⟩⟩⟩
      rw [hreference]
      exact callsIn_ident _
    · obtain ⟨className, hclass, hlookup⟩ := Option.bind_eq_some_iff.mp hicon
      have hlost := hresolves.unresolved hnone
      rw [← AssetRegistry.localPath?_of_settings hresolves.grows.settings] at hlost
      exact fun _ => ⟨_, rfl, .inr ⟨element, children, hmem, htag, hlost, className, icon, hclass,
        hlookup, rfl⟩⟩

/-- After a synthesis the assets are grown and the widget shows no others. -/
theorem references_synthesize (scene : Scene) (root : Node) {assets : AssetRegistry}
    (hassets : AssetRegistry.GrownFrom start assets) :
    AssetRegistry.GrownFrom start (scene.synthesize root assets).2 ∧
      assets.GrowsTo (scene.synthesize root assets).2 ∧
      CallsIn (scene.ShowsAsset root (scene.synthesize root assets).2)
        (scene.synthesize root assets).1.widget :=
  Tracker.at_node true root assets admits_references hassets

end Scene

end DesignCompiler.Synthesis
