import DesignCompiler.Proofs.Asset.Copying
import DesignCompiler.Proofs.Compilation
import DesignCompiler.Proofs.Synthesis.Agreement

/-!
# Effects of a compilation

Until its document is complete a compilation only reads. What it changes then are the files that its
assets are copied to, the directories on the way to these, and the catalog file.
-/

namespace DesignCompiler

open FileSystem Asset Synthesis Markup

/-- A file that a compilation with some assets may write: one of them is copied to it, or it is the
catalog. -/
def MayWrite (options : CompileOptions) (files : FileSystem) (assets : List String)
    (place : FileSystem.Path) : Prop :=
  (options.copyAssets = true ∧
      ∃ relative ∈ assets, place = copyTarget (joinPath options.projectRoot relative)) ∨
    files.openPlace options.catalogFile = .ok place

/-- A directory that a compilation with some assets may make: it is on the way to the file that one
of them is copied to. -/
def MayMake (options : CompileOptions) (assets : List String) (place : FileSystem.Path) : Prop :=
  options.copyAssets = true ∧
    ∃ relative ∈ assets, OnTheWay [] (names (joinPath options.projectRoot relative)).dropLast place

/-- The relative paths of the assets that a generated document refers to. -/
def assetsOf (scene : Scene) (component : Component) (document : Document) : List String :=
  (generate scene component document).2.registered.map Prod.snd

theorem startedFrom_generate (scene : Scene) (component : Component) (document : Document) :
    AssetRegistry.StartedFrom scene.files scene.options component.markupDirectory
      (generate scene component document).2 :=
  scene.keeps_synthesize document.root _ (fun _ _ _ _ _ hstarted => hstarted.resolve _ _)
    (AssetRegistry.startedFrom_collectHints _ _ _ _)

/-- What the assets of a document change once it is complete. -/
theorem changes_generate (scene : Scene) (component : Component) (document : Document) :
    let assets := (generate scene component document).2
    scene.files.Changes
      (MayWrite scene.options scene.files (assetsOf scene component document))
      (MayMake scene.options (assetsOf scene component document))
      (assets.flushCatalog (assets.copyAssets scene.files).1).2.2 := by
  intro assets
  obtain ⟨hsettings, hcatalog⟩ := startedFrom_generate scene component document
  have hcopies : ∀ copy ∈ assets.copies, ∃ relative ∈ assetsOf scene component document,
      copy.2 = joinPath scene.options.projectRoot relative := by
    intro copy hcopy
    obtain ⟨registration, hmem, rfl⟩ := List.mem_map.mp hcopy
    refine ⟨registration.2, List.mem_map_of_mem hmem, ?_⟩
    rw [hsettings]
    rfl
  have hcopied := assets.changes_copyAssets scene.files
  refine (hcopied.mono ?_ ?_).trans ((assets.changes_flushCatalog _).mono ?_ fun _ h => h.elim)
  · rintro place ⟨hcopy, copy, hmem, rfl⟩
    obtain ⟨relative, hrelative, heq⟩ := hcopies copy hmem
    rw [hsettings] at hcopy
    exact .inl ⟨hcopy, relative, hrelative, by rw [heq]⟩
  · rintro place ⟨hcopy, copy, hmem, hplace⟩
    obtain ⟨relative, hrelative, heq⟩ := hcopies copy hmem
    rw [hsettings] at hcopy
    exact ⟨hcopy, relative, hrelative, by rwa [← heq]⟩
  · -- The catalog file stands before the copies are made, so it stands at the same place after.
    rintro place ⟨hsome, hplace⟩
    obtain ⟨source, hread⟩ := hcatalog hsome
    obtain ⟨held, hopen, -⟩ := readText_eq_ok_iff.mp hread
    rw [hsettings] at hplace
    obtain rfl := Except.ok.inj (hplace.symm.trans (hcopied.extendsTo.openPlace hopen))
    exact .inr hopen

/-- Writing the catalog changes no registration. -/
theorem registered_flushCatalog (registry : AssetRegistry) (files : FileSystem) :
    (registry.flushCatalog files).2.1.registered = registry.registered := by
  unfold AssetRegistry.flushCatalog
  split <;> rfl

/-- Reading a component has nothing to do with the catalog. -/
theorem readComponent_ne_catalog (files : FileSystem) (preprocessor : Option Preprocessor)
    (component : Component) (path : String) (failure : FileSystem.Failure) :
    readComponent files preprocessor component ≠ .error (.catalog path failure) := by
  unfold readComponent readSource
  cases files.readText component.markupPath with
  | error _ => rintro ⟨⟩
  | ok markup =>
    cases files.readText component.stylePath with
    | error _ => rintro ⟨⟩
    | ok style =>
      dsimp only [Except.mapError, bind, Except.bind]
      cases parse markup with
      | error _ => rintro ⟨⟩
      | ok document => rintro ⟨⟩

/-- Compilation with a missing source or faulty markup changes nothing. In all other cases, whether
the catalog can be written or not, only files that assets are copied to and the catalog file may
have another content afterwards, and only directories on the way to the former may be new. -/
theorem changes_compile (options : CompileOptions) (preprocessor : Option Preprocessor)
    (files : FileSystem) (component : Component) :
    match compile options preprocessor files component with
    | (.error (.missingSource _ _), later) => later = files
    | (.error (.markup _), later) => later = files
    | (.error (.catalog _ _), later) => ∃ styles document,
        readComponent files preprocessor component = .ok (styles, document) ∧
          let assets := assetsOf ⟨styles, options, files⟩ component document
          files.Changes (MayWrite options files assets) (MayMake options assets) later
    | (.ok output, later) => ∃ styles document,
        readComponent files preprocessor component = .ok (styles, document) ∧
          output.assets = assetsOf ⟨styles, options, files⟩ component document ∧
          files.Changes (MayWrite options files output.assets) (MayMake options output.assets)
            later := by
  unfold compile
  cases hread : readComponent files preprocessor component with
  | error error =>
    cases error with
    | missingSource path failure => rfl
    | markup error => rfl
    | catalog path failure => exact absurd hread (readComponent_ne_catalog _ _ _ path failure)
  | ok read =>
    obtain ⟨styles, document⟩ := read
    have hchanges := changes_generate ⟨styles, options, files⟩ component document
    have hregistered := registered_flushCatalog
      (generate ⟨styles, options, files⟩ component document).2
      ((generate ⟨styles, options, files⟩ component document).2.copyAssets files).1
    dsimp only at hchanges ⊢
    cases hflush : (generate ⟨styles, options, files⟩ component document).2.flushCatalog
      ((generate ⟨styles, options, files⟩ component document).2.copyAssets files).1 with
    | mk result rest =>
      obtain ⟨registry, later⟩ := rest
      rw [hflush] at hchanges hregistered
      cases result with
      | error failure => exact ⟨styles, document, rfl, hchanges⟩
      | ok count =>
        have hassets : registry.registered.map Prod.snd =
            assetsOf ⟨styles, options, files⟩ component document :=
          congrArg (List.map Prod.snd) hregistered
        refine ⟨styles, document, rfl, hassets, ?_⟩
        dsimp only
        rwa [hassets]

end DesignCompiler
