import DesignCompiler.Asset.Registry
import DesignCompiler.Proofs.Asset.Allocation
import DesignCompiler.Proofs.FileSystem.Extension

/-!
# Registration of assets

A reference in the markup that leads to a file registers the file with one relative path, for good,
and the catalog has an identifier for that path from then on. Nothing that was registered or
identified is taken back.
-/

namespace DesignCompiler.Asset

open Text FileSystem

/-- The path of a file in the asset directory, from the root of the project. -/
def AssetSettings.relativePath (settings : AssetSettings) (name : String) : String :=
  if settings.assetDirectory == "" then name else settings.assetDirectory ++ "/" ++ name

namespace AssetRegistry

/-- The catalog has this identifier for a relative path. -/
def Names (registry : AssetRegistry) (relative name : String) : Prop :=
  ∃ catalog, registry.catalog = some catalog ∧
    catalog.identifiers.get? (normalPath relative) = some name

theorem Names.get?_of_catalog {registry : AssetRegistry} {catalog : Catalog}
    {relative name : String}
    (hnames : registry.Names relative name) (hcatalog : registry.catalog = some catalog) :
    catalog.identifiers.get? (normalPath relative) = some name := by
  obtain ⟨_, hsame, hget⟩ := hnames
  obtain rfl := Option.some.inj (hcatalog.symm.trans hsame)
  exact hget

/-- The registry has a catalog that has grown out of the one in the project, with an identifier for
each registered path, and each file is registered under the name it was given. -/
structure GrownFrom (start : Catalog) (registry : AssetRegistry) : Prop where
  catalog : ∃ catalog, registry.catalog = some catalog ∧ start.GrownFrom catalog
  named : ∀ path relative, registry.registrations.get? path = some relative →
    (∃ name, registry.Names relative name) ∧
      ∃ name, registry.fileNames.get? path = some name ∧
        relative = registry.settings.relativePath name

/-- Nothing that was registered or identified is taken back. -/
structure GrowsTo (registry later : AssetRegistry) : Prop where
  settings : later.settings = registry.settings
  registered : ∀ path relative, registry.registrations.get? path = some relative →
    later.registrations.get? path = some relative
  names : ∀ relative name, registry.Names relative name → later.Names relative name

theorem GrowsTo.refl (registry : AssetRegistry) : registry.GrowsTo registry :=
  ⟨rfl, fun _ _ h => h, fun _ _ h => h⟩

theorem GrowsTo.trans {registry middle later : AssetRegistry} (hfirst : registry.GrowsTo middle)
    (hsecond : middle.GrowsTo later) : registry.GrowsTo later :=
  ⟨hsecond.settings.trans hfirst.settings,
    fun path relative h => hsecond.registered path relative (hfirst.registered path relative h),
    fun relative name h => hsecond.names relative name (hfirst.names relative name h)⟩

/-! ## The parts of a registration -/

/-- A file gets one name for good. -/
theorem exists_outputName (registry : AssetRegistry) (path : FileSystem.Path) (hint : String) :
    ∃ name used fileNames, registry.outputName path hint =
        (name, { registry with usedNames := used, fileNames := fileNames }) ∧
      fileNames.get? path = some name ∧
      ∀ other known, registry.fileNames.get? other = some known →
        fileNames.get? other = some known := by
  unfold outputName
  split
  · rename_i name hname
    exact ⟨name, _, _, rfl, hname, fun _ _ h => h⟩
  · rename_i hnone
    refine ⟨_, _, _, rfl, by rw [Dictionary.get?_insert, if_pos rfl], fun other known hknown => ?_⟩
    exact Dictionary.get?_insert_of_new _ hnone hknown

/-- With a catalog a path is referred to by an identifier, which the catalog has from then on. -/
theorem exists_reference (registry : AssetRegistry) {catalog : Catalog}
    (hcatalog : registry.catalog = some catalog) (relative : String) :
    ∃ name, registry.reference relative = (.ident ("AppAssets." ++ name),
        { registry with catalog := some (catalog.resolve relative).2 }) ∧
      (catalog.resolve relative).2.identifiers.get? (normalPath relative) = some name := by
  refine ⟨(catalog.resolve relative).1, ?_, Catalog.get?_resolve_self catalog relative⟩
  unfold reference
  rw [hcatalog]

theorem localPath?_of_settings {registry other : AssetRegistry}
    (hsettings : other.settings = registry.settings) (files : FileSystem) (source : String) :
    other.localPath? files source = registry.localPath? files source := by
  unfold localPath?
  rw [hsettings]

theorem resolve_of_localPath?_eq_none {registry : AssetRegistry} {files : FileSystem}
    {source : String} (hpath : registry.localPath? files source = none) (hint : Option String) :
    registry.resolve files source hint = (none, registry) := by
  simp only [resolve, hpath]

/-- A resolved reference registers its file, whose relative path gets an identifier. -/
theorem exists_resolve {registry : AssetRegistry} {catalog : Catalog} {files : FileSystem}
    {source : String} {path : FileSystem.Path} (hcatalog : registry.catalog = some catalog)
    (hpath : registry.localPath? files source = some path) (hint : Option String) :
    ∃ name used fileNames relative identifier isVector,
      relative = registry.settings.relativePath name ∧ fileNames.get? path = some name ∧
      (∀ other known, registry.fileNames.get? other = some known →
        fileNames.get? other = some known) ∧
      (catalog.resolve relative).2.identifiers.get? (normalPath relative) = some identifier ∧
      registry.resolve files source hint =
        (some ⟨relative, isVector, .ident ("AppAssets." ++ identifier)⟩,
          { registry with
            usedNames := used
            fileNames := fileNames
            catalog := some (catalog.resolve relative).2
            registrations := registry.registrations.insert path relative }) := by
  obtain ⟨name, used, fileNames, hname, hfile, hkept⟩ :=
    registry.exists_outputName path (hint.getD "")
  obtain ⟨identifier, hreference, hget⟩ := exists_reference
    { registry with usedNames := used, fileNames := fileNames } hcatalog
    (registry.settings.relativePath name)
  refine ⟨name, used, fileNames, _, identifier,
    endsWith ".svg".toList (lowerAscii name.toList), rfl, hfile, hkept, hget, ?_⟩
  unfold AssetSettings.relativePath at hreference ⊢
  unfold resolve
  rw [hpath]
  dsimp only
  rw [hname]
  dsimp only
  rw [hreference]

/-! ## What a registration preserves -/

/-- What a reference in the markup comes to: nothing if it leads to no file, else a registered path
and its identifier. -/
structure Resolves (start : Catalog) (registry : AssetRegistry) (files : FileSystem)
    (source : String) (asset : Option LocalAsset) (later : AssetRegistry) : Prop where
  grown : GrownFrom start later
  grows : registry.GrowsTo later
  unresolved : asset = none → registry.localPath? files source = none
  resolved : ∀ found, asset = some found → ∃ path name,
    later.registrations.get? path = some found.relativePath ∧
      later.Names found.relativePath name ∧ found.reference = .ident ("AppAssets." ++ name)

theorem GrownFrom.resolve {start : Catalog} {registry : AssetRegistry}
    (hgrown : GrownFrom start registry) (files : FileSystem) (source : String)
    (hint : Option String) :
    Resolves start registry files source (registry.resolve files source hint).1
      (registry.resolve files source hint).2 := by
  cases hpath : registry.localPath? files source with
  | none =>
    rw [resolve_of_localPath?_eq_none hpath hint]
    exact ⟨hgrown, .refl registry, fun _ => hpath, by simp⟩
  | some path =>
    obtain ⟨catalog, hcatalog, hstart⟩ := hgrown.catalog
    obtain ⟨name, used, fileNames, relative, identifier, isVector, hrelative, hfile, hkept, hget,
      heq⟩ := exists_resolve hcatalog hpath hint
    rw [heq]
    have hregistered : ∀ other known, registry.registrations.get? other = some known →
        (registry.registrations.insert path relative).get? other = some known := by
      intro other known hother
      rw [Dictionary.get?_insert]
      split
      · -- The file keeps its name, so it is registered again with the path it had.
        rename_i hsame
        subst hsame
        obtain ⟨-, old, hold, rfl⟩ := hgrown.named path known hother
        obtain rfl : old = name := Option.some.inj ((hkept path old hold).symm.trans hfile)
        rw [hrelative]
      · exact hother
    have hnames : ∀ other known, registry.Names other known →
        (catalog.resolve relative).2.identifiers.get? (normalPath other) = some known :=
      fun other known hknown =>
        Catalog.get?_resolve_of_some relative (hknown.get?_of_catalog hcatalog)
    refine ⟨⟨⟨_, rfl, hstart.resolve relative⟩, ?_⟩, ⟨rfl, hregistered, ?_⟩, by simp, ?_⟩
    · intro other known hother
      dsimp only at hother
      rw [Dictionary.get?_insert] at hother
      split at hother
      · rename_i hsame
        subst hsame
        obtain rfl := Option.some.inj hother
        exact ⟨⟨identifier, _, rfl, hget⟩, name, hfile, hrelative⟩
      · obtain ⟨⟨found, hfound⟩, old, hold, hknown⟩ := hgrown.named other known hother
        exact ⟨⟨found, _, rfl, hnames known found hfound⟩, old, hkept other old hold, hknown⟩
    · exact fun other known hknown => ⟨_, rfl, hnames other known hknown⟩
    · rintro _ ⟨⟩
      exact ⟨path, identifier, by rw [Dictionary.get?_insert, if_pos rfl], ⟨_, rfl, hget⟩, rfl⟩

/-! ## Before synthesis -/

/-- The images of a tree in document order. -/
def images (root : Markup.Node) : List Markup.Element :=
  (root.subtrees.filterMap Markup.Node.head?).filter (·.tag == "img")

/-- The registry with the hint of an image taken in. -/
def takeHint (files : FileSystem) (registry : AssetRegistry) (image : Markup.Element) :
    AssetRegistry :=
  match registry.hintOf? files image with
  | some (path, hint) => registry.addHint path hint
  | none => registry

theorem collectHints_eq_foldl (registry : AssetRegistry) (files : FileSystem) (root : Markup.Node) :
    registry.collectHints files root = (images root).foldl (takeHint files) registry := rfl

theorem exists_takeHint (registry : AssetRegistry) (files : FileSystem) (image : Markup.Element) :
    ∃ hints, registry.takeHint files image = { registry with hints := hints } := by
  unfold takeHint addHint
  split
  · split
    · exact ⟨_, rfl⟩
    · exact ⟨_, rfl⟩
  · exact ⟨_, rfl⟩

theorem settings_takeHint (registry : AssetRegistry) (files : FileSystem) (image : Markup.Element) :
    (registry.takeHint files image).settings = registry.settings := by
  obtain ⟨hints, hhints⟩ := registry.exists_takeHint files image
  rw [hhints]

/-- Hints change nothing but the hints. -/
theorem exists_collectHints (registry : AssetRegistry) (files : FileSystem) (root : Markup.Node) :
    ∃ hints, registry.collectHints files root = { registry with hints := hints } := by
  rw [collectHints_eq_foldl]
  induction images root using List.reverseRecOn with
  | nil => exact ⟨_, rfl⟩
  | append_singleton seen image ih =>
    obtain ⟨hints, hhints⟩ := ih
    rw [List.foldl_append, hhints]
    exact exists_takeHint { registry with hints := hints } files image

/-- Before synthesis nothing is registered. -/
theorem grownFrom_start {files : FileSystem} {options : CompileOptions} {source : String}
    (hread : files.readText options.catalogFile = .ok source) (directory : String)
    (root : Markup.Node) :
    GrownFrom (.ofSource source)
      ((AssetRegistry.start files options directory).collectHints files root) := by
  obtain ⟨hints, heq⟩ :=
    (AssetRegistry.start files options directory).exists_collectHints files root
  rw [heq]
  constructor
  · refine ⟨.ofSource source, ?_, .refl (Catalog.pending_ofSource source)⟩
    unfold start Catalog.load?
    rw [hread]
    rfl
  · intro path relative hnone
    cases hnone

/-! ## After synthesis -/

theorem mem_registered_of_get? {registry : AssetRegistry} {path : FileSystem.Path}
    {relative : String} (hpath : registry.registrations.get? path = some relative) :
    (path, relative) ∈ registry.registered := by
  rw [registered, List.mem_mergeSort]
  exact Dictionary.mem_entries_of_get? hpath

end AssetRegistry

end DesignCompiler.Asset
