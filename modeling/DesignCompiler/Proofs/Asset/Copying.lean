import DesignCompiler.Proofs.Asset.Naming
import DesignCompiler.Proofs.FileSystem.Changes

/-!
# What the assets change

Two things are done to the files with the assets of a compilation: the registered files are copied
into the project, and the catalog file is written. Neither reaches another file.
-/

namespace DesignCompiler.Asset

open FileSystem

/-- A flush writes the catalog file alone. -/
theorem Catalog.changes_flush (catalog : Catalog) (files : FileSystem) (path : String) :
    files.Changes (fun place => files.openPlace path = .ok place) (fun _ => False)
      (catalog.flush files path).2.2 := by
  unfold Catalog.flush
  split
  · exact .refl files _ _
  cases hread : files.readText path with
  | error failure => exact .refl files _ _
  | ok source =>
    dsimp only
    split
    · exact .refl files _ _
    · rename_i updated _
      obtain ⟨place, later, hopen, hentry, rfl, hoverwrite, -⟩ := exists_overwrite hread updated
      rw [hoverwrite]
      exact .put_file hopen (by simp [hentry]) (by simp [hentry])

namespace AssetRegistry

/-- The files to copy, each with the path to copy it to. -/
def copies (registry : AssetRegistry) : List (FileSystem.Path × String) :=
  registry.registered.map fun registration =>
    (registration.1, joinPath registry.settings.projectRoot registration.2)

theorem copyAssets_fst (registry : AssetRegistry) (files : FileSystem) :
    (registry.copyAssets files).1 =
      if registry.settings.copy then files.copyAll registry.copies else files := by
  have hfold : ∀ (registrations : List (FileSystem.Path × String)) (state : FileSystem × Nat),
      (registrations.foldl registry.copyOne state).1 =
        state.1.copyAll (registrations.map fun registration =>
          (registration.1, joinPath registry.settings.projectRoot registration.2)) := by
    intro registrations
    induction registrations with
    | nil => exact fun _ => rfl
    | cons registration registrations ih =>
      intro state
      have hone : (registry.copyOne state registration).1 = (state.1.copy registration.1
          (joinPath registry.settings.projectRoot registration.2)).1 := by
        unfold copyOne
        split <;> simp [*]
      rw [List.foldl_cons, ih, hone]
      rfl
  unfold copyAssets
  split
  · exact hfold registry.registered (files, 0)
  · rfl

/-- A place that an asset of the registry is copied to. -/
def IsCopied (registry : AssetRegistry) (place : FileSystem.Path) : Prop :=
  registry.settings.copy = true ∧ IsTarget registry.copies place

/-- A place on the way to a file that an asset of the registry is copied to. -/
def IsAboveCopied (registry : AssetRegistry) (place : FileSystem.Path) : Prop :=
  registry.settings.copy = true ∧ IsAboveTarget registry.copies place

theorem changes_copyAssets (registry : AssetRegistry) (files : FileSystem) :
    files.Changes registry.IsCopied registry.IsAboveCopied (registry.copyAssets files).1 := by
  rw [copyAssets_fst]
  split
  · rename_i hcopy
    exact (files.changes_copyAll registry.copies).mono (fun _ h => ⟨hcopy, h⟩) fun _ h => ⟨hcopy, h⟩
  · exact .refl files _ _

/-- Copying leaves a text as it is that no asset is copied onto. -/
theorem readText_copyAssets {registry : AssetRegistry} {files : FileSystem} {file text : String}
    (hread : files.readText file = .ok text)
    (hcopy : registry.settings.copy = true → ∀ registration ∈ registry.registered,
      files.openPlace file ≠
        .ok (copyTarget (joinPath registry.settings.projectRoot registration.2))) :
    (registry.copyAssets files).1.readText file = .ok text := by
  have hchanges := registry.changes_copyAssets files
  obtain ⟨place, hopen, hentry⟩ := readText_eq_ok_iff.mp hread
  refine readText_eq_ok_iff.mpr
    ⟨place, hchanges.extendsTo.openPlace hopen, hchanges.entry?_eq_of_file hentry ?_⟩
  rintro ⟨hset, copy, hmem, rfl⟩
  obtain ⟨registration, hregistered, rfl⟩ := List.mem_map.mp hmem
  exact hcopy hset registration hregistered hopen

theorem changes_flushCatalog (registry : AssetRegistry) (files : FileSystem) :
    files.Changes (fun place => registry.catalog.isSome ∧
        files.openPlace registry.settings.catalogFile = .ok place)
      (fun _ => False) (registry.flushCatalog files).2.2 := by
  unfold flushCatalog
  split
  · exact .refl files _ _
  · rename_i catalog hcatalog
    refine (catalog.changes_flush files registry.settings.catalogFile).mono ?_ fun _ h => h
    exact fun place hplace => ⟨by rw [hcatalog]; rfl, hplace⟩

/-- Resolving a reference changes neither the settings nor whether there is a catalog. -/
theorem settings_resolve (registry : AssetRegistry) (files : FileSystem) (source : String)
    (hint : Option String) :
    (registry.resolve files source hint).2.settings = registry.settings ∧
      (registry.resolve files source hint).2.catalog.isSome = registry.catalog.isSome := by
  unfold resolve
  split
  · exact ⟨rfl, rfl⟩
  · rename_i path _
    obtain ⟨name, used, fileNames, hname, -, -⟩ := registry.exists_outputName path (hint.getD "")
    rw [hname]
    unfold reference
    dsimp only
    split
    · rename_i hcatalog
      exact ⟨rfl, by rw [hcatalog]; rfl⟩
    · exact ⟨rfl, rfl⟩

/-- The registry has the settings that options make, and a catalog only if its file can be read. -/
structure StartedFrom (files : FileSystem) (options : CompileOptions) (directory : String)
    (registry : AssetRegistry) : Prop where
  settings : registry.settings = settingsOf options directory
  catalog : registry.catalog.isSome → ∃ source, files.readText options.catalogFile = .ok source

theorem startedFrom_collectHints (files : FileSystem) (options : CompileOptions)
    (directory : String) (root : Markup.Node) :
    StartedFrom files options directory
      ((start files options directory).collectHints files root) := by
  obtain ⟨hints, hhints⟩ := (start files options directory).exists_collectHints files root
  rw [hhints]
  refine ⟨rfl, fun hcatalog => ?_⟩
  unfold start Catalog.load? at hcatalog
  cases hread : files.readText options.catalogFile with
  | error failure =>
    rw [hread] at hcatalog
    cases hcatalog
  | ok source => exact ⟨source, rfl⟩

theorem StartedFrom.resolve {files : FileSystem} {options : CompileOptions} {directory : String}
    {registry : AssetRegistry} (hstarted : StartedFrom files options directory registry)
    (source : String) (hint : Option String) :
    StartedFrom files options directory (registry.resolve files source hint).2 := by
  obtain ⟨hsettings, hcatalog⟩ := registry.settings_resolve files source hint
  exact ⟨hsettings.trans hstarted.settings, fun hsome => hstarted.catalog (hcatalog ▸ hsome)⟩

end AssetRegistry

end DesignCompiler.Asset
