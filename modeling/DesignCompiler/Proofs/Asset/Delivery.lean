import DesignCompiler.Proofs.Asset.Placement
import DesignCompiler.Proofs.FileSystem.Writing

/-!
# Delivery of assets

Copying delivers every registered file to the place of its path, all through one directory and each
under a name of its own, and leaves the file itself as it is. The exception are files that stand
where an asset is copied to: they are overwritten, and a file that is its own destination is
emptied.
-/

namespace DesignCompiler.Asset

open Text FileSystem

namespace AssetRegistry

/-! ## Registries -/

/-- The registry of a compilation after any requests. The files may change between them. -/
inductive Served (options : CompileOptions) (directory : String) : AssetRegistry → Prop where
  | start (files : FileSystem) : Served options directory (start files options directory)
  | hints {registry : AssetRegistry} (files : FileSystem) (root : Markup.Node) :
      Served options directory registry →
      Served options directory (registry.collectHints files root)
  | asset {registry : AssetRegistry} (files : FileSystem) (source : String) (hint : Option String) :
      Served options directory registry →
      Served options directory (registry.resolve files source hint).2

/-- Each file is registered under a name of its own. -/
structure NamesFiles (options : CompileOptions) (directory : String) (registry : AssetRegistry) :
    Prop where
  settings : registry.settings = settingsOf options directory
  registers : registry.Registers
  isNameOf : ∀ path name, registry.fileNames.get? path = some name → IsNameOf path name

variable {options : CompileOptions} {directory : String} {registry : AssetRegistry}

/-- A resolved reference gives a name to its file alone. -/
theorem fileNames_resolve {files : FileSystem} {source : String} {path : FileSystem.Path}
    (hpath : registry.localPath? files source = some path) (hint : Option String) :
    (registry.resolve files source hint).2.fileNames =
      (registry.outputName path (hint.getD "")).2.fileNames := by
  obtain ⟨name, used, fileNames, hname, -, -⟩ := registry.exists_outputName path (hint.getD "")
  obtain ⟨expr, catalog, hreference, -⟩ := exists_reference_eq
    { registry with usedNames := used, fileNames := fileNames }
    (registry.settings.relativePath name)
  unfold AssetSettings.relativePath at hreference
  simp only [resolve, hpath, hname, hreference]

theorem NamesFiles.resolve (hnames : NamesFiles options directory registry) (files : FileSystem)
    (source : String) (hint : Option String) :
    NamesFiles options directory (registry.resolve files source hint).2 := by
  cases hpath : registry.localPath? files source with
  | none =>
    rw [resolve_of_localPath?_eq_none hpath hint]
    exact hnames
  | some path =>
    obtain ⟨found, -, hadds⟩ := hnames.registers.adds_resolve hpath hint
    obtain ⟨name, used, fileNames, hname, hget, -⟩ :=
      hnames.registers.exists_outputName_eq path (hint.getD "")
    have hnamed : IsNameOf path (registry.outputName path (hint.getD "")).1 := by
      refine isNameOf_outputName ?_ (hnames.isNameOf path)
        (fun last => isPlain_of_localPath? hpath) _
      rw [hnames.settings]
      exact slash_not_mem_label options directory
    refine ⟨hadds.grows.settings.trans hnames.settings, hadds.registers,
      fun other known hknown => ?_⟩
    rw [fileNames_resolve hpath, hname, hget] at hknown
    rw [hname] at hnamed
    split at hknown
    · rename_i hsame
      obtain rfl := Option.some.inj hknown
      rwa [← hsame]
    · exact hnames.isNameOf other known hknown

theorem Served.namesFiles (hserved : Served options directory registry) :
    NamesFiles options directory registry := by
  induction hserved with
  | start files =>
    exact ⟨rfl, registers_start files options directory, fun _ _ hnone => by cases hnone⟩
  | hints files root hserved ih =>
    obtain ⟨hregisters, hgrows, -⟩ := ih.registers.collectHints files root
    refine ⟨hgrows.settings.trans ih.settings, hregisters, ?_⟩
    obtain ⟨hints, hhints⟩ := exists_collectHints _ files root
    rw [hhints]
    exact ih.isNameOf
  | asset files source hint hserved ih => exact ih.resolve files source hint

/-! ## Copies -/

/-- A registered file has a name, under which it is copied to the asset directory. -/
theorem NamesFiles.exists_name (hnames : NamesFiles options directory registry)
    {source : FileSystem.Path} {relative : String}
    (hregistered : (source, relative) ∈ registry.registered) :
    ∃ name, IsNameOf source name ∧ registry.settings.relativePath name = relative ∧
      names (joinPath registry.settings.projectRoot relative) =
        registry.settings.assetNames ++ names name := by
  rw [hnames.registers.mem_registered_iff, hnames.registers.registered_iff] at hregistered
  obtain ⟨name, hname, rfl⟩ := hregistered
  have hnamed := hnames.isNameOf source name hname
  refine ⟨name, hnamed, rfl, registry.settings.names_joinPath_relativePath ?_⟩
  obtain hplain | ⟨-, rfl⟩ := hnamed
  · exact hplain.slash
  · decide

/-- All but the root of the file system have a plain name. -/
theorem NamesFiles.exists_plain (hnames : NamesFiles options directory registry)
    {source : FileSystem.Path} {relative : String}
    (hregistered : (source, relative) ∈ registry.registered) (hroot : source ≠ []) :
    ∃ name, IsPlain name ∧ registry.settings.relativePath name = relative ∧
      names (joinPath registry.settings.projectRoot relative) =
        registry.settings.assetNames ++ [name] := by
  obtain ⟨name, hplain | ⟨hsource, -⟩, hrelative, hpath⟩ := hnames.exists_name hregistered
  · exact ⟨name, hplain, hrelative, by rw [hpath, hplain.names_eq]⟩
  · exact absurd hsource hroot

theorem NamesFiles.isFilePath (hnames : NamesFiles options directory registry)
    {source : FileSystem.Path} {relative : String}
    (hregistered : (source, relative) ∈ registry.registered) (hroot : source ≠ []) :
    IsFilePath (joinPath registry.settings.projectRoot relative) := by
  obtain ⟨name, hplain, rfl, hpath⟩ := hnames.exists_plain hregistered hroot
  refine ⟨by simp [hpath], ?_, registry.settings.requiresDirectory_joinPath hplain⟩
  rw [hpath, List.getLast?_concat, ne_eq, Option.some.injEq]
  exact hplain.ne_up

/-- The copies go the same way, through the asset directory. -/
theorem NamesFiles.goesAlong (hnames : NamesFiles options directory registry)
    {source other : FileSystem.Path} {relative known : String}
    (hregistered : (source, relative) ∈ registry.registered) (hroot : source ≠ [])
    (hother : (other, known) ∈ registry.registered) (files : FileSystem) :
    files.GoesAlong (joinPath registry.settings.projectRoot relative)
      (other, joinPath registry.settings.projectRoot known) := by
  obtain ⟨name, -, -, hpath⟩ := hnames.exists_plain hregistered hroot
  obtain ⟨name', hplain | ⟨rfl, rfl⟩, -, hpath'⟩ := hnames.exists_name hother
  · have hsame : (names (joinPath registry.settings.projectRoot known)).dropLast =
        (names (joinPath registry.settings.projectRoot relative)).dropLast := by
      rw [hpath, hpath', hplain.names_eq, List.dropLast_concat, List.dropLast_concat]
    exact ⟨by rw [hsame], .inl hsame⟩
  · -- The root of the file system is a directory, so nothing of it is copied.
    refine ⟨?_, .inr rfl⟩
    rw [hpath, hpath', names_empty, List.append_nil, List.dropLast_concat]
    exact List.dropLast_prefix _

/-- No two files are copied to the same place. -/
theorem NamesFiles.copyTarget_ne (hnames : NamesFiles options directory registry)
    {source other : FileSystem.Path} {relative known : String}
    (hregistered : (source, relative) ∈ registry.registered) (hroot : source ≠ [])
    (hother : (other, known) ∈ registry.registered) (hne : other ≠ source) (files : FileSystem) :
    copyTarget (joinPath registry.settings.projectRoot known) ≠
        copyTarget (joinPath registry.settings.projectRoot relative) ∨
      files.entry? other = some .directory := by
  by_cases hdirectory : other = []
  · exact .inr (by rw [hdirectory]; rfl)
  obtain ⟨name, -, rfl, hpath⟩ := hnames.exists_plain hregistered hroot
  obtain ⟨name', -, rfl, hpath'⟩ := hnames.exists_plain hother hdirectory
  refine .inl fun htarget => hne ?_
  rw [copyTarget, copyTarget, hpath, hpath', List.dropLast_concat, List.dropLast_concat,
    List.getLast?_concat, List.getLast?_concat, List.append_cancel_left_eq] at htarget
  obtain rfl : name' = name := by simpa using htarget
  rw [hnames.registers.mem_registered_iff] at hregistered hother
  exact hnames.registers.relative_injective hother hregistered

/-- A registered file is copied once: the copies before go its way, and none after has its
    target. -/
theorem NamesFiles.exists_copies_eq (hnames : NamesFiles options directory registry)
    {source : FileSystem.Path} {relative : String}
    (hregistered : (source, relative) ∈ registry.registered) (hroot : source ≠ [])
    (files : FileSystem) :
    ∃ before after, registry.copies =
        before ++ (source, joinPath registry.settings.projectRoot relative) :: after ∧
      (∀ copy ∈ before, files.GoesAlong (joinPath registry.settings.projectRoot relative) copy) ∧
      ∀ copy ∈ after,
        copyTarget copy.2 ≠ copyTarget (joinPath registry.settings.projectRoot relative) ∨
          files.entry? copy.1 = some .directory := by
  obtain ⟨before, after, hsplit⟩ := List.append_of_mem hregistered
  refine ⟨before.map fun registration =>
      (registration.1, joinPath registry.settings.projectRoot registration.2),
    after.map fun registration =>
      (registration.1, joinPath registry.settings.projectRoot registration.2), ?_, ?_, ?_⟩
  · rw [copies, hsplit, List.map_append, List.map_cons]
  · rw [List.forall_mem_map]
    intro registration hbefore
    refine hnames.goesAlong hregistered hroot ?_ files
    rw [hsplit]
    exact List.mem_append_left _ hbefore
  · rw [List.forall_mem_map]
    intro registration hafter
    refine hnames.copyTarget_ne hregistered hroot ?_ (fun hsame => ?_) files
    · rw [hsplit]
      exact List.mem_append_right _ (List.mem_cons_of_mem _ hafter)
    · have hnodup := hnames.registers.nodup_registered
      rw [hsplit, List.map_append, List.map_cons, List.nodup_append, List.nodup_cons] at hnodup
      have hmem : registration.1 ∈ after.map Prod.fst := List.mem_map_of_mem hafter
      exact hnodup.2.1.1 (hsame ▸ hmem)

/-- Whatever was requested before, a registered file that no asset is copied to is as it was after
    copying, and if its path can be written, this leads to a file with the same content. -/
theorem delivers_copyAssets (hserved : Served options directory registry)
    (hcopy : options.copyAssets = true) (files : FileSystem) {source : FileSystem.Path}
    {relative : String} {content : Content}
    (hregistered : (source, relative) ∈ registry.registered)
    (hsource : files.entry? source = some (.file content))
    (hspared : ¬ IsTarget registry.copies source) :
    FileSystem.entry? (registry.copyAssets files).1 source = some (.file content) ∧
      (files.IsWritable (joinPath options.projectRoot relative) →
        ∃ place, FileSystem.openPlace (registry.copyAssets files).1
            (joinPath options.projectRoot relative) = .ok place ∧
          FileSystem.entry? (registry.copyAssets files).1 place = some (.file content)) := by
  have hnames := hserved.namesFiles
  have hroot : source ≠ [] := by
    rintro rfl
    cases hsource
  have hproject : registry.settings.projectRoot = options.projectRoot := by
    rw [hnames.settings, projectRoot_settingsOf]
  have hset : registry.settings.copy = true := by
    rw [hnames.settings]
    exact hcopy
  have hothers : ∀ copy ∈ registry.copies,
      copyTarget copy.2 ≠ source ∨ files.entry? copy.1 = some .directory :=
    fun copy hmem => .inl fun htarget => hspared ⟨copy, hmem, htarget.symm⟩
  rw [copyAssets_fst, if_pos hset, ← hproject]
  refine ⟨entry?_copyAll_of_file hsource hothers, fun hwritable => ?_⟩
  obtain ⟨before, after, hcopies, hbefore, hafter⟩ :=
    hnames.exists_copies_eq hregistered hroot files
  rw [hcopies] at hothers ⊢
  exact ⟨_, delivers_copyAll (hnames.isFilePath hregistered hroot) hwritable hsource hothers hbefore
    hafter⟩

/-- A project with the directory of its assets, and a design with a logo. -/
private def logoFiles : FileSystem :=
  ⟨[(["app"], .directory), (["app", "assets"], .directory),
    (["app", "assets", "figma"], .directory),
    (["app", "assets", "figma", "logo.svg"], .file (.text "old")), (["design"], .directory),
    (["design", "logo.svg"], .file (.text "new"))]⟩

private def logoOptions : CompileOptions := { projectRoot := "app" }

/-- The registry after a request for one file. -/
private def logoRegistry (source : String) : AssetRegistry :=
  ((start logoFiles logoOptions "design").resolve logoFiles source none).2

private theorem isWritable_logo : logoFiles.IsWritable "app/assets/figma/logo.svg" :=
  .of_copy (by decide +kernel) (show logoFiles.entry? ["design", "logo.svg"] = _ from rfl)
    ⟨["app", "assets", "figma", "logo.svg"], rfl⟩

/-- The logo of the design is copied over the old one. -/
theorem delivers_copyAssets_logo :
    FileSystem.entry? ((logoRegistry "logo.svg").copyAssets logoFiles).1 ["design", "logo.svg"] =
        some (.file (.text "new")) ∧
      ∃ place, FileSystem.openPlace ((logoRegistry "logo.svg").copyAssets logoFiles).1
          "app/assets/figma/logo.svg" = .ok place ∧
        FileSystem.entry? ((logoRegistry "logo.svg").copyAssets logoFiles).1 place =
          some (.file (.text "new")) := by
  have hserved : Served logoOptions "design" (logoRegistry "logo.svg") :=
    .asset logoFiles "logo.svg" none (.start logoFiles)
  have hregistered : (logoRegistry "logo.svg").registered =
      [(["design", "logo.svg"], "assets/figma/logo.svg")] := by decide +kernel
  have hspared : ¬ IsTarget (logoRegistry "logo.svg").copies ["design", "logo.svg"] := by
    rintro ⟨copy, hcopy, htarget⟩
    rw [copies, hregistered] at hcopy
    obtain rfl := List.mem_singleton.mp hcopy
    exact absurd htarget (by decide +kernel)
  obtain ⟨hkept, hdelivered⟩ := delivers_copyAssets hserved rfl logoFiles
    (hregistered ▸ List.mem_singleton.mpr rfl)
    (show logoFiles.entry? ["design", "logo.svg"] = some (.file (.text "new")) from rfl) hspared
  have hpath : joinPath logoOptions.projectRoot "assets/figma/logo.svg" =
      "app/assets/figma/logo.svg" := by decide +kernel
  rw [hpath] at hdelivered
  exact ⟨hkept, hdelivered isWritable_logo⟩

/-- A logo of the project that the markup refers to is copied onto itself: it ends up empty. -/
theorem copyAssets_empties_logo :
    Served logoOptions "design" (logoRegistry "../app/assets/figma/logo.svg") ∧
      logoOptions.copyAssets = true ∧
      (logoRegistry "../app/assets/figma/logo.svg").registered =
        [(["app", "assets", "figma", "logo.svg"], "assets/figma/logo.svg")] ∧
      logoFiles.IsWritable (joinPath logoOptions.projectRoot "assets/figma/logo.svg") ∧
      logoFiles.entry? ["app", "assets", "figma", "logo.svg"] = some (.file (.text "old")) ∧
      FileSystem.entry? ((logoRegistry "../app/assets/figma/logo.svg").copyAssets logoFiles).1
        ["app", "assets", "figma", "logo.svg"] = some (.file (.text "")) := by
  have hregistered : (logoRegistry "../app/assets/figma/logo.svg").registered =
      [(["app", "assets", "figma", "logo.svg"], "assets/figma/logo.svg")] := by decide +kernel
  have hpath : joinPath logoOptions.projectRoot "assets/figma/logo.svg" =
      "app/assets/figma/logo.svg" := by decide +kernel
  refine ⟨.asset _ _ _ (.start logoFiles), rfl, hregistered, ?_, rfl, ?_⟩
  · rw [hpath]
    exact isWritable_logo
  · rw [copyAssets_fst, copies, hregistered]
    rfl

end AssetRegistry

end DesignCompiler.Asset
