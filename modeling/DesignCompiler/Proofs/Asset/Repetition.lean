import DesignCompiler.Proofs.Asset.Placement
import DesignCompiler.Proofs.Text.Trimming

/-!
# Assets resolved again

What a registry answers depends on its files below the markup directory and on its catalog alone. So
references are answered as before in later files where nothing changed there, with a catalog that
knows each registered path by the identifier it has, and copying the files once more changes
nothing.
-/

namespace DesignCompiler.Asset

open Text FileSystem

/-! ## References -/

private theorem trim_takeWhile_trim {p : Char → Bool} (hblank : ∀ c, isBlank c = true → p c = true)
    (text : List Char) : trim ((trim text).takeWhile p) = trim (text.takeWhile p) := by
  obtain ⟨front, back, htext, hfront, hback⟩ := exists_eq_append_trim text
  have hall : ∀ {blanks : List Char}, allBlank blanks = true → ∀ c ∈ blanks, p c = true :=
    fun hblanks c hc => hblank c (allBlank_iff.mp hblanks c hc)
  generalize trim text = inner at htext ⊢
  rw [htext, List.append_assoc, List.takeWhile_append_of_pos (hall hfront), List.takeWhile_append,
    trim_append_of_allBlank_left hfront]
  split
  · rename_i hwhole
    have hinner : inner.takeWhile p = inner :=
      (List.takeWhile_sublist p).eq_of_length hwhole
    have hafter : back.takeWhile p = back :=
      List.takeWhile_eq_self_iff.mpr (hall hback)
    rw [hinner, hafter, trim_append_of_allBlank_right hback]
  · rfl

/-- White space around a reference is not a part of its path. -/
theorem referencePath_trim (source : String) :
    referencePath (onChars trim source) = referencePath source := by
  unfold referencePath onChars
  rw [String.toList_ofList, trim_takeWhile_trim]
  intro c hc
  rw [Bool.and_eq_true]
  exact ⟨bne_iff_ne.mpr (ne_of_isBlank hc _), bne_iff_ne.mpr (ne_of_isBlank hc _)⟩

theorem isConfined_trim (source : String) :
    isConfined (onChars trim source) = isConfined source := by
  unfold isConfined
  rw [referencePath_trim]

/-- The canonical markup directory, where nothing changed. -/
structure SameDesign (files later : FileSystem) (directory : String) (base : FileSystem.Path) :
    Prop where
  canonical : files.follow [] (names directory) = .ok base
  still : later.follow [] (names directory) = .ok base
  same : ∀ place, base <+: place → later.entry? place = files.entry? place

namespace AssetRegistry

/-- A confined reference leads where it led. -/
theorem localPath?_of_sameDesign {registry : AssetRegistry} {files later : FileSystem}
    {base : FileSystem.Path}
    (hdesign : SameDesign files later registry.settings.markupDirectory base)
    {source : String} (hconfined : isConfined source = true) :
    registry.localPath? later source = registry.localPath? files source := by
  unfold localPath?
  dsimp only
  split
  · rfl
  rename_i hnot
  rw [Bool.or_eq_true, not_or, Bool.not_eq_true, Bool.not_eq_true] at hnot
  unfold isConfined referencePath at hconfined
  rw [String.toList_ofList, hnot.2, Bool.false_or, Bool.and_eq_true, Bool.not_eq_true'] at hconfined
  rw [locate_congr hdesign.canonical hdesign.still hconfined.1 hconfined.2 hdesign.same]

theorem resolve_of_localPath?_eq {registry : AssetRegistry} {files later : FileSystem}
    {source : String}
    (hpath : registry.localPath? later source = registry.localPath? files source)
    (hint : Option String) :
    registry.resolve later source hint = registry.resolve files source hint := by
  unfold resolve
  rw [hpath]

/-! ## Another catalog -/

/-- The registry with another catalog. -/
def withCatalog (registry : AssetRegistry) (catalog : Option Catalog) : AssetRegistry :=
  { registry with catalog := catalog }

theorem start_eq_withCatalog (files later : FileSystem) (options : CompileOptions)
    (directory : String) :
    start later options directory =
      (start files options directory).withCatalog (Catalog.load? later options.catalogFile) := rfl

section

variable (registry : AssetRegistry) (catalog : Option Catalog)

@[simp]
theorem catalog_withCatalog : (registry.withCatalog catalog).catalog = catalog := rfl

@[simp]
theorem registered_withCatalog :
    (registry.withCatalog catalog).registered = registry.registered := rfl

theorem copyAssets_withCatalog (files : FileSystem) :
    ((registry.withCatalog catalog).copyAssets files).1 = (registry.copyAssets files).1 := by
  rw [copyAssets_fst, copyAssets_fst]
  rfl

theorem localPath?_withCatalog (files : FileSystem) (source : String) :
    (registry.withCatalog catalog).localPath? files source = registry.localPath? files source := rfl

theorem outputName_withCatalog (path : FileSystem.Path) (hint : String) :
    (registry.withCatalog catalog).outputName path hint =
      ((registry.outputName path hint).1,
        (registry.outputName path hint).2.withCatalog catalog) := by
  unfold outputName withCatalog
  dsimp only
  split
  · rfl
  · rfl

theorem addHint_withCatalog (path : FileSystem.Path) (hint : String) :
    (registry.withCatalog catalog).addHint path hint =
      (registry.addHint path hint).withCatalog catalog := by
  unfold addHint withCatalog
  dsimp only
  split
  · rfl
  · rfl

end

/-- The catalog knows each registered path by the identifier that it has. -/
def IsRecalledBy (registry : AssetRegistry) (known : Catalog) : Prop :=
  ∀ place relative name, registry.registrations.get? place = some relative →
    registry.Names relative name → known.identifiers.get? (normalPath relative) = some name

theorem GrowsTo.isRecalledBy {registry later : AssetRegistry} (hgrows : registry.GrowsTo later)
    {known : Catalog} (hknown : later.IsRecalledBy known) : registry.IsRecalledBy known :=
  fun place relative name hget hname =>
    hknown place relative name (hgrows.registered place relative hget)
      (hgrows.names relative name hname)

theorem reference_of_catalog {registry : AssetRegistry} {catalog : Catalog}
    (hcatalog : registry.catalog = some catalog) (relative : String) :
    registry.reference relative = (.ident ("AppAssets." ++ (catalog.resolve relative).1),
      registry.withCatalog (some (catalog.resolve relative).2)) := by
  unfold reference
  rw [hcatalog]
  rfl

/-- What a reference that leads to a file is answered with, from what its parts come to. -/
theorem resolve_eq {registry named referred : AssetRegistry} {files : FileSystem}
    {source name : String} {place : FileSystem.Path} {hint : Option String} {expr : Dart.Expr}
    (hpath : registry.localPath? files source = some place)
    (hname : registry.outputName place (hint.getD "") = (name, named))
    (hreference : named.reference (named.settings.relativePath name) = (expr, referred)) :
    registry.resolve files source hint =
      (some ⟨named.settings.relativePath name,
          endsWith ".svg".toList (lowerAscii name.toList), expr⟩,
        { referred with
          registrations :=
            referred.registrations.insert place (named.settings.relativePath name) }) := by
  unfold AssetSettings.relativePath at hreference ⊢
  simp only [resolve, hpath, hname, hreference]

/-- With a catalog that knows the identifiers a reference is resolved in the same way, and nothing
is added to that catalog. -/
theorem resolve_withCatalog {registry : AssetRegistry} {files later : FileSystem} {source : String}
    (hpath : registry.localPath? later source = registry.localPath? files source)
    (hcatalog : registry.catalog.isSome) {hint : Option String} {known : Catalog}
    (hknown : (registry.resolve files source hint).2.IsRecalledBy known) :
    (registry.withCatalog (some known)).resolve later source hint =
      ((registry.resolve files source hint).1,
        (registry.resolve files source hint).2.withCatalog (some known)) := by
  cases hlocal : registry.localPath? files source with
  | none =>
    rw [hlocal, ← registry.localPath?_withCatalog (some known)] at hpath
    rw [resolve_of_localPath?_eq_none hlocal, resolve_of_localPath?_eq_none hpath]
  | some place =>
    obtain ⟨catalog, hcatalog⟩ := Option.isSome_iff_exists.mp hcatalog
    obtain ⟨name, used, fileNames, hname, -, -⟩ := registry.exists_outputName place (hint.getD "")
    have hagainName := registry.outputName_withCatalog (some known) place (hint.getD "")
    rw [hname] at hagainName
    rw [hlocal, ← registry.localPath?_withCatalog (some known)] at hpath
    rw [resolve_eq hlocal hname (@reference_of_catalog
      { registry with usedNames := used, fileNames := fileNames } catalog hcatalog _)] at hknown ⊢
    -- The file is named before the catalog is asked, so the same path is asked for again.
    have hget : known.identifiers.get? (normalPath (registry.settings.relativePath name)) =
        some (catalog.resolve (registry.settings.relativePath name)).1 :=
      hknown place _ _ (by rw [Dictionary.get?_insert, if_pos rfl])
        ⟨_, rfl, Catalog.get?_resolve_self _ _⟩
    have hreference := reference_of_catalog
      (catalog_withCatalog { registry with usedNames := used, fileNames := fileNames } (some known))
      (registry.settings.relativePath name)
    rw [Catalog.resolve_of_known hget] at hreference
    rw [resolve_eq hpath hagainName hreference]
    rfl

/-! ## Pending paths -/

/-- What is pending are paths of registered files. -/
def PendsRegistered (registry : AssetRegistry) : Prop :=
  ∀ catalog path name, registry.catalog = some catalog → catalog.pending.get? path = some name →
    ∃ place relative, registry.registrations.get? place = some relative ∧ normalPath relative = path

/-- A catalog that was just read has nothing pending. -/
theorem pendsRegistered_collectHints (files : FileSystem) (options : CompileOptions)
    (directory : String) (root : Markup.Node) :
    ((AssetRegistry.start files options directory).collectHints files root).PendsRegistered := by
  obtain ⟨hints, hhints⟩ :=
    (AssetRegistry.start files options directory).exists_collectHints files root
  rw [hhints]
  intro catalog path name hcatalog hpending
  obtain ⟨source, -, rfl⟩ := Option.map_eq_some_iff.mp hcatalog
  rw [Catalog.pending_ofSource] at hpending
  cases hpending

theorem PendsRegistered.resolve {start : Catalog} {registry : AssetRegistry}
    (hpends : registry.PendsRegistered) (hgrown : GrownFrom start registry) (files : FileSystem)
    (source : String) (hint : Option String) :
    (registry.resolve files source hint).2.PendsRegistered := by
  cases hpath : registry.localPath? files source with
  | none =>
    rw [resolve_of_localPath?_eq_none hpath]
    exact hpends
  | some place =>
    obtain ⟨catalog, hcatalog, -⟩ := hgrown.catalog
    have hgrows := (hgrown.resolve files source hint).grows
    obtain ⟨name, used, fileNames, relative, identifier, isVector, -, -, -, -, heq⟩ :=
      exists_resolve hcatalog hpath hint
    rw [heq] at hgrows ⊢
    rintro _ path known ⟨⟩ hpending
    obtain hold | rfl := Catalog.pending_resolve hpending
    · obtain ⟨other, old, hget, hold⟩ := hpends catalog path known hcatalog hold
      exact ⟨other, old, hgrows.registered other old hget, hold⟩
    · exact ⟨place, relative, by rw [Dictionary.get?_insert, if_pos rfl], rfl⟩

/-! ## Hints -/

theorem hintOf?_withCatalog {registry : AssetRegistry} {files later : FileSystem}
    {base : FileSystem.Path}
    (hdesign : SameDesign files later registry.settings.markupDirectory base)
    {image : Markup.Element}
    (hconfined : ∀ source, image.attribute? "src" = some source → isConfined source = true)
    (catalog : Option Catalog) :
    (registry.withCatalog catalog).hintOf? later image = registry.hintOf? files image := by
  unfold hintOf?
  cases hsource : image.attribute? "src" with
  | none => rw [Option.bind_none, Option.bind_none]
  | some source =>
    rw [Option.bind_some, Option.bind_some, localPath?_withCatalog,
      localPath?_of_sameDesign hdesign (hconfined source hsource)]

theorem takeHint_withCatalog {registry : AssetRegistry} {files later : FileSystem}
    {base : FileSystem.Path}
    (hdesign : SameDesign files later registry.settings.markupDirectory base)
    {image : Markup.Element}
    (hconfined : ∀ source, image.attribute? "src" = some source → isConfined source = true)
    (catalog : Option Catalog) :
    (registry.withCatalog catalog).takeHint later image =
      (registry.takeHint files image).withCatalog catalog := by
  unfold takeHint
  rw [hintOf?_withCatalog hdesign hconfined]
  cases registry.hintOf? files image with
  | none => rfl
  | some found => exact registry.addHint_withCatalog catalog found.1 found.2

/-- Hints are collected as before. -/
theorem collectHints_withCatalog {registry : AssetRegistry} {files later : FileSystem}
    {base : FileSystem.Path}
    (hdesign : SameDesign files later registry.settings.markupDirectory base) {root : Markup.Node}
    (hconfined : ∀ element children source, .element element children ∈ root.subtrees →
      element.tag = "img" → element.attribute? "src" = some source → isConfined source = true)
    (catalog : Option Catalog) :
    (registry.withCatalog catalog).collectHints later root =
      (registry.collectHints files root).withCatalog catalog := by
  have himages : ∀ image ∈ images root,
      ∀ source, image.attribute? "src" = some source → isConfined source = true := by
    intro image himage source hsource
    obtain ⟨hmem, htag⟩ := List.mem_filter.mp himage
    obtain ⟨node, hnode, hhead⟩ := List.mem_filterMap.mp hmem
    cases node with
    | text _ => cases hhead
    | element element children =>
      obtain rfl := Option.some.inj hhead
      exact hconfined _ _ _ hnode (beq_iff_eq.mp htag) hsource
  rw [collectHints_eq_foldl, collectHints_eq_foldl]
  generalize images root = seen at himages ⊢
  induction seen generalizing registry with
  | nil => rfl
  | cons image seen ih =>
    rw [List.forall_mem_cons] at himages
    rw [List.foldl_cons, List.foldl_cons, takeHint_withCatalog hdesign himages.1]
    exact ih (by rwa [settings_takeHint]) himages.2

/-! ## Copies -/

/-- Files that stand outside the project are copied into it once and for all: as long as nothing
else is written in the design, nor onto a copy, copying them again changes nothing. -/
theorem Places.copyAssets_again {files later : FileSystem} {options : CompileOptions}
    {directory : String} {base : FileSystem.Path} {registry : AssetRegistry}
    {written made : FileSystem.Path → Prop} (hplaces : Places files options directory base registry)
    (hcontained : (settingsOf options directory).IsContained)
    (hapart : ∀ place, base <+: place → ¬ placeOf options.projectRoot <+: place)
    (hlater : (registry.copyAssets files).1.Changes written made later)
    (hwritten : ∀ place, written place → placeOf options.projectRoot <+: place)
    (hspared : registry.settings.copy = true →
      ∀ place, IsTarget registry.copies place → ¬ written place) :
    (registry.copyAssets later).1 = later := by
  rw [copyAssets_fst] at hlater ⊢
  split
  · rename_i hcopy
    rw [if_pos hcopy] at hlater
    refine copyAll_again hlater (hplaces.pairwise_copyTarget hcontained) (hspared hcopy) ?_
    intro copy hmem
    obtain ⟨hbelow, hentry, -⟩ := hplaces.exists_of_mem_copies hmem
    refine ⟨hentry, fun htarget => ?_, fun hplace => hapart _ hbelow (hwritten _ hplace)⟩
    exact hapart _ hbelow (hplaces.isPrefix_of_isTarget hcontained htarget)
  · rfl

end AssetRegistry

end DesignCompiler.Asset
