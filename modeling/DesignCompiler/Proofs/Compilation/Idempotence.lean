import DesignCompiler.Proofs.Asset.Recall
import DesignCompiler.Proofs.Asset.Repetition
import DesignCompiler.Proofs.Compilation.Effects

/-!
# Compiling again

A second run finds the sources, the design and the copies as they were, and in the catalog each path
under the identifier that the first run gave it. So it writes the same document and changes nothing.
What this takes of the project is that it is apart from the design, and what it takes of the assets
is that their references stay in the design, that their paths are read as they are written, and that
none of them is copied onto the catalog.
-/

namespace DesignCompiler

open FileSystem Asset Synthesis Markup

/-! ## Projects and designs -/

/-- The design and the project are apart: neither is in the other one, the sources are not in the
project, and no directory of the design is made on the way to the project. The asset directory and
the catalog are in the project, and the path of the catalog leads to a file in its place. -/
structure IsSeparated (options : CompileOptions) (files : FileSystem) (component : Component)
    (design : FileSystem.Path) : Prop where
  canonical : files.follow [] (names component.markupDirectory) = .ok design
  design_outside : ¬ placeOf options.projectRoot <+: design
  project_outside : ¬ design <+: placeOf options.projectRoot
  sources : ∀ path ∈ [component.markupPath, component.stylePath],
    ¬ placeOf options.projectRoot <+: placeOf path
  way : ∀ place, OnTheWay [] (names options.projectRoot) place → design <+: place →
    files.entry? place ≠ none
  assets : (AssetRegistry.settingsOf options component.markupDirectory).IsContained
  catalog : placeOf options.projectRoot <+: placeOf options.catalogFile
  reached : ∀ content, files.entry? (placeOf options.catalogFile) = some (.file content) →
    files.follow [] (names options.catalogFile) = .ok (placeOf options.catalogFile)

/-- The references of all images in a document are confined. -/
def ConfinedImages (document : Document) : Prop :=
  ∀ element children, .element element children ∈ document.root.subtrees → element.tag = "img" →
    isConfined (imageSource element) = true

instance (document : Document) : Decidable (ConfinedImages document) :=
  decidable_of_iff (document.root.subtrees.all (fun node => node.head?.all fun element =>
      element.tag != "img" || isConfined (imageSource element)) = true) <| by
    rw [List.all_eq_true]
    constructor
    · intro hall element children hmem htag
      have helement := hall _ hmem
      rw [Node.head?, Option.all_some, htag] at helement
      simpa using helement
    · intro hconfined node hmem
      cases node with
      | text _ => rfl
      | element element children =>
        rw [Node.head?, Option.all_some, Bool.or_eq_true, bne_iff_ne]
        by_cases htag : element.tag = "img"
        · exact .inr (hconfined element children hmem htag)
        · exact .inl htag

theorem ConfinedImages.attribute {document : Document} (hconfined : ConfinedImages document)
    {element : Element} {children : List Node} {source : String}
    (hmem : .element element children ∈ document.root.subtrees) (htag : element.tag = "img")
    (hsource : element.attribute? "src" = some source) : isConfined source = true := by
  have himage := hconfined element children hmem htag
  unfold imageSource at himage
  rwa [hsource, Option.getD_some, isConfined_trim] at himage

namespace IsSeparated

variable {options : CompileOptions} {files : FileSystem} {component : Component}
  {design : FileSystem.Path}

theorem design_ne_nil (hseparated : IsSeparated options files component design) : design ≠ [] := by
  rintro rfl
  exact hseparated.project_outside (List.nil_prefix)

/-- What is in the design is not in the project. -/
theorem not_in_project (hseparated : IsSeparated options files component design)
    {place : FileSystem.Path} (hbelow : design <+: place) :
    ¬ placeOf options.projectRoot <+: place := by
  intro hproject
  obtain hprefix | hprefix := List.prefix_or_prefix_of_prefix hbelow hproject
  · exact hseparated.project_outside hprefix
  · exact hseparated.design_outside hprefix

/-- Where the project alone changes, the design stays as it is. -/
theorem sameDesign (hseparated : IsSeparated options files component design) {later : FileSystem}
    (hchanges : files.Changes (fun place => placeOf options.projectRoot <+: place)
      (fun place => OnTheWay [] (names options.projectRoot) place ∨
        placeOf options.projectRoot <+: place) later) :
    SameDesign files later component.markupDirectory design := by
  refine ⟨hseparated.canonical, hchanges.extendsTo.follow hseparated.canonical, ?_⟩
  intro place hbelow
  have hnot := hseparated.not_in_project hbelow
  by_cases hentry : files.entry? place = none
  · refine hchanges.entry?_eq hnot ?_
    rintro (hway | hproject)
    · exact hseparated.way place hway hbelow hentry
    · exact hnot hproject
  · exact hchanges.entry?_eq_of_ne_none hentry hnot

/-- Where the project alone changes, the component is read as before. -/
theorem readComponent_eq (hseparated : IsSeparated options files component design)
    {later : FileSystem} {made : FileSystem.Path → Prop}
    (hchanges : files.Changes (fun place => placeOf options.projectRoot <+: place) made later)
    {preprocessor : Option Preprocessor} {read : StyleTable × Document}
    (hread : readComponent files preprocessor component = .ok read) :
    readComponent later preprocessor component = .ok read := by
  have htext : ∀ path ∈ [component.markupPath, component.stylePath], ∀ text,
      files.readText path = .ok text → later.readText path = .ok text :=
    fun path hpath _ htext => hchanges.readText (hseparated.sources path hpath) htext
  unfold readComponent readSource at hread ⊢
  cases hmarkup : files.readText component.markupPath with
  | error _ =>
    rw [hmarkup] at hread
    cases hread
  | ok markup =>
    cases hstyle : files.readText component.stylePath with
    | error _ =>
      rw [hmarkup, hstyle] at hread
      cases hread
    | ok style =>
      rw [hmarkup, hstyle] at hread
      rw [htext _ (by simp) markup hmarkup, htext _ (by simp) style hstyle]
      exact hread

end IsSeparated

/-! ## What the first run does -/

section

variable {scene : Scene} {component : Component} {document : Document} {design : FileSystem.Path}

theorem places_generate (hseparated : IsSeparated scene.options scene.files component design)
    (hconfined : ConfinedImages document) :
    AssetRegistry.Places scene.files scene.options component.markupDirectory design
      (generate scene component document).2 :=
  scene.keeps_synthesize document.root _
    (fun element children hmem htag _ hplaces => hplaces.resolve hseparated.canonical
      hseparated.design_ne_nil (hconfined element children hmem htag) _)
    (AssetRegistry.places_collectHints _)

/-- Copying the assets changes the project alone. -/
theorem changes_project (hseparated : IsSeparated scene.options scene.files component design)
    (hconfined : ConfinedImages document) :
    scene.files.Changes (fun place => placeOf scene.options.projectRoot <+: place)
      (fun place => OnTheWay [] (names scene.options.projectRoot) place ∨
        placeOf scene.options.projectRoot <+: place)
      ((generate scene component document).2.copyAssets scene.files).1 := by
  have hplaces := places_generate hseparated hconfined
  refine ((generate scene component document).2.changes_copyAssets scene.files).mono ?_ ?_
  · exact fun place hplace => hplaces.isPrefix_of_isTarget hseparated.assets hplace.2
  · exact fun place hplace => hplaces.onTheWay_of_isAboveTarget hseparated.assets hplace.2

/-- A flush writes the file in the place of the catalog alone. -/
theorem changes_catalog (files : FileSystem) :
    files.Changes (· = placeOf scene.options.catalogFile) (fun _ => False)
      ((generate scene component document).2.flushCatalog files).2.2 := by
  have hsettings := (startedFrom_generate scene component document).settings
  refine ((generate scene component document).2.changes_flushCatalog files).mono ?_ fun _ h => h
  rintro place ⟨-, hopen⟩
  rw [hsettings] at hopen
  exact eq_placeOf_of_openPlace hopen

/-- Copying puts nothing in the place of the catalog, if no asset is to be copied there. -/
theorem ne_of_isCopied
    (hspared : scene.options.copyAssets = true → ∀ relative ∈ assetsOf scene component document,
      copyTarget (joinPath scene.options.projectRoot relative) ≠ placeOf scene.options.catalogFile)
    {place : FileSystem.Path} (hcopied : (generate scene component document).2.IsCopied place) :
    place ≠ placeOf scene.options.catalogFile := by
  obtain ⟨hcopy, copy, hmem, rfl⟩ := hcopied
  obtain ⟨⟨place, relative⟩, hregistered, rfl⟩ := List.mem_map.mp hmem
  rw [(startedFrom_generate scene component document).settings] at hcopy ⊢
  exact hspared hcopy relative (List.mem_map_of_mem hregistered)

/-- With a readable catalog what is pending are paths of registered files. -/
theorem pendsRegistered_generate {source : String}
    (hread : scene.files.readText scene.options.catalogFile = .ok source) :
    AssetRegistry.GrownFrom (.ofSource source) (generate scene component document).2 ∧
      (generate scene component document).2.PendsRegistered := by
  have hstart := AssetRegistry.grownFrom_start hread component.markupDirectory document.root
  exact scene.keeps_synthesize document.root
    (fun assets => AssetRegistry.GrownFrom (.ofSource source) assets ∧ assets.PendsRegistered)
    (fun element children _ _ assets ⟨hgrown, hpends⟩ =>
      ⟨(hgrown.resolve scene.files _ _).grown, hpends.resolve hgrown scene.files _ _⟩)
    ⟨hstart, AssetRegistry.pendsRegistered_collectHints _ _ _ _⟩

/-! ## What the second run generates -/

/-- Where references are resolved alike, so is the document generated. -/
theorem generate_agree {correspondence : Correspondence} {later : FileSystem}
    (himages : correspondence.ImagesAgree scene.files later document.root)
    {hinted hinted' : AssetRegistry}
    (hhinted :
      (AssetRegistry.start scene.files scene.options component.markupDirectory).collectHints
        scene.files document.root = hinted)
    (hhinted' :
      (AssetRegistry.start later scene.options component.markupDirectory).collectHints
        later document.root = hinted')
    (hvalid : correspondence.Valid hinted) (hrelated : correspondence.Related hinted hinted')
    (haccepted : correspondence.Accepted (generate scene component document).2) :
    (generate (Correspondence.withFiles scene later) component document).1 =
        (generate scene component document).1 ∧
      correspondence.Related (generate scene component document).2
        (generate (Correspondence.withFiles scene later) component document).2 := by
  have hrun :=
    (Correspondence.agree_node true document.root himages).agree hinted hinted' hvalid hrelated
  unfold generate Scene.synthesize at haccepted ⊢
  dsimp only at haccepted ⊢
  rw [hhinted] at haccepted ⊢
  rw [hhinted']
  generalize (scene.node true document.root).run hinted = first at hrun haccepted ⊢
  generalize ((Correspondence.withFiles scene later).node true document.root).run hinted' = second
    at hrun ⊢
  obtain ⟨root, last⟩ := first
  obtain ⟨root', last'⟩ := second
  obtain ⟨rfl, hlast⟩ := hrun haccepted
  exact ⟨rfl, hlast⟩

/-- Before the second synthesis the assets differ in the catalog alone. -/
theorem collectHints_again {later : FileSystem} {options : CompileOptions}
    (hdesign : SameDesign scene.files later component.markupDirectory design)
    (hconfined : ConfinedImages document) :
    (AssetRegistry.start later options component.markupDirectory).collectHints later document.root =
      ((AssetRegistry.start scene.files options component.markupDirectory).collectHints scene.files
        document.root).withCatalog (Catalog.load? later options.catalogFile) := by
  rw [AssetRegistry.start_eq_withCatalog scene.files later]
  exact AssetRegistry.collectHints_withCatalog hdesign
    (fun _ _ _ hmem htag hsource => hconfined.attribute hmem htag hsource) _

private theorem localPath?_again {later : FileSystem} {assets : AssetRegistry}
    (hdesign : SameDesign scene.files later component.markupDirectory design)
    (hsettings : assets.settings = AssetRegistry.settingsOf scene.options component.markupDirectory)
    {source : String} (hconfined : isConfined source = true) :
    assets.localPath? later source = assets.localPath? scene.files source := by
  apply AssetRegistry.localPath?_of_sameDesign _ hconfined
  · exact design
  · rw [hsettings]
    exact hdesign

/-- With the same catalog the same document is generated from the same assets. -/
theorem generate_of_same_catalog {later : FileSystem}
    (hdesign : SameDesign scene.files later component.markupDirectory design)
    (hconfined : ConfinedImages document)
    (hcatalog : Catalog.load? later scene.options.catalogFile =
      Catalog.load? scene.files scene.options.catalogFile) :
    generate (Correspondence.withFiles scene later) component document =
      generate scene component document := by
  let same : Correspondence := ⟨fun assets => assets.settings =
    AssetRegistry.settingsOf scene.options component.markupDirectory, Eq, fun _ => True⟩
  have himages : same.ImagesAgree scene.files later document.root := by
    intro element children hmem htag
    refine Correspondence.agree_modifyGet ?_ (fun _ _ _ => trivial) ?_
    · exact fun assets hsettings => (assets.settings_resolve _ _ _).1.trans hsettings
    · rintro assets _ hsettings rfl -
      have hpath := localPath?_again hdesign hsettings (hconfined element children hmem htag)
      have hresolve := AssetRegistry.resolve_of_localPath?_eq hpath element.classAttribute?
      exact ⟨(congrArg Prod.fst hresolve).symm, (congrArg Prod.snd hresolve).symm⟩
  obtain ⟨hints, hhints⟩ := (AssetRegistry.start scene.files scene.options
    component.markupDirectory).exists_collectHints scene.files document.root
  have hagain := @collectHints_again scene component document design later scene.options hdesign
    hconfined
  obtain ⟨hsource, hassets⟩ := generate_agree himages hhints (by rw [hagain, hhints, hcatalog]; rfl)
    rfl rfl trivial
  exact Prod.ext hsource hassets.symm

/-- With a catalog that recalls the identifiers of all assets the same document is generated, and
nothing is added to that catalog. -/
theorem generate_of_recalled {later : FileSystem} {source written : String}
    (hdesign : SameDesign scene.files later component.markupDirectory design)
    (hconfined : ConfinedImages document)
    (hread : scene.files.readText scene.options.catalogFile = .ok source)
    (hwritten : later.readText scene.options.catalogFile = .ok written)
    (hknown : (generate scene component document).2.IsRecalledBy (.ofSource written)) :
    generate (Correspondence.withFiles scene later) component document =
      ((generate scene component document).1,
        (generate scene component document).2.withCatalog (some (.ofSource written))) := by
  let recalled : Correspondence := ⟨
    fun assets =>
      assets.settings = AssetRegistry.settingsOf scene.options component.markupDirectory ∧
      AssetRegistry.GrownFrom (.ofSource source) assets,
    fun assets other => other = assets.withCatalog (some (.ofSource written)),
    fun assets => assets.IsRecalledBy (.ofSource written)⟩
  have himages : recalled.ImagesAgree scene.files later document.root := by
    intro element children hmem htag
    refine Correspondence.agree_modifyGet ?_ ?_ ?_
    · rintro assets ⟨hsettings, hgrown⟩
      exact ⟨(assets.settings_resolve _ _ _).1.trans hsettings, (hgrown.resolve _ _ _).grown⟩
    · -- The file recalls what is registered in the end, so also what was registered so far.
      rintro assets ⟨-, hgrown⟩ haccepted
      exact (hgrown.resolve _ _ _).grows.isRecalledBy haccepted
    · rintro assets _ ⟨hsettings, hgrown⟩ rfl haccepted
      obtain ⟨catalog, hcatalog, -⟩ := hgrown.catalog
      have hpath := localPath?_again hdesign hsettings (hconfined element children hmem htag)
      have hresolve := @AssetRegistry.resolve_withCatalog assets scene.files later
        (imageSource element) hpath (by rw [hcatalog]; rfl) element.classAttribute?
        (.ofSource written) haccepted
      obtain ⟨hvalue, hlast⟩ := Prod.ext_iff.mp hresolve
      dsimp only at hvalue hlast
      exact ⟨hvalue.symm, hlast⟩
  have hstart := AssetRegistry.grownFrom_start hread component.markupDirectory document.root
  have hagain := @collectHints_again scene component document design later scene.options hdesign
    hconfined
  have hload : Catalog.load? later scene.options.catalogFile = some (.ofSource written) := by
    rw [Catalog.load?, hwritten]
    rfl
  obtain ⟨hsource, hassets⟩ := generate_agree himages rfl hagain
    ⟨(AssetRegistry.startedFrom_collectHints _ _ _ _).settings, hstart⟩ (by rw [hload]) hknown
  exact Prod.ext hsource hassets

end

/-! ## Both runs -/

section

variable {options : CompileOptions} {preprocessor : Option Preprocessor} {files later : FileSystem}
  {component : Component} {styles : StyleTable} {document : Document} {source : String}
  {assets registry : AssetRegistry} {count : Nat}

/-- A compilation succeeds when its catalog can be written. -/
theorem compile_of_flushCatalog
    (hread : readComponent files preprocessor component = .ok (styles, document))
    (hgenerate : generate ⟨styles, options, files⟩ component document = (source, assets))
    (hflush : assets.flushCatalog (assets.copyAssets files).1 = (.ok count, registry, later)) :
    compile options preprocessor files component =
      (.ok ⟨source, component.name, assets.registered.map Prod.snd⟩, later) := by
  have hregistered := registered_flushCatalog assets (assets.copyAssets files).1
  rw [hflush] at hregistered
  unfold compile
  rw [hread]
  dsimp only
  rw [hgenerate]
  dsimp only
  rw [hflush]
  dsimp only at hregistered ⊢
  rw [hregistered]

/-- What a compilation that succeeds did. -/
theorem exists_flushCatalog_of_compile {output : CompileOutput}
    (hcompile : compile options preprocessor files component = (.ok output, later)) :
    ∃ styles document count registry,
      readComponent files preprocessor component = .ok (styles, document) ∧
        (generate ⟨styles, options, files⟩ component document).2.flushCatalog
          ((generate ⟨styles, options, files⟩ component document).2.copyAssets files).1 =
            (.ok count, registry, later) ∧
        output = ⟨(generate ⟨styles, options, files⟩ component document).1, component.name,
          assetsOf ⟨styles, options, files⟩ component document⟩ := by
  cases hread : readComponent files preprocessor component with
  | error error =>
    rw [compile, hread] at hcompile
    cases hcompile
  | ok read =>
    obtain ⟨styles, document⟩ := read
    cases hflush : (generate ⟨styles, options, files⟩ component document).2.flushCatalog
      ((generate ⟨styles, options, files⟩ component document).2.copyAssets files).1 with
    | mk result rest =>
      obtain ⟨registry, last⟩ := rest
      cases result with
      | error failure =>
        rw [compile, hread] at hcompile
        dsimp only at hcompile
        rw [hflush] at hcompile
        cases hcompile
      | ok count =>
        have hresult := compile_of_flushCatalog hread rfl hflush
        rw [hcompile, Prod.mk.injEq, Except.ok.injEq] at hresult
        obtain ⟨rfl, rfl⟩ := hresult
        exact ⟨styles, document, count, registry, rfl, hflush, rfl⟩

end

section

variable {scene : Scene} {component : Component} {document : Document} {design : FileSystem.Path}

/-- The catalog file recalls the identifiers of recallable paths once they are written to it. -/
theorem isRecalledBy_written {source written : String} {front tail : List Char} {catalog : Catalog}
    (hread : scene.files.readText scene.options.catalogFile = .ok source)
    (hcatalog : (generate scene component document).2.catalog = some catalog)
    (hrecallable : ∀ relative ∈ assetsOf scene component document,
      IsRecallable (normalPath relative))
    (hpending : catalog.pending.isEmpty = false) (hcloses : Catalog.ClosesAt source front tail)
    (hwritten : written.toList = front ++ '\n' :: catalog.pendingLines ++ ['\n', '\x7d'] ++ tail) :
    (generate scene component document).2.IsRecalledBy (.ofSource written) := by
  obtain ⟨hgrown, hpends⟩ := @pendsRegistered_generate scene component document source hread
  obtain ⟨_, hsame, hstart⟩ := hgrown.catalog
  obtain rfl := Option.some.inj (hcatalog.symm.trans hsame)
  have hregistered : ∀ place relative,
      (generate scene component document).2.registrations.get? place = some relative →
        IsRecallable (normalPath relative) := fun place relative hget =>
    hrecallable relative (List.mem_map_of_mem (AssetRegistry.mem_registered_of_get? hget))
  intro place relative name hget hname
  rw [Catalog.get?_written hcloses hstart hpending ?_ hwritten (hregistered place relative hget)]
  · exact hname.get?_of_catalog hcatalog
  · intro path known hpath
    obtain ⟨other, registered, hother, rfl⟩ := hpends catalog path known hcatalog hpath
    exact hregistered other registered hother

/-- Unless it put lines into the catalog file, the first flush has the catalog of the second run as
it was and leaves nothing to do. If it did, the file recalls all identifiers. -/
theorem flushCatalog_generate {later : FileSystem} {count : Nat} {registry : AssetRegistry}
    (hseparated : IsSeparated scene.options scene.files component design)
    (hrecallable : ∀ source, scene.files.readText scene.options.catalogFile = .ok source →
      ∀ relative ∈ assetsOf scene component document, IsRecallable (normalPath relative))
    (hspared : scene.options.copyAssets = true → ∀ relative ∈ assetsOf scene component document,
      copyTarget (joinPath scene.options.projectRoot relative) ≠ placeOf scene.options.catalogFile)
    (hflush : (generate scene component document).2.flushCatalog
      ((generate scene component document).2.copyAssets scene.files).1 =
        (.ok count, registry, later)) :
    (Catalog.load? later scene.options.catalogFile =
        Catalog.load? scene.files scene.options.catalogFile ∧
      ∃ registry, (generate scene component document).2.flushCatalog later =
        (.ok 0, registry, later)) ∨
    ∃ source written, scene.files.readText scene.options.catalogFile = .ok source ∧
      later.readText scene.options.catalogFile = .ok written ∧
      (generate scene component document).2.IsRecalledBy (.ofSource written) := by
  obtain ⟨hsettings, hreadable⟩ := startedFrom_generate scene component document
  have hchanges := (generate scene component document).2.changes_copyAssets scene.files
  have hplace : ¬ (generate scene component document).2.IsCopied
      (placeOf scene.options.catalogFile) :=
    fun hcopied => ne_of_isCopied hspared hcopied rfl
  have hfile : (generate scene component document).2.settings.catalogFile =
      scene.options.catalogFile := by
    rw [hsettings]
    rfl
  unfold Catalog.load?
  cases hread : scene.files.readText scene.options.catalogFile with
  | error failure =>
    have hnone : (generate scene component document).2.catalog = none := by
      rw [← Option.not_isSome_iff_eq_none]
      intro hsome
      obtain ⟨source, hsource⟩ := hreadable hsome
      rw [hsource] at hread
      cases hread
    have hskip : ∀ files, (generate scene component document).2.flushCatalog files =
        (.ok 0, (generate scene component document).2, files) := fun files => by
      rw [AssetRegistry.flushCatalog, hnone]
    rw [hskip, Prod.mk.injEq, Prod.mk.injEq] at hflush
    obtain ⟨-, -, rfl⟩ := hflush
    refine .inl ⟨?_, _, hskip _⟩
    -- Copying may make directories on the way to the catalog, but puts no file in its place.
    cases hlater : FileSystem.readText
      ((generate scene component document).2.copyAssets scene.files).1
      scene.options.catalogFile with
    | error failure => rfl
    | ok written =>
      rw [hchanges.readText_of_later hplace hseparated.reached hlater] at hread
      cases hread
  | ok source =>
    have hcopied := hchanges.readText hplace hread
    obtain ⟨catalog, hcatalog, -⟩ :=
      (@pendsRegistered_generate scene component document source hread).1.catalog
    have hdone : ∀ files, (generate scene component document).2.flushCatalog files =
        ((catalog.flush files scene.options.catalogFile).1,
          (generate scene component document).2.withCatalog
            (some (catalog.flush files scene.options.catalogFile).2.1),
          (catalog.flush files scene.options.catalogFile).2.2) := fun files => by
      rw [AssetRegistry.flushCatalog, hcatalog, hfile]
      rfl
    rw [hdone, Prod.mk.injEq, Prod.mk.injEq] at hflush
    obtain ⟨-, -, rfl⟩ := hflush
    obtain hskip | ⟨front, tail, written, last, hpending, hcloses, hflushed, hwritten, hlist⟩ :=
      Catalog.flush_cases hcopied
    · refine .inl ?_
      rw [hskip]
      dsimp only
      rw [hcopied, hdone, hskip]
      exact ⟨rfl, _, rfl⟩
    · refine .inr ⟨source, written, rfl, ?_, ?_⟩
      · rwa [hflushed]
      · exact isRecalledBy_written hread hcatalog (hrecallable source hread) hpending hcloses hlist

/-- After a flush the same document is generated from the same assets but for the catalog, copying
them changes nothing, and neither does flushing that catalog. -/
theorem generate_again {later : FileSystem} {count : Nat} {registry : AssetRegistry}
    (hseparated : IsSeparated scene.options scene.files component design)
    (hconfined : ConfinedImages document)
    (hrecallable : ∀ source, scene.files.readText scene.options.catalogFile = .ok source →
      ∀ relative ∈ assetsOf scene component document, IsRecallable (normalPath relative))
    (hspared : scene.options.copyAssets = true → ∀ relative ∈ assetsOf scene component document,
      copyTarget (joinPath scene.options.projectRoot relative) ≠ placeOf scene.options.catalogFile)
    (hflush : (generate scene component document).2.flushCatalog
      ((generate scene component document).2.copyAssets scene.files).1 =
        (.ok count, registry, later)) :
    (∀ preprocessor styles,
      readComponent scene.files preprocessor component = .ok (styles, document) →
      readComponent later preprocessor component = .ok (styles, document)) ∧
    ((generate scene component document).2.copyAssets later).1 = later ∧
    ∃ catalog registry, generate (Correspondence.withFiles scene later) component document =
        ((generate scene component document).1,
          (generate scene component document).2.withCatalog catalog) ∧
      ((generate scene component document).2.withCatalog catalog).flushCatalog later =
        (.ok 0, registry, later) := by
  have hplaces := @places_generate scene component document design hseparated hconfined
  have hcopied := @changes_project scene component document design hseparated hconfined
  have hflushed := @changes_catalog scene component document
    ((generate scene component document).2.copyAssets scene.files).1
  rw [hflush] at hflushed
  dsimp only at hflushed
  have hcatalog : ∀ place, place = placeOf scene.options.catalogFile →
      placeOf scene.options.projectRoot <+: place := by
    rintro _ rfl
    exact hseparated.catalog
  have hchanges := hcopied.trans (hflushed.mono hcatalog fun _ hfalse => hfalse.elim)
  have hdesign := hseparated.sameDesign hchanges
  refine ⟨fun _ _ hread => hseparated.readComponent_eq hchanges hread, ?_, ?_⟩
  · exact hplaces.copyAssets_again hseparated.assets
      (fun _ hbelow => hseparated.not_in_project hbelow) hflushed hcatalog
      (fun hcopy _ htarget => ne_of_isCopied hspared ⟨hcopy, htarget⟩)
  obtain ⟨hload, registry, hdone⟩ | ⟨source, written, hread, hwritten, hknown⟩ :=
    flushCatalog_generate hseparated hrecallable hspared hflush
  · have hsame := generate_of_same_catalog hdesign hconfined hload
    exact ⟨(generate scene component document).2.catalog, registry, hsame, hdone⟩
  · refine ⟨some (.ofSource written),
      (generate scene component document).2.withCatalog (some (.ofSource written)),
      generate_of_recalled hdesign hconfined hread hwritten hknown, ?_⟩
    rw [AssetRegistry.flushCatalog, AssetRegistry.catalog_withCatalog]
    dsimp only
    rw [Catalog.flush_of_isEmpty (by rw [Catalog.pending_ofSource]; rfl)]
    rfl

end

/-- A compilation whose project is apart from the design, and none of whose references leads out of
the design, changes nothing when it is repeated, and gives the same output: provided that with a
readable catalog the paths of its assets are recallable, and that none is copied onto the
catalog. -/
theorem compile_again {options : CompileOptions} {preprocessor : Option Preprocessor}
    {files later : FileSystem} {component : Component} {design : FileSystem.Path}
    {output : CompileOutput}
    (hcompile : compile options preprocessor files component = (.ok output, later))
    (hseparated : IsSeparated options files component design)
    (hconfined : ∀ styles document,
      readComponent files preprocessor component = .ok (styles, document) → ConfinedImages document)
    (hrecallable : ∀ source, files.readText options.catalogFile = .ok source →
      ∀ relative ∈ output.assets, IsRecallable (normalPath relative))
    (hspared : options.copyAssets = true → ∀ relative ∈ output.assets,
      copyTarget (joinPath options.projectRoot relative) ≠ placeOf options.catalogFile) :
    compile options preprocessor later component = (.ok output, later) := by
  obtain ⟨styles, document, count, registry, hread, hflush, rfl⟩ :=
    exists_flushCatalog_of_compile hcompile
  obtain ⟨hreads, hcopies, catalog, registry, hgenerate, hdone⟩ :=
    @generate_again ⟨styles, options, files⟩ component document design later count registry
      hseparated
      (hconfined styles document hread) hrecallable hspared hflush
  have hcopiesAgain := AssetRegistry.copyAssets_withCatalog
    (generate ⟨styles, options, files⟩ component document).2 catalog later
  rw [hcopies] at hcopiesAgain
  have hresult := compile_of_flushCatalog (hreads preprocessor styles hread) hgenerate
    (by rw [hcopiesAgain]; exact hdone)
  rwa [AssetRegistry.registered_withCatalog] at hresult

/-- A design of a page with one image beside a project with a catalog file without entries. -/
def siteFiles (image : String) : FileSystem := ⟨[
  (["design"], .directory),
  (["design", "page.jsx"], .file (.text ("<div><img src=\"" ++ image ++ "\" /></div>"))),
  (["design", "page.scss"], .file (.text "")),
  (["design", image], .file (.text "<svg/>")),
  (["app"], .directory),
  (["app", "app_assets.dart"], .file (.text Catalog.bareSource))]⟩

/-- The page of the design. -/
def siteComponent : Component := ⟨"design/page.jsx", "design", "design/page.scss", "Page"⟩

/-- Options for the project. -/
def siteOptions : CompileOptions :=
  { mode := .raw, projectRoot := "app", catalogPath := "app_assets.dart" }

private theorem isSeparated_siteFiles (image : String) :
    IsSeparated siteOptions (siteFiles image) siteComponent ["design"] where
  canonical := by
    rw [show names siteComponent.markupDirectory = ["design"] by decide]
    rfl
  design_outside := by decide
  project_outside := by decide
  sources := by decide
  way := by
    rintro place ⟨way, hway, rfl⟩ hbelow
    rw [show names siteOptions.projectRoot = ["app"] by decide] at hway
    obtain rfl | ⟨rest, rfl, hrest⟩ := List.prefix_cons_iff.mp hway
    · exact absurd hbelow (by decide)
    · obtain rfl := List.prefix_nil.mp hrest
      exact absurd hbelow (by decide)
  assets := ⟨by decide, by decide⟩
  catalog := by decide
  reached := by
    intro content hentry
    rw [show placeOf siteOptions.catalogFile = ["app", "app_assets.dart"] by decide,
      show names siteOptions.catalogFile = ["app", "app_assets.dart"] by decide]
    rfl

theorem compile_again_logo :
    ∃ output later, compile siteOptions none (siteFiles "logo.svg") siteComponent =
        (.ok output, later) ∧
      IsSeparated siteOptions (siteFiles "logo.svg") siteComponent ["design"] ∧
      (∀ styles document, readComponent (siteFiles "logo.svg") none siteComponent =
        .ok (styles, document) → ConfinedImages document) ∧
      output.assets = ["assets/figma/logo.svg"] ∧
      IsRecallable (normalPath "assets/figma/logo.svg") ∧
      compile siteOptions none later siteComponent = (.ok output, later) := by
  have hassets : (compile siteOptions none (siteFiles "logo.svg") siteComponent).1.toOption.map
      CompileOutput.assets = some ["assets/figma/logo.svg"] := by decide +kernel
  have hdocument : (readComponent (siteFiles "logo.svg") none siteComponent).toOption.all
      (fun read => decide (ConfinedImages read.2)) = true := by decide +kernel
  have hconfined : ∀ styles document, readComponent (siteFiles "logo.svg") none siteComponent =
      .ok (styles, document) → ConfinedImages document := by
    intro styles document hread
    rw [hread] at hdocument
    exact of_decide_eq_true hdocument
  have hrecallable : IsRecallable (normalPath "assets/figma/logo.svg") := by
    refine ⟨?_, ?_, ?_, ?_⟩ <;> decide
  obtain ⟨output, hcompile, hlisted⟩ := exists_compile_eq_ok hassets
  refine ⟨output, _, hcompile, isSeparated_siteFiles _, hconfined, hlisted, hrecallable, ?_⟩
  refine compile_again hcompile (isSeparated_siteFiles _) hconfined ?_ ?_
  · intro _ _ relative hmem
    rw [hlisted, List.mem_singleton] at hmem
    rwa [hmem]
  · intro _ relative hmem
    rw [hlisted, List.mem_singleton] at hmem
    subst hmem
    decide

/-- Nothing escapes the quote in the path of an asset, so a second run does not find its entry and
puts it in again. -/
theorem compile_appends_again :
    IsSeparated siteOptions (siteFiles "it's.svg") siteComponent ["design"] ∧
      ∃ output later, compile siteOptions none (siteFiles "it's.svg") siteComponent =
          (.ok output, later) ∧
        (later.readText "app/app_assets.dart").toOption = some ("class AppAssets \x7b\n" ++
          "  static const String figmaItSSvg = 'assets/figma/it's.svg';\n\x7d\n") ∧
        (FileSystem.readText (compile siteOptions none later siteComponent).2
          "app/app_assets.dart").toOption = some ("class AppAssets \x7b\n" ++
            "  static const String figmaItSSvg = 'assets/figma/it's.svg';\n" ++
            "  static const String figmaItSSvg = 'assets/figma/it's.svg';\n\x7d\n") := by
  have hassets : (compile siteOptions none (siteFiles "it's.svg") siteComponent).1.toOption.map
      CompileOutput.assets = some ["assets/figma/it's.svg"] := by decide +kernel
  obtain ⟨output, hcompile, -⟩ := exists_compile_eq_ok hassets
  exact ⟨isSeparated_siteFiles _, output, _, hcompile, by decide +kernel, by decide +kernel⟩

end DesignCompiler
