import DesignCompiler.Compiler
import DesignCompiler.Proofs.Asset.Copying
import DesignCompiler.Proofs.Asset.Declaration
import DesignCompiler.Proofs.Synthesis.References

/-!
# Compilation

A compilation that succeeds with a catalog leaves no identifier of an asset undeclared: what the
document refers to is listed, and the catalog file declares it.
-/

namespace DesignCompiler

open Dart Markup Asset Synthesis

/-- The root widget of a component in its shell, and the assets it refers to. -/
def assemble (scene : Scene) (component : Component) (document : Document) : Expr × AssetRegistry :=
  let assets := AssetRegistry.start scene.files scene.options component.markupDirectory
  let hinted := assets.collectHints scene.files document.root
  let (root, assets) := scene.synthesize document.root hinted
  let rootStyle := match document.root.head? with
    | some element => scene.resolve element
    | none => {}
  (Page.wrapRoot root.widget rootStyle scene.options.mode, assets)

theorem generate_eq (scene : Scene) (component : Component) (document : Document) :
    generate scene component document =
      (Page.render component.name (assemble scene component document).1 scene.options.packageName,
        (assemble scene component document).2) := rfl

/-- What the assets are after the root widget was assembled. -/
theorem grownFrom_assemble (scene : Scene) (component : Component) (document : Document)
    {source : String} (hread : scene.files.readText scene.options.catalogFile = .ok source) :
    AssetRegistry.GrownFrom (.ofSource source) (assemble scene component document).2 ∧
      (assemble scene component document).2.settings =
        AssetRegistry.settingsOf scene.options component.markupDirectory ∧
      LeavesIn (scene.ShowsAsset document.root (assemble scene component document).2)
        (assemble scene component document).1 := by
  have hstart := AssetRegistry.grownFrom_start hread component.markupDirectory document.root
  obtain ⟨hints, hhints⟩ := (AssetRegistry.start scene.files scene.options
    component.markupDirectory).exists_collectHints scene.files document.root
  obtain ⟨hgrown, hgrows, hleaves⟩ := scene.references_synthesize document.root hstart
  refine ⟨hgrown, ?_, ?_⟩
  · rw [show (assemble scene component document).2.settings = _ from hgrows.settings, hhints]
    rfl
  · apply CallsIn.leavesIn
    refine callsIn_wrapRoot (scene.free_synthesize _ _) hleaves ?_
    intro width callee args hshows hcallee
    obtain ⟨reference, rfl, hreference⟩ := hshows hcallee
    have hident : ∃ path, reference = .ident path := by
      obtain ⟨_, _, name, -, -, rfl⟩ | ⟨_, _, -, -, -, _, icon, -, -, rfl⟩ := hreference
      · exact ⟨_, rfl⟩
      · exact ⟨_, rfl⟩
    obtain ⟨path, rfl⟩ := hident
    exact ⟨_, rfl, hreference⟩

/-- What a compilation that succeeds with a catalog did. -/
theorem exists_of_compile_eq_ok {options : CompileOptions} {preprocessor : Option Preprocessor}
    {files later : FileSystem} {component : Component} {output : CompileOutput} {source : String}
    (hcompile : compile options preprocessor files component = (.ok output, later))
    (hread : files.readText options.catalogFile = .ok source) :
    ∃ styles document widget assets catalog,
      readComponent files preprocessor component = .ok (styles, document) ∧
        assemble ⟨styles, options, files⟩ component document = (widget, assets) ∧
        output = ⟨Page.render component.name widget options.packageName, component.name,
          assets.registered.map Prod.snd⟩ ∧
        assets.catalog = some catalog ∧
        later = (catalog.flush (assets.copyAssets files).1 options.catalogFile).2.2 := by
  unfold compile at hcompile
  split at hcompile
  · cases hcompile
  rename_i styles document hcomponent
  obtain ⟨hgrown, hsettings, -⟩ :=
    grownFrom_assemble ⟨styles, options, files⟩ component document hread
  dsimp only at hcompile
  rw [generate_eq] at hcompile
  cases hassemble : assemble ⟨styles, options, files⟩ component document with
  | mk widget assets =>
    rw [hassemble] at hcompile hgrown hsettings
    obtain ⟨catalog, hcatalog, -⟩ := hgrown.catalog
    have hfile : assets.settings.catalogFile = options.catalogFile := by
      rw [hsettings]
      rfl
    unfold AssetRegistry.flushCatalog at hcompile
    rw [hcatalog, hfile] at hcompile
    dsimp only at hcompile
    split at hcompile
    · cases hcompile
    rename_i hresult
    obtain ⟨-, hrest⟩ := Prod.mk.inj hresult
    obtain ⟨rfl, rfl⟩ := Prod.mk.inj hrest
    cases hcompile
    exact ⟨styles, document, widget, assets, catalog, hcomponent, hassemble, rfl, hcatalog, rfl⟩

/-! ## Declared references -/

/-- What a widget that shows an asset is called with: the icon that the class of an image names
whose source leads to no file, or an identifier. The path that the identifier stands for is listed,
and if it is declarable the catalog file declares the identifier with it. -/
def RefersToDeclared (scene : Scene) (component : Component) (document : Document) (source : String)
    (assets : List String) (written : String) (args : List Expr) : Prop :=
  ∃ reference, args = [reference] ∧
    ((∃ element children, .element element children ∈ document.root.subtrees ∧
        element.tag = "img" ∧ scene.IsClassIcon
          (.start scene.files scene.options component.markupDirectory) element reference) ∨
      ∃ relative name, reference = .ident ("AppAssets." ++ name) ∧ relative ∈ assets ∧
        (Catalog.IsDeclarable source relative → Declares written name relative))

/-- When a compilation succeeds with a catalog onto which it copies no asset, the catalog file then
declares the identifiers of all assets that the document shows with their paths, as far as these are
declarable, and the paths are listed. -/
theorem refersToDeclared_compile {options : CompileOptions} {preprocessor : Option Preprocessor}
    {files later : FileSystem} {component : Component} {output : CompileOutput} {source : String}
    (hcompile : compile options preprocessor files component = (.ok output, later))
    (hread : files.readText options.catalogFile = .ok source)
    (hcopy : options.copyAssets = true → ∀ relative ∈ output.assets,
      files.openPlace options.catalogFile ≠
        .ok (FileSystem.copyTarget (FileSystem.joinPath options.projectRoot relative))) :
    ∃ styles document written,
      readComponent files preprocessor component = .ok (styles, document) ∧
        let scene : Scene := ⟨styles, options, files⟩
        let widget := (assemble scene component document).1
        output.source = Page.render component.name widget options.packageName ∧
          later.readText options.catalogFile = .ok written ∧
          ∀ callee args named, .call callee args named ∈ widget.subterms → callee ∈ assetWidgets →
            RefersToDeclared scene component document source output.assets written args := by
  obtain ⟨styles, document, widget, assets, catalog, hcomponent, hassemble, rfl, hcatalog, rfl⟩ :=
    exists_of_compile_eq_ok hcompile hread
  obtain ⟨hgrown, hsettings, hleaves⟩ :=
    grownFrom_assemble ⟨styles, options, files⟩ component document hread
  rw [hassemble] at hgrown hsettings hleaves
  obtain ⟨_, hsame, hstart⟩ := hgrown.catalog
  obtain rfl := Option.some.inj (hcatalog.symm.trans hsame)
  have hcopied : (assets.copyAssets files).1.readText options.catalogFile = .ok source := by
    apply AssetRegistry.readText_copyAssets hread
    intro hset registration hmem
    rw [hsettings] at hset ⊢
    exact hcopy hset _ (List.mem_map_of_mem hmem)
  obtain ⟨written, hwritten, hdeclares⟩ :=
    Catalog.exists_declares_flush hcopied hstart
  refine ⟨styles, document, written, hcomponent, ?_⟩
  intro scene root
  have hroot : root = widget := congrArg Prod.fst hassemble
  refine ⟨by rw [hroot], hwritten, fun callee args named hnested hcallee => ?_⟩
  rw [hroot, mem_subterms_iff] at hnested
  have hsubset : assetWidgets ⊆ leafWidgets := by decide
  obtain ⟨reference, hargs, hreference⟩ :=
    hleaves callee args named hnested (hsubset hcallee) hcallee
  refine ⟨reference, hargs, ?_⟩
  obtain ⟨path, relative, name, hpath, hname, heq⟩ |
      ⟨element, children, hmem, htag, hnone, hicon⟩ :=
    hreference
  · refine .inr ⟨relative, name, heq, ?_, fun hdeclarable => ?_⟩
    · exact List.mem_map_of_mem (AssetRegistry.mem_registered_of_get? hpath)
    · have hget := hname.get?_of_catalog hcatalog
      rw [hdeclarable.normalPath_eq] at hget
      exact hdeclares relative name hget hdeclarable
  · refine .inl ⟨element, children, hmem, htag, ?_, hicon⟩
    rwa [AssetRegistry.localPath?_of_settings hsettings.symm]

theorem eq_ok_of_toOption {ε α : Type} {result : Except ε α} {value : α}
    (hvalue : result.toOption = some value) : result = .ok value := by
  cases result with
  | error _ => cases hvalue
  | ok _ => rw [Option.some.inj hvalue]

/-- A compilation of which assets are listed succeeds. -/
theorem exists_compile_eq_ok {options : CompileOptions} {preprocessor : Option Preprocessor}
    {files : FileSystem} {component : Component} {assets : List String}
    (hassets : (compile options preprocessor files component).1.toOption.map
      CompileOutput.assets = some assets) :
    ∃ output, compile options preprocessor files component =
        (.ok output, (compile options preprocessor files component).2) ∧
          output.assets = assets := by
  obtain ⟨output, hresult, hlisted⟩ := Option.map_eq_some_iff.mp hassets
  exact ⟨output, Prod.ext (eq_ok_of_toOption hresult) rfl, hlisted⟩

/-- The files of a page with one image, and a catalog file without entries. -/
def pageFiles (image : String) : FileSystem := ⟨[
  (["page.jsx"], .file (.text ("<div><img src=\"" ++ image ++ "\" /></div>"))),
  (["page.scss"], .file (.text "")),
  ([image], .file (.text "<svg/>")),
  (["app_assets.dart"], .file (.text Catalog.bareSource))]⟩

/-- The page. -/
def pageComponent : Component := ⟨"page.jsx", "", "page.scss", "Page"⟩

/-- Options for a project at the root whose catalog file stands beside the page. -/
def pageOptions : CompileOptions :=
  { mode := .raw, projectRoot := "", catalogPath := "app_assets.dart" }

private theorem exists_compile_page (image : String) (assets : List String)
    (hassets : (compile pageOptions none (pageFiles image) pageComponent).1.toOption.map
      CompileOutput.assets = some assets) :
    ∃ output, compile pageOptions none (pageFiles image) pageComponent =
        (.ok output, (compile pageOptions none (pageFiles image) pageComponent).2) ∧
      output.assets = assets :=
  exists_compile_eq_ok hassets

theorem refersToDeclared_compile_logo :
    ∃ output later styles document written,
      compile pageOptions none (pageFiles "logo.svg") pageComponent = (.ok output, later) ∧
        readComponent (pageFiles "logo.svg") none pageComponent = .ok (styles, document) ∧
        output.assets = ["assets/figma/logo.svg"] ∧
        later.readText "app_assets.dart" = .ok written ∧
        ∀ callee args named, .call callee args named ∈
            (assemble ⟨styles, pageOptions, pageFiles "logo.svg"⟩
              pageComponent document).1.subterms →
          callee ∈ assetWidgets →
            RefersToDeclared ⟨styles, pageOptions, pageFiles "logo.svg"⟩ pageComponent document
              Catalog.bareSource output.assets written args := by
  obtain ⟨output, hcompile, hassets⟩ :=
    exists_compile_page "logo.svg" ["assets/figma/logo.svg"] (by decide +kernel)
  have hread :
      (pageFiles "logo.svg").readText pageOptions.catalogFile = .ok Catalog.bareSource := by
    rw [FileSystem.readText_eq_ok_iff]
    exact ⟨["app_assets.dart"], by decide, rfl⟩
  obtain ⟨styles, document, written, hcomponent, -, hwritten, hdeclared⟩ :=
    refersToDeclared_compile hcompile hread (by
      intro _ relative hmem
      rw [hassets, List.mem_singleton] at hmem
      subst hmem
      decide)
  exact ⟨output, _, styles, document, written, hcompile, hcomponent, hassets, hwritten, hdeclared⟩

/-- Nothing escapes the quote in the path of an asset, so no identifier is declared with the path,
though the document uses one for it. -/
theorem undeclared_of_quote :
    ∃ output later written,
      compile pageOptions none (pageFiles "it's.svg") pageComponent = (.ok output, later) ∧
        (readComponent (pageFiles "it's.svg") none pageComponent).toOption.any (fun read =>
          (assemble ⟨read.1, pageOptions, pageFiles "it's.svg"⟩ pageComponent
            read.2).1.usesIdentStartingWith "AppAssets.figmaItSSvg") = true ∧
        output.assets = ["assets/figma/it's.svg"] ∧
        later.readText "app_assets.dart" = .ok written ∧
        ∀ name, ¬ Declares written name "assets/figma/it's.svg" := by
  obtain ⟨output, hcompile, hassets⟩ :=
    exists_compile_page "it's.svg" ["assets/figma/it's.svg"] (by decide +kernel)
  have hwritten : ((compile pageOptions none (pageFiles "it's.svg") pageComponent).2.readText
      "app_assets.dart").toOption = some ("class AppAssets \x7b\n" ++
        "  static const String figmaItSSvg = 'assets/figma/it's.svg';\n\x7d\n") := by decide +kernel
  refine ⟨output, _, _, hcompile, by decide +kernel, hassets, eq_ok_of_toOption hwritten, ?_⟩
  rintro name ⟨literal, hheld, hdenotes⟩
  -- The file holds no backslash, so a literal in it denotes no quote.
  have hslash : '\\' ∉ literal := fun hmem => absurd (hheld.literal_subset hmem) (by decide)
  obtain ⟨rfl, hmarks⟩ := hdenotes.eq_of_not_mem hslash
  exact hmarks '\'' (by decide) (by decide)

end DesignCompiler
