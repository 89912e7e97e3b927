import DesignCompiler.Proofs.Asset.Copying
import DesignCompiler.Proofs.FileSystem.Confinement

/-!
# Assets below the markup directory

A reference in the markup is followed from the markup directory wherever it leads. As long as it is
relative and never climbs above that directory it stays below it, and so do the files that are
registered and copied on its account.
-/

namespace DesignCompiler.Asset

open Text FileSystem

/-- The path in a reference: what stands before a query or a fragment, without the white space
around it. -/
def referencePath (source : String) : String :=
  String.ofList (trim (source.toList.takeWhile fun c => c != '?' && c != '#'))

/-- A reference that is remote, or else relative and never above the place it starts from. -/
def isConfined (source : String) : Bool :=
  AssetRegistry.isRemote (referencePath source).toList ||
    (!isAbsolute (referencePath source) && staysBelow 0 (names (referencePath source)))

/-- The canonical place of a markup directory, and a place below it, or the place itself. -/
structure IsWithin (files : FileSystem) (directory : String) (base place : FileSystem.Path) :
    Prop where
  canonical : files.follow [] (names directory) = .ok base
  directory : files.isDirectory base = true
  below : base <+: place

/-- A regular file below a markup directory. -/
def IsDesignFile (files : FileSystem) (directory : String) (place : FileSystem.Path)
    (content : Content) : Prop :=
  ∃ base, IsWithin files directory base place ∧ base ≠ place ∧
    files.entry? place = some (.file content)

/-- A regular file below a markup directory, or a directory there. -/
def IsLocal (files : FileSystem) (directory : String) (place : FileSystem.Path) : Prop :=
  (∃ content, IsDesignFile files directory place content) ∨
    ∃ base, IsWithin files directory base place ∧ files.entry? place = some .directory

theorem IsLocal.exists_isWithin {files : FileSystem} {directory : String} {place : FileSystem.Path}
    (hlocal : IsLocal files directory place) :
    ∃ base, IsWithin files directory base place ∧ files.entry? place ≠ none := by
  obtain ⟨content, base, hwithin, -, hentry⟩ | ⟨base, hwithin, hentry⟩ := hlocal
  · exact ⟨base, hwithin, by simp [hentry]⟩
  · exact ⟨base, hwithin, by simp [hentry]⟩

theorem IsLocal.isDesignFile {files : FileSystem} {directory : String} {place : FileSystem.Path}
    {content : Content} (hlocal : IsLocal files directory place)
    (hentry : files.entry? place = some (.file content)) :
    IsDesignFile files directory place content := by
  obtain ⟨held, base, hwithin, hne, hheld⟩ | ⟨base, -, hdirectory⟩ := hlocal
  · exact ⟨base, hwithin, hne, hentry⟩
  · rw [hentry] at hdirectory
    cases hdirectory

namespace AssetRegistry

/-- What a reference that leads to a file says: it is not remote, and its path can be followed from
the markup directory. -/
theorem locate_of_localPath? {registry : AssetRegistry} {files : FileSystem} {source : String}
    {place : FileSystem.Path} (hpath : registry.localPath? files source = some place) :
    isRemote (referencePath source).toList = false ∧
      files.locate (joinPath registry.settings.markupDirectory (referencePath source)) =
        .ok place := by
  unfold localPath? at hpath
  dsimp only at hpath
  split at hpath
  · cases hpath
  · rename_i hnot
    rw [Bool.or_eq_true, not_or, Bool.not_eq_true, Bool.not_eq_true] at hnot
    unfold referencePath
    rw [String.toList_ofList]
    refine ⟨hnot.2, ?_⟩
    cases hlocate : files.locate _ with
    | error failure =>
      rw [hlocate] at hpath
      cases hpath
    | ok found =>
      rw [hlocate] at hpath
      rw [Option.some.inj hpath]

/-- A confined reference leads below the markup directory. -/
theorem isLocal_of_localPath? {registry : AssetRegistry} {files : FileSystem} {source : String}
    {place : FileSystem.Path} (hconfined : isConfined source = true)
    (hpath : registry.localPath? files source = some place) :
    IsLocal files registry.settings.markupDirectory place := by
  obtain ⟨hremote, hlocate⟩ := locate_of_localPath? hpath
  rw [isConfined, hremote, Bool.false_or, Bool.and_eq_true, Bool.not_eq_true'] at hconfined
  obtain ⟨hrelative, hstays⟩ := hconfined
  obtain ⟨-, -, hfollow, hdirectory⟩ := locate_eq_ok_iff.mp hlocate
  rw [names_joinPath hrelative, follow_append] at hfollow
  rw [requiresDirectory_joinPath hrelative] at hdirectory
  have hvoid := fun hnames => hdirectory (requiresDirectory_of_names_eq_nil hnames)
  generalize names (referencePath source) = further at hstays hfollow hvoid
  cases hbase : files.follow [] (names registry.settings.markupDirectory) with
  | error failure =>
    rw [hbase] at hfollow
    cases hfollow
  | ok base =>
    rw [hbase] at hfollow
    dsimp only at hfollow
    obtain ⟨-, hsome⟩ := eq_foldl_of_follow hbase (by simp)
    obtain ⟨hplace, hentry⟩ := eq_foldl_of_follow hfollow hsome
    have hwithin : IsWithin files registry.settings.markupDirectory base place := by
      refine ⟨hbase, ?_, ?_⟩
      · by_cases hnames : further = []
        · rw [hnames, List.foldl_nil] at hplace
          exact hplace ▸ hvoid hnames
        · exact isDirectory_of_follow hfollow hnames
      · rw [hplace, foldl_step_of_staysBelow base hstays]
        exact List.prefix_append base _
    obtain ⟨entry, hentry⟩ := Option.ne_none_iff_exists'.mp hentry
    cases entry with
    | directory => exact .inr ⟨base, hwithin, hentry⟩
    | file content =>
      refine .inl ⟨content, base, hwithin, ?_, hentry⟩
      rintro rfl
      have hfile := isDirectory_iff.mp hwithin.directory
      rw [hentry] at hfile
      cases hfile

/-! ## Runs -/

/-- Only sources that were asked for are answered. -/
theorem exists_request_of_mem_answers {registry : AssetRegistry} {files : FileSystem}
    {requests : List Request} {source : String} {answer : Option LocalAsset}
    (hanswer : (source, answer) ∈ (registry.serve files requests).1) :
    ∃ hint, Request.asset source hint ∈ requests := by
  induction requests generalizing registry with
  | nil => cases hanswer
  | cons request requests ih =>
    cases request with
    | hints root =>
      obtain ⟨hint, hmem⟩ := ih hanswer
      exact ⟨hint, List.mem_cons_of_mem _ hmem⟩
    | asset other hint =>
      obtain heq | hrest := List.mem_cons.mp hanswer
      · obtain ⟨rfl, -⟩ := Prod.mk.inj heq
        exact ⟨hint, List.mem_cons_self⟩
      · obtain ⟨hint, hmem⟩ := ih hrest
        exact ⟨hint, List.mem_cons_of_mem _ hmem⟩

/-- The assets stay inside the design: what is registered stands below the markup directory, and no
file gets the content of another one by copying. -/
structure StaysInside (files : FileSystem) (directory : String) (registry : AssetRegistry) :
    Prop where
  registered : ∀ place relative, (place, relative) ∈ registry.registered →
    IsLocal files directory place
  copied : ∀ place content,
    FileSystem.entry? (registry.copyAssets files).1 place = some (.file content) →
      files.entry? place = some (.file content) ∨ content = .text "" ∨
        ∃ source, IsDesignFile files directory source content

theorem staysInside_of_registered {files : FileSystem} {directory : String}
    {registry : AssetRegistry}
    (hregistered : ∀ place relative, (place, relative) ∈ registry.registered →
      IsLocal files directory place) : StaysInside files directory registry := by
  refine ⟨hregistered, fun place content hentry => ?_⟩
  rw [copyAssets_fst] at hentry
  split at hentry
  · obtain hsame | hempty | ⟨copy, hcopy, hheld⟩ := content_copyAll hentry
    · exact .inl hsame
    · exact .inr (.inl hempty)
    · obtain ⟨registration, hmem, rfl⟩ := List.mem_map.mp hcopy
      exact .inr (.inr ⟨_, (hregistered _ _ hmem).isDesignFile hheld⟩)
  · exact .inl hentry

/-- A confined reference is answered with what stands below the markup directory, and as long as all
references in a run are confined so is every file that is registered or copied. -/
theorem staysInside_serve (files : FileSystem) (options : CompileOptions) (directory : String)
    {requests : List Request}
    (hconfined : ∀ source hint, Request.asset source hint ∈ requests → isConfined source = true) :
    let first := start files options directory
    (∀ source place, isConfined source = true → first.localPath? files source = some place →
        IsLocal files directory place) ∧
      StaysInside files directory (first.serve files requests).2 := by
  intro first
  have hlocal : ∀ source place, isConfined source = true →
      first.localPath? files source = some place → IsLocal files directory place :=
    fun source place => isLocal_of_localPath?
  refine ⟨hlocal, staysInside_of_registered fun place relative hmem => ?_⟩
  have hserves := (registers_start files options directory).serves files requests
  rw [hserves.registers.mem_registered_iff] at hmem
  obtain hstart | ⟨source, asset, hanswer, hplace, -⟩ := hserves.exists_answer place relative hmem
  · cases hstart
  · obtain ⟨hint, hrequest⟩ := exists_request_of_mem_answers hanswer
    exact hlocal source place (hconfined source hint hrequest) hplace

/-- A design with a logo beside a project with a secret. -/
def secretFiles : FileSystem := ⟨[
  (["design"], .directory),
  (["design", "logo.svg"], .file (.text "<svg/>")),
  (["app"], .directory),
  (["app", "secret.svg"], .file (.text "secret"))]⟩

/-- Options for that project. -/
def secretOptions : CompileOptions := { projectRoot := "app" }

theorem staysInside_serve_logo :
    let first := start secretFiles secretOptions "design"
    let requests := [Request.asset "./logo.svg?v=2" none]
    (∀ source hint, Request.asset source hint ∈ requests → isConfined source = true) ∧
      first.localPath? secretFiles "./logo.svg?v=2" = some ["design", "logo.svg"] ∧
      IsLocal secretFiles "design" ["design", "logo.svg"] ∧
      StaysInside secretFiles "design" (first.serve secretFiles requests).2 := by
  intro first requests
  have hlogo : isConfined "./logo.svg?v=2" = true := by decide +kernel
  have hconfined :
      ∀ source hint, Request.asset source hint ∈ requests → isConfined source = true := by
    intro source hint hmem
    obtain ⟨rfl, -⟩ := Request.asset.inj (List.mem_singleton.mp hmem)
    exact hlogo
  have hpath : first.localPath? secretFiles "./logo.svg?v=2" = some ["design", "logo.svg"] := by
    decide +kernel
  obtain ⟨hlocal, hinside⟩ := staysInside_serve secretFiles secretOptions "design" hconfined
  exact ⟨hconfined, hpath, hlocal _ _ hlogo hpath, hinside⟩

/-- Nothing keeps a reference from climbing: the file beside the design is registered and copied. -/
theorem localPath?_climbs :
    let first := start secretFiles secretOptions "design"
    let last := (first.serve secretFiles [.asset "../app/secret.svg" none]).2
    first.localPath? secretFiles "../app/secret.svg" = some ["app", "secret.svg"] ∧
      ¬ IsLocal secretFiles "design" ["app", "secret.svg"] ∧
      last.registered = [(["app", "secret.svg"], "assets/figma/secret.svg")] ∧
      (FileSystem.readText (last.copyAssets secretFiles).1
        "app/assets/figma/secret.svg").toOption = some "secret" := by
  intro first last
  have hregistered : last.registered = [(["app", "secret.svg"], "assets/figma/secret.svg")] := by
    decide +kernel
  have hbase : secretFiles.follow [] (names "design") = .ok ["design"] := by
    rw [show names "design" = ["design"] by decide]
    rfl
  refine ⟨by decide +kernel, fun hlocal => ?_, hregistered, by decide +kernel⟩
  obtain ⟨base, hwithin, -⟩ := hlocal.exists_isWithin
  obtain rfl := Except.ok.inj (hbase.symm.trans hwithin.canonical)
  exact absurd hwithin.below (by decide)

end AssetRegistry

end DesignCompiler.Asset
