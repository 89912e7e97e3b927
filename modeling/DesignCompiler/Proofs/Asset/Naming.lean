import DesignCompiler.Proofs.Asset.Numbering
import DesignCompiler.Proofs.Asset.Registration

/-!
# Names of assets over whole runs

A registry answers requests one after another. Each file keeps the name it was given first, no two
files share one, and exactly the files that were resolved are registered, each under the path that
every answer for it has.
-/

namespace DesignCompiler.Asset

open Text FileSystem

theorem AssetSettings.relativePath_injective (settings : AssetSettings) :
    Function.Injective settings.relativePath := by
  intro name other heq
  unfold AssetSettings.relativePath at heq
  split at heq
  · exact heq
  · exact (String.append_right_inj _).mp heq

namespace AssetRegistry

/-- No two files have the same name, and the registered files are those that have one. -/
structure Registers (registry : AssetRegistry) : Prop where
  mem_used : ∀ path name, registry.fileNames.get? path = some name → name ∈ registry.usedNames
  injective : ∀ path other name, registry.fileNames.get? path = some name →
    registry.fileNames.get? other = some name → path = other
  registered_iff : ∀ path relative, registry.registrations.get? path = some relative ↔
    ∃ name, registry.fileNames.get? path = some name ∧
      registry.settings.relativePath name = relative
  nodup : registry.registrations.keys.Nodup

theorem registers_start (files : FileSystem) (options : CompileOptions) (directory : String) :
    (start files options directory).Registers where
  mem_used := by simp [start]
  injective := by simp [start]
  registered_iff := by simp [start]
  nodup := List.nodup_nil

/-- No two files are registered with the same relative path. -/
theorem Registers.relative_injective {registry : AssetRegistry} (hregisters : registry.Registers)
    {path other : FileSystem.Path} {relative : String}
    (hpath : registry.registrations.get? path = some relative)
    (hother : registry.registrations.get? other = some relative) : path = other := by
  obtain ⟨name, hname, rfl⟩ := (hregisters.registered_iff path relative).mp hpath
  obtain ⟨name', hname', heq⟩ := (hregisters.registered_iff other _).mp hother
  obtain rfl := registry.settings.relativePath_injective heq
  exact hregisters.injective path other name' hname hname'

theorem Registers.mem_registered_iff {registry : AssetRegistry} (hregisters : registry.Registers)
    {path : FileSystem.Path} {relative : String} :
    (path, relative) ∈ registry.registered ↔
      registry.registrations.get? path = some relative := by
  rw [registered, List.mem_mergeSort, Dictionary.mem_entries_iff hregisters.nodup]

theorem Registers.nodup_registered {registry : AssetRegistry} (hregisters : registry.Registers) :
    (registry.registered.map Prod.fst).Nodup := by
  have hperm := List.mergeSort_perm registry.registrations.entries fun a b => a.1.le b.1
  exact (hperm.map Prod.fst).nodup_iff.mpr hregisters.nodup

/-! ## One request -/

/-- A file is given a name that no other file has, and the one it had if there is one. -/
theorem Registers.exists_outputName_eq {registry : AssetRegistry} (hregisters : registry.Registers)
    (path : FileSystem.Path) (hint : String) :
    ∃ name used fileNames, registry.outputName path hint =
        (name, { registry with usedNames := used, fileNames := fileNames }) ∧
      (∀ other, fileNames.get? other =
        if path = other then some name else registry.fileNames.get? other) ∧
      (∀ other known, registry.fileNames.get? other = some known → (path = other ↔ known = name)) ∧
      name ∈ used ∧ registry.usedNames ⊆ used := by
  unfold outputName
  split
  · rename_i name hname
    refine ⟨name, _, _, rfl, fun other => ?_, fun other known hknown => ⟨?_, ?_⟩,
      hregisters.mem_used path name hname, List.Subset.refl _⟩
    · split
      · rename_i hsame
        rw [← hsame, hname]
      · rfl
    · rintro rfl
      exact Option.some.inj (hknown.symm.trans hname)
    · rintro rfl
      exact hregisters.injective path other known hname hknown
  · rename_i hnew
    refine ⟨_, _, _, rfl, fun other => Dictionary.get?_insert _ _ _ _,
      fun other known hknown => ⟨?_, ?_⟩, List.mem_cons_self, List.subset_cons_self _ _⟩
    · rintro rfl
      rw [hnew] at hknown
      cases hknown
    · -- The name is not in use, so no file has it.
      rintro rfl
      exact absurd (hregisters.mem_used other _ hknown) (freshFileName_not_mem _ _ _)

/-- Referring to a relative path changes the catalog alone, which takes no identifier back. -/
theorem exists_reference_eq (registry : AssetRegistry) (relative : String) :
    ∃ expr catalog, registry.reference relative = (expr, { registry with catalog := catalog }) ∧
      ∀ known name, registry.Names known name →
        ∃ found, catalog = some found ∧ found.identifiers.get? (normalPath known) = some name := by
  unfold reference
  split
  · rename_i catalog hcatalog
    refine ⟨_, _, rfl, fun known name hknown => ⟨_, rfl, ?_⟩⟩
    exact Catalog.get?_resolve_of_some relative (hknown.get?_of_catalog hcatalog)
  · exact ⟨_, registry.catalog, rfl, fun _ _ hknown => hknown⟩

/-- What a request for a file does to a registry: the file is registered, and what was registered
stays so. -/
structure Adds (registry : AssetRegistry) (path : FileSystem.Path) (relative : String)
    (later : AssetRegistry) : Prop where
  registers : later.Registers
  grows : registry.GrowsTo later
  get?_self : later.registrations.get? path = some relative
  get?_of_ne : ∀ other, path ≠ other →
    later.registrations.get? other = registry.registrations.get? other

/-- A request for a file is answered with the path under which the file is registered. -/
theorem Registers.adds_resolve {registry : AssetRegistry} (hregisters : registry.Registers)
    {files : FileSystem} {source : String} {path : FileSystem.Path}
    (hpath : registry.localPath? files source = some path) (hint : Option String) :
    ∃ found, (registry.resolve files source hint).1 = some found ∧
      registry.Adds path found.relativePath (registry.resolve files source hint).2 := by
  obtain ⟨name, used, fileNames, hname, hget, hown, hmem, hsubset⟩ :=
    hregisters.exists_outputName_eq path (hint.getD "")
  obtain ⟨expr, catalog, hreference, hnames⟩ := exists_reference_eq
    { registry with usedNames := used, fileNames := fileNames }
    (registry.settings.relativePath name)
  have hresolve : registry.resolve files source hint =
      (some ⟨registry.settings.relativePath name, endsWith ".svg".toList (lowerAscii name.toList),
          expr⟩,
        { registry with
          usedNames := used
          fileNames := fileNames
          catalog := catalog
          registrations :=
            registry.registrations.insert path (registry.settings.relativePath name) }) := by
    unfold AssetSettings.relativePath at hreference ⊢
    simp only [resolve, hpath, hname, hreference]
  rw [hresolve]
  refine ⟨_, rfl, ⟨?_, ?_, ?_, Dictionary.nodup_keys_insert hregisters.nodup _ _⟩,
    ⟨rfl, ?_, hnames⟩, ?_, ?_⟩
  · intro other known hknown
    rw [hget] at hknown
    split at hknown
    · obtain rfl := Option.some.inj hknown
      exact hmem
    · exact hsubset (hregisters.mem_used other known hknown)
  · intro first second known hfirst hsecond
    rw [hget] at hfirst hsecond
    split at hfirst <;> split at hsecond
    · simp_all
    · rename_i hsame hne
      obtain rfl := Option.some.inj hfirst
      exact absurd ((hown second name hsecond).mpr rfl) hne
    · rename_i hne hsame
      obtain rfl := Option.some.inj hsecond
      exact absurd ((hown first name hfirst).mpr rfl) hne
    · exact hregisters.injective first second known hfirst hsecond
  · intro other relative
    rw [Dictionary.get?_insert, hget]
    split
    · simp
    · exact hregisters.registered_iff other relative
  · intro other relative hrelative
    rw [Dictionary.get?_insert]
    split
    · -- The file keeps its name, so it is registered again with the path it had.
      rename_i hsame
      obtain ⟨old, hold, rfl⟩ := (hregisters.registered_iff other relative).mp hrelative
      rw [(hown other old hold).mp hsame]
    · exact hrelative
  · rw [Dictionary.get?_insert, if_pos rfl]
  · intro other hne
    rw [Dictionary.get?_insert, if_neg hne]

/-! ## Runs -/

/-- A request to a registry. -/
inductive Request where
  | hints (root : Markup.Node)
  | asset (source : String) (hint : Option String)

/-- Requests served one after another: each source that was asked for with the answer to it, and the
    registry after the last request. -/
def serve (registry : AssetRegistry) (files : FileSystem) :
    List Request → List (String × Option LocalAsset) × AssetRegistry
  | [] => ([], registry)
  | .hints root :: rest => (registry.collectHints files root).serve files rest
  | .asset source hint :: rest =>
    let (found, next) := registry.resolve files source hint
    let (answers, last) := next.serve files rest
    ((source, found) :: answers, last)

theorem Registers.collectHints {registry : AssetRegistry} (hregisters : registry.Registers)
    (files : FileSystem) (root : Markup.Node) :
    (registry.collectHints files root).Registers ∧
      registry.GrowsTo (registry.collectHints files root) ∧
      (registry.collectHints files root).registrations = registry.registrations := by
  obtain ⟨hints, heq⟩ := registry.exists_collectHints files root
  rw [heq]
  exact ⟨⟨hregisters.mem_used, hregisters.injective, hregisters.registered_iff, hregisters.nodup⟩,
    ⟨rfl, fun _ _ h => h, fun _ _ h => h⟩, rfl⟩

theorem serve_append (registry : AssetRegistry) (files : FileSystem)
    (before after : List Request) :
    (registry.serve files (before ++ after)).2 =
      ((registry.serve files before).2.serve files after).2 := by
  induction before generalizing registry with
  | nil => rfl
  | cons request before ih =>
    cases request with
    | hints root => exact ih _
    | asset source hint => exact ih _

/-- What an answer says about a registry: a source that leads to a file is answered with the path
under which the file is registered, any other one with nothing. -/
inductive Answers (registry : AssetRegistry) (files : FileSystem) (source : String) :
    Option LocalAsset → Prop where
  | none : registry.localPath? files source = none → Answers registry files source none
  | some {path : FileSystem.Path} {asset : LocalAsset} :
      registry.localPath? files source = some path →
      registry.registrations.get? path = some asset.relativePath →
      Answers registry files source (some asset)

theorem Answers.later {registry later : AssetRegistry} {files : FileSystem} {source : String}
    {answer : Option LocalAsset} (hanswer : registry.Answers files source answer)
    (hgrows : registry.GrowsTo later) : later.Answers files source answer := by
  cases hanswer with
  | none hpath =>
    rw [← localPath?_of_settings hgrows.settings] at hpath
    exact .none hpath
  | some hpath hget =>
    rw [← localPath?_of_settings hgrows.settings] at hpath
    exact .some hpath (hgrows.registered _ _ hget)

/-- What a run preserves, what it answers and what it registers. -/
structure Serves (registry : AssetRegistry) (files : FileSystem)
    (answers : List (String × Option LocalAsset)) (last : AssetRegistry) : Prop where
  registers : last.Registers
  grows : registry.GrowsTo last
  answered : ∀ source answer, (source, answer) ∈ answers → last.Answers files source answer
  exists_answer : ∀ path relative, last.registrations.get? path = some relative →
    registry.registrations.get? path = some relative ∨
      ∃ source asset, (source, some asset) ∈ answers ∧
        registry.localPath? files source = some path ∧ asset.relativePath = relative

/-- One answer before those of a run. -/
theorem Serves.cons {registry next last : AssetRegistry} {files : FileSystem} {source : String}
    {answer : Option LocalAsset} {answers : List (String × Option LocalAsset)}
    (hserves : next.Serves files answers last) (hgrows : registry.GrowsTo next)
    (hanswer : next.Answers files source answer)
    (hadded : ∀ path relative, next.registrations.get? path = some relative →
      registry.registrations.get? path = some relative ∨
        ∃ asset, answer = some asset ∧ registry.localPath? files source = some path ∧
          asset.relativePath = relative) :
    registry.Serves files ((source, answer) :: answers) last := by
  refine ⟨hserves.registers, hgrows.trans hserves.grows, ?_, ?_⟩
  · intro other found hmem
    obtain heq | hmem := List.mem_cons.mp hmem
    · obtain ⟨rfl, rfl⟩ := Prod.mk.inj heq
      exact hanswer.later hserves.grows
    · exact hserves.answered other found hmem
  · intro path relative hget
    obtain hget | ⟨other, asset, hmem, hpath, hrelative⟩ :=
      hserves.exists_answer path relative hget
    · obtain hold | ⟨asset, rfl, hpath, hrelative⟩ := hadded path relative hget
      · exact .inl hold
      · exact .inr ⟨source, asset, List.mem_cons_self, hpath, hrelative⟩
    · rw [localPath?_of_settings hgrows.settings] at hpath
      exact .inr ⟨other, asset, List.mem_cons_of_mem _ hmem, hpath, hrelative⟩

theorem Registers.serves {registry : AssetRegistry} (hregisters : registry.Registers)
    (files : FileSystem) (requests : List Request) :
    registry.Serves files (registry.serve files requests).1 (registry.serve files requests).2 := by
  induction requests generalizing registry with
  | nil => exact ⟨hregisters, .refl registry, by simp [serve], fun _ _ h => .inl h⟩
  | cons request requests ih =>
    cases request with
    | hints root =>
      obtain ⟨hnext, hgrows, hsame⟩ := hregisters.collectHints files root
      obtain ⟨hlast, hgrown, hanswers, hexists⟩ := ih hnext
      refine ⟨hlast, hgrows.trans hgrown, hanswers, ?_⟩
      simp only [localPath?_of_settings hgrows.settings, hsame] at hexists
      exact hexists
    | asset source hint =>
      cases hpath : registry.localPath? files source with
      | none =>
        have hnone := resolve_of_localPath?_eq_none hpath hint
        simp only [serve, hnone]
        exact (ih hregisters).cons (.refl registry) (.none hpath) fun _ _ h => .inl h
      | some path =>
        obtain ⟨asset, hasset, hadds⟩ := hregisters.adds_resolve hpath hint
        simp only [serve, hasset]
        refine (ih hadds.registers).cons hadds.grows ?_ ?_
        · refine .some ?_ hadds.get?_self
          rw [localPath?_of_settings hadds.grows.settings, hpath]
        · intro other relative hget
          by_cases hsame : path = other
          · subst hsame
            rw [hadds.get?_self] at hget
            exact .inr ⟨asset, rfl, hpath, Option.some.inj hget⟩
          · rw [hadds.get?_of_ne other hsame] at hget
            exact .inl hget

/-- The names that a run gives: which sources are answered, when two answers have the same path, and
which files are registered under which paths. -/
structure NamesAssets (start : AssetRegistry) (files : FileSystem)
    (answers : List (String × Option LocalAsset)) (last : AssetRegistry) : Prop where
  isSome_iff : ∀ source answer, (source, answer) ∈ answers →
    (answer.isSome ↔ (start.localPath? files source).isSome)
  relative_eq_iff : ∀ source other asset asset', (source, some asset) ∈ answers →
    (other, some asset') ∈ answers →
      (asset.relativePath = asset'.relativePath ↔
        start.localPath? files source = start.localPath? files other)
  mem_registered_iff : ∀ path relative, (path, relative) ∈ last.registered ↔
    ∃ source asset, (source, some asset) ∈ answers ∧
      start.localPath? files source = some path ∧ asset.relativePath = relative
  nodup : (last.registered.map Prod.fst).Nodup

/-- Over every run of requests, two answers have the same path exactly when their sources lead to
the same file, exactly the files that were asked for are registered, each under the path of its
answers, and what is registered at some point of the run is registered so after it. -/
theorem namesAssets_serve (files : FileSystem) (options : CompileOptions) (directory : String)
    (requests : List Request) :
    let first := start files options directory
    first.NamesAssets files (first.serve files requests).1 (first.serve files requests).2 ∧
      ∀ before after, requests = before ++ after →
        (first.serve files before).2.registered ⊆ (first.serve files requests).2.registered := by
  intro first
  have hfirst : first.Registers := registers_start files options directory
  have hserves := hfirst.serves files requests
  have hpath : ∀ source, (first.serve files requests).2.localPath? files source =
      first.localPath? files source := localPath?_of_settings hserves.grows.settings files
  refine ⟨⟨?_, ?_, ?_, hserves.registers.nodup_registered⟩, ?_⟩
  · intro source answer hanswer
    cases hserves.answered source answer hanswer with
    | none hnone => simp [← hpath, hnone]
    | some hsome _ => simp [← hpath, hsome]
  · intro source other asset asset' hasset hasset'
    obtain _ | ⟨hsource, hget⟩ := hserves.answered source _ hasset
    obtain _ | ⟨hother, hget'⟩ := hserves.answered other _ hasset'
    rw [← hpath, ← hpath, hsource, hother, Option.some.injEq]
    constructor
    · intro hrelative
      rw [← hrelative] at hget'
      exact hserves.registers.relative_injective hget hget'
    · rintro rfl
      exact Option.some.inj (hget.symm.trans hget')
  · intro path relative
    rw [hserves.registers.mem_registered_iff]
    constructor
    · intro hget
      obtain hstart | hanswer := hserves.exists_answer path relative hget
      · cases hstart
      · exact hanswer
    · rintro ⟨source, asset, hmem, hsource, rfl⟩
      obtain _ | ⟨hlast, hget⟩ := hserves.answered source _ hmem
      rw [hpath, hsource] at hlast
      obtain rfl := Option.some.inj hlast
      exact hget
  · rintro before after rfl ⟨path, relative⟩ hmem
    have hbefore := hfirst.serves files before
    have hafter := hbefore.registers.serves files after
    rw [serve_append, hafter.registers.mem_registered_iff]
    rw [hbefore.registers.mem_registered_iff] at hmem
    exact hafter.grows.registered path relative hmem

end AssetRegistry

end DesignCompiler.Asset
