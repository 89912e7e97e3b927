import DesignCompiler.Proofs.Asset.Confinement
import DesignCompiler.Proofs.Asset.Identifier
import DesignCompiler.Proofs.Text.Classes

/-!
# Where assets are put

The file of an asset gets the name of an entry of a directory, whatever it is called in the design
and whether it is renamed or not. So it is copied to the asset directory itself, each asset to a
file of its own.
-/

namespace DesignCompiler.Asset

open Text FileSystem

/-! ## Tokens -/

theorem slash_not_mem_sanitize (text : List Char) : '/' ∉ sanitize text :=
  fun hmem => absurd (isIdentifierChar_of_mem_sanitize hmem) (by decide)

theorem slash_not_mem_normalize (text : List Char) : '/' ∉ normalize text :=
  fun hmem => absurd ((isToken_normalize text).isIdentifierChar_of_mem hmem) (by decide)

/-! ## File names -/

namespace AssetRegistry

theorem toList_of_splitExtension {name stem : String} {extension : Option String}
    (hsplit : FileSystem.splitExtension name = (stem, extension)) :
    name.toList = stem.toList ++ (extension.elim [] fun extension => '.' :: extension.toList) := by
  unfold FileSystem.splitExtension at hsplit
  split at hsplit
  · rename_i c front back hcut
    obtain ⟨heq, -⟩ := (cutLast?_eq_some_iff (by simp)).mp hcut
    cases hsplit
    rw [heq]
    simp
  · cases hsplit
    simp

private theorem slash_not_mem_toString (number : Nat) : '/' ∉ (toString number).toList := by
  rw [Nat.toString_eq_ofList_toDigits, String.toList_ofList]
  intro hmem
  exact absurd (Nat.isDigit_of_mem_toDigits (by decide) (by decide) hmem) (by decide)

/-- A name is fresh as it is, or becomes plain by a number between its parts. -/
theorem freshFileName_cases {base ending : String} (hslash : '/' ∉ (base ++ ending).toList)
    (used : List String) :
    freshFileName used base ending = base ++ ending ∨ IsPlain (freshFileName used base ending) := by
  have hnumbered : ∀ number : Nat, IsPlain (base ++ "_" ++ toString number ++ ending) := by
    intro number
    rw [String.toList_append, List.mem_append, not_or] at hslash
    have hdigits := slash_not_mem_toString number
    refine .of_mem ?_ (show '_' ∈ _ by simp) (by decide)
    simp only [String.toList_append, List.mem_append, not_or]
    exact ⟨⟨⟨hslash.1, by decide⟩, hdigits⟩, hslash.2⟩
  have hsearch : ∀ fuel index, IsPlain (numberedFileName used base ending fuel index) := by
    intro fuel
    induction fuel with
    | zero => exact fun index => hnumbered index
    | succ fuel ih =>
      intro index
      unfold numberedFileName
      dsimp only
      split
      · exact ih (index + 1)
      · exact hnumbered index
  unfold freshFileName
  split
  · exact .inr (hsearch _ _)
  · exact .inl rfl

/-- The two parts of the own name of a file are its last name. -/
theorem ownName_append (path : FileSystem.Path) :
    String.ofList (ownName path).1 ++ String.ofList (ownName path).2 = path.getLast?.getD "" := by
  unfold ownName Path.splitExtension
  cases hsplit : FileSystem.splitExtension (path.getLast?.getD "") with
  | mk stem extension =>
    rw [← String.toList_inj, toList_of_splitExtension hsplit]
    cases extension <;> simp

/-- The ending of a canonical name. -/
def canonicalEnding (path : FileSystem.Path) : List Char :=
  match path.splitExtension.2 with
  | some extension => '.' :: lowerAscii extension.toList
  | none => ".bin".toList

private theorem slash_not_mem_canonicalEnding {path : FileSystem.Path}
    (hslash : '/' ∉ (path.getLast?.getD "").toList) : '/' ∉ canonicalEnding path := by
  unfold canonicalEnding Path.splitExtension
  cases hsplit : FileSystem.splitExtension (path.getLast?.getD "") with
  | mk stem extension =>
    rw [toList_of_splitExtension hsplit] at hslash
    cases extension with
    | none => exact show '/' ∉ ".bin".toList by decide
    | some extension =>
      intro hmem
      obtain hdot | hmem := List.mem_cons.mp hmem
      · exact absurd hdot (by decide)
      · rw [mem_lowerAscii_iff (by decide)] at hmem
        exact hslash (by simp [hmem])

private theorem slash_not_mem_semanticToken? {registry : AssetRegistry} {path : FileSystem.Path}
    {hint stem token : List Char} (htoken : registry.semanticToken? path hint stem = some token) :
    '/' ∉ token := by
  obtain ⟨text, -, rfl⟩ := List.mem_map.mp (List.mem_of_find?_eq_some htoken)
  exact slash_not_mem_normalize text

/-- A canonical name joins the kind of the file, the label and a token. -/
private theorem exists_canonicalName (registry : AssetRegistry) (path : FileSystem.Path)
    (hint : String) :
    ∃ kind token, kind ∈ ["ic".toList, "img".toList] ∧ '/' ∉ token ∧
      registry.canonicalName path hint =
        (['_'].intercalate ([kind, registry.settings.label.toList, token].filter (!·.isEmpty)),
          canonicalEnding path) := by
  refine ⟨if canonicalEnding path == ".svg".toList then "ic".toList else "img".toList, _, ?_, ?_,
    rfl⟩
  · split
    · exact List.mem_cons_self
    · exact List.mem_cons_of_mem _ List.mem_cons_self
  · have hdefault : ∀ isVector : Bool,
        '/' ∉ (if isVector then "icon".toList else "image".toList) := by decide
    cases htoken : registry.semanticToken? path hint.toList _ with
    | some token => exact slash_not_mem_semanticToken? htoken
    | none => exact hdefault _

theorem isPlain_canonicalName {registry : AssetRegistry} {path : FileSystem.Path}
    (hlabel : '/' ∉ registry.settings.label.toList)
    (hname : '/' ∉ (path.getLast?.getD "").toList) (hint : String) :
    IsPlain (String.ofList (registry.canonicalName path hint).1 ++
      String.ofList (registry.canonicalName path hint).2) := by
  obtain ⟨kind, token, hkind, htoken, hcanonical⟩ := registry.exists_canonicalName path hint
  have hknown : 'i' ∈ kind ∧ '/' ∉ kind := by
    obtain rfl | rfl : kind = "ic".toList ∨ kind = "img".toList := by simpa using hkind
    · decide
    · decide
  have hparts : ∀ part ∈ [kind, registry.settings.label.toList, token], '/' ∉ part := by
    simp [hknown.2, hlabel, htoken]
  have hslash : '/' ∉ ['_'].intercalate
      ([kind, registry.settings.label.toList, token].filter (!·.isEmpty)) := by
    intro hmem
    obtain hseparator | ⟨part, hpart, hmem⟩ := mem_intercalate hmem
    · exact absurd hseparator (by decide)
    · exact hparts part (List.mem_of_mem_filter hpart) hmem
  -- The label and the token may be empty, the kind is not, and keeps the name from being all dots.
  have hfirst : kind ∈ [kind, registry.settings.label.toList, token].filter (!·.isEmpty) := by
    rw [List.mem_filter]
    exact ⟨List.mem_cons_self, by simpa using List.ne_nil_of_mem hknown.1⟩
  rw [hcanonical]
  refine .of_mem ?_ (show 'i' ∈ _ from ?_) (by decide)
  · simp only [String.toList_append, String.toList_ofList, List.mem_append, not_or]
    exact ⟨hslash, slash_not_mem_canonicalEnding hname⟩
  · simp only [String.toList_append, String.toList_ofList, List.mem_append]
    exact .inl ((isInfix_intercalate hfirst).subset hknown.1)

/-- A file has the name of an entry of a directory. The root of the file system may go without. -/
def IsNameOf (path : FileSystem.Path) (name : String) : Prop := IsPlain name ∨ path = [] ∧ name = ""

/-- The name of a file in the asset directory is a plain one. -/
theorem isNameOf_outputName {registry : AssetRegistry} {path : FileSystem.Path}
    (hlabel : '/' ∉ registry.settings.label.toList)
    (hknown : ∀ known, registry.fileNames.get? path = some known → IsNameOf path known)
    (hlast : ∀ name, path.getLast? = some name → IsPlain name) (hint : String) :
    IsNameOf path (registry.outputName path hint).1 := by
  have hname : IsNameOf path (path.getLast?.getD "") := by
    cases hpath : path.getLast? with
    | none => exact .inr ⟨List.getLast?_eq_none_iff.mp hpath, rfl⟩
    | some name => exact .inl (hlast name hpath)
  have hslash : '/' ∉ (path.getLast?.getD "").toList := by
    obtain hplain | ⟨-, hempty⟩ := hname
    · exact hplain.slash
    · simp [hempty]
  unfold outputName
  split
  · rename_i known hget
    exact hknown known hget
  · dsimp only
    split
    · have hcanonical := isPlain_canonicalName hlabel hslash hint
      obtain hsame | hplain := freshFileName_cases hcanonical.slash registry.usedNames
      · rw [hsame]
        exact .inl hcanonical
      · exact .inl hplain
    · rw [← ownName_append] at hslash
      obtain hsame | hplain := freshFileName_cases hslash registry.usedNames
      · rw [hsame, ownName_append]
        exact hname
      · exact .inl hplain

end AssetRegistry

/-! ## Relative paths -/

/-- The asset directory is below the root of the project, or is the root itself. -/
structure AssetSettings.IsContained (settings : AssetSettings) : Prop where
  relative : isAbsolute settings.assetDirectory = false
  stays : staysBelow 0 (names settings.assetDirectory) = true

/-- The place of the asset directory. -/
def AssetSettings.assetPlace (settings : AssetSettings) : FileSystem.Path :=
  (names settings.projectRoot ++ names settings.assetDirectory).foldl step []

/-- The names of the path to the asset directory. -/
def AssetSettings.assetNames (settings : AssetSettings) : List String :=
  if isAbsolute settings.assetDirectory then names settings.assetDirectory
  else names settings.projectRoot ++ names settings.assetDirectory

/-- The path of a file in the asset directory is that of its name, continued from the directory. -/
theorem AssetSettings.exists_relativePath (settings : AssetSettings) (name : String) :
    settings.assetDirectory = "" ∧ settings.relativePath name = name ∨
      settings.relativePath name =
          String.ofList (settings.assetDirectory.toList ++ '/' :: name.toList) ∧
        isAbsolute (settings.relativePath name) = isAbsolute settings.assetDirectory := by
  unfold relativePath
  split
  · rename_i hempty
    exact .inl ⟨beq_iff_eq.mp hempty, rfl⟩
  · rename_i hdirectory
    refine .inr ⟨by rw [← String.toList_inj]; simp, ?_⟩
    unfold isAbsolute
    rw [String.toList_append, String.toList_append, List.append_assoc, List.head?_append_of_ne_nil]
    simpa using hdirectory

theorem isAbsolute_of_slash_not_mem {name : String} (hslash : '/' ∉ name.toList) :
    isAbsolute name = false := by
  rw [isAbsolute, beq_eq_false_iff_ne]
  exact fun hhead => hslash (List.mem_of_head? hhead)

/-- A file is copied to the asset directory. -/
theorem AssetSettings.names_joinPath_relativePath (settings : AssetSettings) {name : String}
    (hslash : '/' ∉ name.toList) :
    names (joinPath settings.projectRoot (settings.relativePath name)) =
      settings.assetNames ++ names name := by
  unfold assetNames
  obtain ⟨hempty, hname⟩ | ⟨hpath, habsolute⟩ := settings.exists_relativePath name
  · rw [hname, FileSystem.names_joinPath (isAbsolute_of_slash_not_mem hslash), hempty]
    simp [isAbsolute]
  · split
    · rename_i hroot
      rw [hroot] at habsolute
      rw [joinPath, if_pos habsolute, hpath, names_ofList_append_slash, String.ofList_toList,
        String.ofList_toList]
    · rename_i hroot
      rw [Bool.not_eq_true] at hroot
      rw [hroot] at habsolute
      rw [FileSystem.names_joinPath habsolute, hpath, names_ofList_append_slash,
        String.ofList_toList, String.ofList_toList, List.append_assoc]

/-- The path of a file in the asset directory leads to no directory alone. -/
theorem AssetSettings.requiresDirectory_joinPath (settings : AssetSettings) {name : String}
    (hname : IsPlain name) :
    requiresDirectory (joinPath settings.projectRoot (settings.relativePath name)) = false := by
  have hrelative : requiresDirectory (settings.relativePath name) = false := by
    obtain ⟨-, hsame⟩ | ⟨hpath, -⟩ := settings.exists_relativePath name
    · rw [hsame, hname.requiresDirectory_eq]
    · rw [hpath, requiresDirectory_append_slash, String.ofList_toList, hname.requiresDirectory_eq]
  cases habsolute : isAbsolute (settings.relativePath name) with
  | true => rwa [joinPath, if_pos habsolute]
  | false => rwa [FileSystem.requiresDirectory_joinPath habsolute]

namespace AssetSettings.IsContained

variable {settings : AssetSettings}

theorem isPrefix_assetPlace (hcontained : settings.IsContained) :
    placeOf settings.projectRoot <+: settings.assetPlace := by
  rw [assetPlace, List.foldl_append, foldl_step_of_staysBelow _ hcontained.stays]
  exact List.prefix_append _ _

/-- A file is copied through the asset directory. -/
theorem names_joinPath (hcontained : settings.IsContained) {name : String} (hname : IsPlain name) :
    names (joinPath settings.projectRoot (settings.relativePath name)) =
      names settings.projectRoot ++ names settings.assetDirectory ++ [name] := by
  rw [settings.names_joinPath_relativePath hname.slash, assetNames, hcontained.relative,
    hname.names_eq]
  rfl

theorem copyTarget_eq (hcontained : settings.IsContained) {name : String} (hname : IsPlain name) :
    copyTarget (joinPath settings.projectRoot (settings.relativePath name)) =
      settings.assetPlace ++ [name] := by
  unfold copyTarget
  rw [hcontained.names_joinPath hname, List.dropLast_concat, List.getLast?_concat]
  rfl

end AssetSettings.IsContained

/-! ## Registered files -/

namespace AssetRegistry

theorem slash_not_mem_label (options : CompileOptions) (directory : String) :
    '/' ∉ (settingsOf options directory).label.toList := by
  unfold settingsOf onChars
  rw [String.toList_ofList]
  exact slash_not_mem_sanitize _

@[simp]
theorem projectRoot_settingsOf (options : CompileOptions) (directory : String) :
    (settingsOf options directory).projectRoot = options.projectRoot := rfl

/-- A place that a reference leads to has a plain name. -/
theorem isPlain_of_localPath? {registry : AssetRegistry} {files : FileSystem} {source name : String}
    {place : FileSystem.Path} (hpath : registry.localPath? files source = some place)
    (hlast : place.getLast? = some name) : IsPlain name := by
  obtain ⟨-, hlocate⟩ := locate_of_localPath? hpath
  obtain ⟨-, -, hfollow, -⟩ := locate_eq_ok_iff.mp hlocate
  obtain ⟨hplace, -⟩ := eq_foldl_of_follow hfollow (by simp)
  rw [hplace] at hlast
  exact isPlain_of_mem_placeOf (List.mem_of_getLast? hlast)

/-- A resolved reference is answered with the path of the name that its file is given. -/
theorem relativePath_of_resolve {registry : AssetRegistry} {files : FileSystem} {source : String}
    {place : FileSystem.Path} {hint : Option String} {found : LocalAsset}
    (hpath : registry.localPath? files source = some place)
    (hfound : (registry.resolve files source hint).1 = some found) :
    found.relativePath =
      registry.settings.relativePath (registry.outputName place (hint.getD "")).1 := by
  obtain ⟨name, used, fileNames, hname, -, -⟩ := registry.exists_outputName place (hint.getD "")
  unfold resolve at hfound
  rw [hpath] at hfound
  dsimp only at hfound
  rw [hname] at hfound ⊢
  obtain rfl := Option.some.inj hfound
  rfl

/-- The registered files stand below a place, each under the path of a plain name. -/
structure Places (files : FileSystem) (options : CompileOptions) (directory : String)
    (base : FileSystem.Path) (registry : AssetRegistry) : Prop where
  settings : registry.settings = settingsOf options directory
  registers : registry.Registers
  placed : ∀ place relative, registry.registrations.get? place = some relative →
    base <+: place ∧ files.entry? place ≠ none ∧
      ∃ name, IsPlain name ∧ registry.settings.relativePath name = relative

section

variable {files : FileSystem} {options : CompileOptions} {directory : String}
  {base : FileSystem.Path}

theorem places_collectHints (root : Markup.Node) :
    Places files options directory base
      ((start files options directory).collectHints files root) := by
  obtain ⟨hregisters, hgrows, hsame⟩ :=
    (registers_start files options directory).collectHints files root
  refine ⟨hgrows.settings, hregisters, fun place relative hget => ?_⟩
  rw [hsame] at hget
  cases hget

theorem Places.resolve {registry : AssetRegistry}
    (hplaces : Places files options directory base registry)
    (hcanonical : files.follow [] (names directory) = .ok base) (hbase : base ≠ [])
    {source : String} (hconfined : isConfined source = true) (hint : Option String) :
    Places files options directory base (registry.resolve files source hint).2 := by
  cases hpath : registry.localPath? files source with
  | none =>
    rw [resolve_of_localPath?_eq_none hpath hint]
    exact hplaces
  | some place =>
    obtain ⟨found, hfound, hadds⟩ := hplaces.registers.adds_resolve hpath hint
    refine ⟨hadds.grows.settings.trans hplaces.settings, hadds.registers, ?_⟩
    intro other relative hget
    rw [hadds.grows.settings]
    by_cases hsame : place = other
    · subst hsame
      rw [hadds.get?_self] at hget
      obtain rfl := Option.some.inj hget
      have hlocal := isLocal_of_localPath? hconfined hpath
      have hdirectory : registry.settings.markupDirectory = directory := by
        rw [hplaces.settings]
        rfl
      rw [hdirectory] at hlocal
      obtain ⟨_, hwithin, hentry⟩ := hlocal.exists_isWithin
      obtain rfl := Except.ok.inj (hcanonical.symm.trans hwithin.canonical)
      have hbelow := hwithin.below
      refine ⟨hbelow, hentry, _, ?_, (relativePath_of_resolve hpath hfound).symm⟩
      have hnamed : IsNameOf place (registry.outputName place (hint.getD "")).1 := by
        refine isNameOf_outputName ?_ ?_ (fun last => isPlain_of_localPath? hpath) _
        · rw [hplaces.settings]
          exact slash_not_mem_label options directory
        · -- A file that has a name already is registered under its path.
          intro known hknown
          obtain ⟨-, -, name, hname, hrelative⟩ := hplaces.placed place _
            ((hplaces.registers.registered_iff place _).mpr ⟨known, hknown, rfl⟩)
          obtain rfl := registry.settings.relativePath_injective hrelative
          exact .inl hname
      obtain hplain | ⟨rfl, -⟩ := hnamed
      · exact hplain
      · exact absurd (List.prefix_nil.mp hbelow) hbase
    · rw [hadds.get?_of_ne other hsame] at hget
      exact hplaces.placed other relative hget

/-- What is copied stands below the place, and goes to the asset directory. -/
theorem Places.exists_of_mem_copies {registry : AssetRegistry}
    (hplaces : Places files options directory base registry) {copy : FileSystem.Path × String}
    (hcopy : copy ∈ registry.copies) :
    base <+: copy.1 ∧ files.entry? copy.1 ≠ none ∧ ∃ name, IsPlain name ∧
      copy.2 = joinPath options.projectRoot ((settingsOf options directory).relativePath name) := by
  obtain ⟨⟨place, relative⟩, hmem, rfl⟩ := List.mem_map.mp hcopy
  rw [hplaces.registers.mem_registered_iff] at hmem
  obtain ⟨hbelow, hentry, name, hname, rfl⟩ := hplaces.placed place relative hmem
  refine ⟨hbelow, hentry, name, hname, ?_⟩
  dsimp only
  rw [hplaces.settings, projectRoot_settingsOf]

/-- What is written by copying is in the project. -/
theorem Places.isPrefix_of_isTarget {registry : AssetRegistry}
    (hplaces : Places files options directory base registry)
    (hcontained : (settingsOf options directory).IsContained) {place : FileSystem.Path}
    (htarget : IsTarget registry.copies place) : placeOf options.projectRoot <+: place := by
  obtain ⟨copy, hcopy, rfl⟩ := htarget
  obtain ⟨-, -, name, hname, hpath⟩ := hplaces.exists_of_mem_copies hcopy
  rw [← projectRoot_settingsOf options directory] at hpath
  rw [hpath, hcontained.copyTarget_eq hname]
  exact hcontained.isPrefix_assetPlace.trans (List.prefix_append _ _)

/-- What is made by copying is in the project, or on the way to it. -/
theorem Places.onTheWay_of_isAboveTarget {registry : AssetRegistry}
    (hplaces : Places files options directory base registry)
    (hcontained : (settingsOf options directory).IsContained) {place : FileSystem.Path}
    (habove : IsAboveTarget registry.copies place) :
    OnTheWay [] (names options.projectRoot) place ∨ placeOf options.projectRoot <+: place := by
  obtain ⟨copy, hcopy, hplace⟩ := habove
  obtain ⟨-, -, name, hname, hpath⟩ := hplaces.exists_of_mem_copies hcopy
  rw [← projectRoot_settingsOf options directory] at hpath
  rw [hpath, hcontained.names_joinPath hname, List.dropLast_concat] at hplace
  exact hplace.of_append.imp_right fun hplace => hplace.isPrefix hcontained.stays

/-- No two files are copied to the same place. -/
theorem Places.pairwise_copyTarget {registry : AssetRegistry}
    (hplaces : Places files options directory base registry)
    (hcontained : (settingsOf options directory).IsContained) :
    registry.copies.Pairwise fun copy other => copyTarget copy.2 ≠ copyTarget other.2 := by
  have hnodup : registry.registered.Pairwise fun first second => first.1 ≠ second.1 :=
    List.pairwise_map.mp hplaces.registers.nodup_registered
  unfold copies
  rw [List.pairwise_map]
  refine hnodup.imp_of_mem fun {first second} hfirst hsecond hne heq => ?_
  dsimp only at heq
  rw [hplaces.registers.mem_registered_iff] at hfirst hsecond
  obtain ⟨-, -, name, hname, hrelative⟩ := hplaces.placed _ _ hfirst
  obtain ⟨-, -, name', hname', hrelative'⟩ := hplaces.placed _ _ hsecond
  apply hne
  apply hplaces.registers.relative_injective hfirst
  rw [hsecond, ← hrelative, ← hrelative']
  rw [← hrelative, ← hrelative', hplaces.settings, hcontained.copyTarget_eq hname,
    hcontained.copyTarget_eq hname', List.append_cancel_left_eq, List.singleton_inj] at heq
  rw [heq]

end

end AssetRegistry

end DesignCompiler.Asset
