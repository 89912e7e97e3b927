import DesignCompiler.Proofs.Asset.Hints
import DesignCompiler.Proofs.Asset.Token

/-!
# Names with two kinds

A semantic token that is normalized again stays what it is, unless the name still begins with a kind
once its own kind is stripped. So a hint that was collected beforehand names a file as the class
does that it was collected from, unless that class has two kinds.
-/

namespace DesignCompiler.Asset

open Text

/-- A kind is followed by a second one, and that by more than numbers. -/
def HasSecondKind (text : List Char) : Prop :=
  ∃ kind ∈ kinds, ∃ second ∈ kinds, ∃ name,
    sanitize text = kind.toList ++ '_' :: (second.toList ++ '_' :: name) ∧ isNumbers name = false

/-! ## Normalizing again -/

theorem normalize_of_isToken {token : List Char} (htoken : IsToken token) :
    normalize token = stripNumbers (dropKind token) := by
  rw [normalize_eq, htoken.sanitize_eq]

/-- What stays when it is normalized again begins with no kind. -/
theorem normalize_normalize_eq_iff {text : List Char} :
    normalize (normalize text) = normalize text ↔ ¬ BeginsWithKind (normalize text) := by
  have htoken := isToken_normalize text
  rw [normalize_of_isToken htoken]
  constructor
  · rintro hsame ⟨kind, hkind, rest, heq⟩
    rw [heq] at htoken hsame
    rw [dropKind_of_kind hkind htoken.of_append_underscore.1.head] at hsame
    have hle := (prefix_stripNumbers rest).length_le
    rw [hsame, List.length_append, List.length_cons] at hle
    omega
  · intro hkind
    rw [dropKind_of_not_beginsWithKind hkind, normalize_eq, stripNumbers_stripNumbers]

theorem plain_of_mem_kinds :
    ∀ kind ∈ kinds, ∀ c ∈ kind.toList, isAsciiDigit c = false ∧ c ≠ '_' := by
  simp [kinds, isAsciiDigit]

theorem beginsWithKind_normalize_iff {text : List Char} :
    BeginsWithKind (normalize text) ↔ HasSecondKind text := by
  have htoken := isToken_sanitize text
  rw [normalize_eq]
  constructor
  · rintro ⟨second, hsecond, rest, hrest⟩
    obtain ⟨back, hback⟩ := prefix_stripNumbers (dropKind (sanitize text))
    rw [hrest, List.append_assoc, List.cons_append] at hback
    by_cases hkind : BeginsWithKind (sanitize text)
    · obtain ⟨kind, hmem, named, hnamed⟩ := hkind
      rw [hnamed] at htoken
      obtain ⟨htoken, -⟩ := htoken.of_append_underscore
      rw [hnamed, dropKind_of_kind hmem htoken.head] at hback hrest
      subst hback
      refine ⟨kind, hmem, second, hsecond, rest ++ back, hnamed, ?_⟩
      rw [← Bool.not_eq_true]
      intro hnumbers
      -- The underscore behind the second kind would have been stripped with the numbers.
      have hrun := isNumbers_underscore hnumbers htoken.of_append_underscore.1.head
      have hne : second.toList ≠ [] := (by decide : ∀ kind ∈ kinds, kind.toList ≠ []) second hsecond
      rw [stripNumbers, dropNumbers_of_plain (plain_of_mem_kinds second hsecond) hrun,
        if_neg hne] at hrest
      have hlength := congrArg List.length hrest
      rw [List.length_append, List.length_cons] at hlength
      omega
    · rw [dropKind_of_not_beginsWithKind hkind] at hback
      exact absurd ⟨second, hsecond, _, hback.symm⟩ hkind
  · rintro ⟨kind, hkind, second, hsecond, name, heq, hname⟩
    rw [heq] at htoken ⊢
    obtain ⟨htoken, -⟩ := htoken.of_append_underscore
    obtain ⟨-, hne⟩ := htoken.of_append_underscore
    have hkept : dropNumbers (second.toList ++ '_' :: name) =
        second.toList ++ '_' :: dropNumbers name := by
      simpa using @dropNumbers_append (second.toList ++ ['_']) name hne hname
    rw [dropKind_of_kind hkind htoken.head, stripNumbers, hkept, if_neg (by simp)]
    exact ⟨second, hsecond, _, rfl⟩

/-! ## Naming a file by its class and by its hint -/

theorem isEmpty_of_not_isGeneric {token : List Char} (htoken : isGeneric token = false) :
    token.isEmpty = false := by
  cases token with
  | nil => cases htoken
  | cons c rest => rfl

namespace AssetRegistry

/-- A hint that says something is the token of a file. -/
theorem semanticToken?_of_hint {hint : List Char} (hhint : isGeneric (normalize hint) = false)
    (registry : AssetRegistry) (path : FileSystem.Path) (stem : List Char) :
    registry.semanticToken? path hint stem = some (normalize hint) := by
  simp [semanticToken?, hhint, isEmpty_of_not_isGeneric hhint]

/-- Where the hint says nothing, the collected one is normalized again. -/
theorem semanticToken?_of_collected {registry : AssetRegistry} {path : FileSystem.Path}
    {hint : List Char} {collected : String} (hhint : isGeneric (normalize hint) = true)
    (hget : registry.hints.get? path = some collected)
    (hcollected : isGeneric (normalize collected.toList) = false) (stem : List Char) :
    registry.semanticToken? path hint stem = some (normalize collected.toList) := by
  simp [semanticToken?, hhint, hget, hcollected, isEmpty_of_not_isGeneric hcollected]

/-- The hints matter to the name of a file by its token alone. -/
theorem exists_outputName_hints {registry : AssetRegistry} {path : FileSystem.Path}
    {hint other : String} {hints : Dictionary FileSystem.Path String}
    (htoken : ∀ stem, registry.semanticToken? path hint.toList stem =
      { registry with hints := hints }.semanticToken? path other.toList stem) :
    ∃ name used fileNames, registry.outputName path hint =
        (name, { registry with usedNames := used, fileNames := fileNames }) ∧
      { registry with hints := hints }.outputName path other =
        (name, { registry with usedNames := used, fileNames := fileNames, hints := hints }) := by
  have hcanonical : registry.canonicalName path hint =
      { registry with hints := hints }.canonicalName path other := by
    simp only [canonicalName, htoken]
  unfold outputName
  cases registry.fileNames.get? path with
  | some name => exact ⟨name, registry.usedNames, registry.fileNames, rfl, rfl⟩
  | none =>
    dsimp only
    rw [hcanonical]
    exact ⟨_, _, _, rfl, rfl⟩

/-- A reference is answered alike under all hints that give its file the same token. -/
theorem resolve_hints {registry : AssetRegistry} {files : FileSystem} {source : String}
    {path : FileSystem.Path} (hpath : registry.localPath? files source = some path)
    {hint other : Option String} {hints : Dictionary FileSystem.Path String}
    (htoken : ∀ stem, registry.semanticToken? path (hint.getD "").toList stem =
      { registry with hints := hints }.semanticToken? path (other.getD "").toList stem) :
    (registry.resolve files source hint).1 =
      ({ registry with hints := hints }.resolve files source other).1 := by
  have hpath' : { registry with hints := hints }.localPath? files source = some path := hpath
  obtain ⟨name, used, fileNames, hname, hname'⟩ := exists_outputName_hints htoken
  simp only [resolve, hpath, hpath', hname, hname', reference]
  cases registry.catalog with
  | none => rfl
  | some catalog => rfl

end AssetRegistry

/-- A semantic token is made of words of small letters and digits joined by single underscores, or
    is empty. Normalized again it stays what it is just if the text it comes from has no second kind
    in its name; then a hint that was collected from a class names a file, where it is asked for
    with a hint that says nothing, as the class given directly names it. -/
theorem normalize_again (className : String) :
    (∃ words : List (List Char), (∀ word ∈ words, word ≠ [] ∧ ∀ c ∈ word, isTokenChar c = true) ∧
      normalize className.toList = ['_'].intercalate words) ∧
    (normalize (normalize className.toList) = normalize className.toList ↔
      ¬ HasSecondKind className.toList) ∧
    ∀ (registry : AssetRegistry) (files : FileSystem) (source : String) (path : FileSystem.Path)
      (hint : Option String) (collected : String) (hints : Dictionary FileSystem.Path String),
      ¬ HasSecondKind className.toList → tokenOfClass? className = some collected →
      registry.localPath? files source = some path →
      registry.hints.get? path = some collected →
      isGeneric (normalize (hint.getD "").toList) = true →
      (registry.resolve files source hint).1 =
        ({ registry with hints := hints }.resolve files source (some className)).1 := by
  have hagain : normalize (normalize className.toList) = normalize className.toList ↔
      ¬ HasSecondKind className.toList := by
    rw [normalize_normalize_eq_iff, beginsWithKind_normalize_iff]
  refine ⟨(isToken_normalize _).exists_words, hagain, ?_⟩
  intro registry files source path hint collected hints hkind hclass hpath hget hhint
  obtain ⟨rfl, hgeneric⟩ := AssetRegistry.tokenOfClass?_eq_some_iff.mp hclass
  have hsame : normalize (String.ofList (normalize className.toList)).toList =
      normalize className.toList := by
    rw [String.toList_ofList, hagain.mpr hkind]
  rw [String.toList_ofList] at hgeneric
  have hcollected : isGeneric
      (normalize (String.ofList (normalize className.toList)).toList) = false := by
    rw [hsame]
    exact hgeneric
  refine AssetRegistry.resolve_hints hpath fun stem => ?_
  rw [AssetRegistry.semanticToken?_of_collected hhint hget hcollected, hsame]
  exact (AssetRegistry.semanticToken?_of_hint hgeneric _ _ _).symm

/-- A design that shows an icon twice, the first time with a class that says nothing. -/
private def markFiles : FileSystem := ⟨[
  (["design"], .directory),
  (["design", "x9.svg"], .file (.text "<svg/>"))]⟩

private def mark (className : String) : Markup.Node :=
  .element ⟨"img", ⟨[("src", "x9.svg"), ("className", className)]⟩⟩ []

private def markRegistry (className : String) : AssetRegistry :=
  (AssetRegistry.start markFiles { assetLabel := "p", projectRoot := "app" } "design").collectHints
    markFiles (.element ⟨"div", ⟨[]⟩⟩ [mark "vector3", mark className])

/-- The path that the icon is given for a class. -/
private def markPath (registry : AssetRegistry) (className : String) : Option String :=
  (registry.resolve markFiles "x9.svg" (some className)).1.map LocalAsset.relativePath

theorem normalize_again_home :
    normalize "icon_home_2".toList = "home".toList ∧ ¬ HasSecondKind "icon_home_2".toList ∧
      markPath (markRegistry "icon_home_2") "vector3" = some "assets/figma/ic_p_home.svg" ∧
      markPath { markRegistry "icon_home_2" with hints := .empty } "icon_home_2" =
        some "assets/figma/ic_p_home.svg" := by
  obtain ⟨-, hagain, hnamed⟩ := normalize_again "icon_home_2"
  have hkind := hagain.mp (by decide +kernel)
  have hpath : markPath (markRegistry "icon_home_2") "vector3" =
      some "assets/figma/ic_p_home.svg" := by decide +kernel
  have hsame := hnamed (markRegistry "icon_home_2") markFiles "x9.svg" ["design", "x9.svg"]
    (some "vector3") "home" .empty hkind (by decide +kernel) (by decide +kernel) (by decide +kernel)
    (by decide +kernel)
  refine ⟨by decide +kernel, hkind, hpath, ?_⟩
  rw [markPath, ← hsame]
  exact hpath

/-- Of two kinds the second one is stripped only when the token is normalized again. So the class of
    one image gives the file a name that it does not give it directly. -/
theorem normalize_strips_second_kind :
    normalize (normalize "icon_img_home".toList) ≠ normalize "icon_img_home".toList ∧
      markPath (markRegistry "icon_img_home") "vector3" = some "assets/figma/ic_p_home.svg" ∧
      markPath { markRegistry "icon_img_home" with hints := .empty } "icon_img_home" =
        some "assets/figma/ic_p_img_home.svg" := by
  decide +kernel

end DesignCompiler.Asset
