import DesignCompiler.Asset.Registry
import DesignCompiler.Proofs.Asset.Registration
import DesignCompiler.Proofs.Dictionary
import DesignCompiler.Proofs.Text.Bytes
import Mathlib.Data.Bool.Basic
import Mathlib.Data.Prod.Lex
import Mathlib.Order.RelIso.Basic

/-!
# Hints for the names of files

Tokens are compared in a strict total order, generic ones last. Of all images that show a file the
first token in that order is the hint for the file, whichever image comes first in the tree.
-/

namespace DesignCompiler.Asset

open Text FileSystem

/-! ## The order of tokens -/

/-- A token comes before another one if it is shorter in bytes, or as long and smaller bytewise. -/
def Precedes (token other : String) : Prop :=
  (bytes token).length < (bytes other).length ∨
    (bytes token).length = (bytes other).length ∧ bytes token < bytes other

/-- The place of a token in the order. -/
def place (token : String) : ℕ ×ₗ List ℕ := toLex ((bytes token).length, bytes token)

/-- The place of a token among all tokens, generic ones last. -/
def rank (token : String) : Bool ×ₗ ℕ ×ₗ List ℕ := toLex (isGeneric token.toList, place token)

theorem precedes_iff {token other : String} : Precedes token other ↔ place token < place other := by
  rw [place, place, Prod.Lex.toLex_lt_toLex, Precedes]

theorem place_injective : Function.Injective place := by
  intro token other hplace
  exact bytes_injective (congrArg (fun pair => (ofLex pair).2) hplace)

theorem Precedes.trans {token other third : String} (hfirst : Precedes token other)
    (hnext : Precedes other third) : Precedes token third := by
  rw [precedes_iff] at *
  exact hfirst.trans hnext

theorem Precedes.asymm {token other : String} (hfirst : Precedes token other) :
    ¬ Precedes other token := by
  rw [precedes_iff] at *
  exact hfirst.asymm

theorem precedes_or_precedes {token other : String} (hne : token ≠ other) :
    Precedes token other ∨ Precedes other token := by
  rw [precedes_iff, precedes_iff]
  exact lt_or_gt_of_ne (place_injective.ne hne)

/-- Against a token that is not empty the comparison is that of the ranks. -/
theorem isBetter_iff_rank_lt {next current : String} (hcurrent : current ≠ "") :
    isBetter next current = true ↔ rank next < rank current := by
  rw [rank, rank, Prod.Lex.toLex_lt_toLex, Bool.lt_iff, ← precedes_iff, Precedes, length_bytes,
    length_bytes, bytes_lt_iff, isBetter, if_neg (by simpa using hcurrent)]
  dsimp only
  cases isGeneric next.toList <;> cases isGeneric current.toList <;>
    by_cases hsize : next.utf8ByteSize = current.utf8ByteSize <;> simp [hsize]

/-- Among tokens that are not generic the comparison is the order. -/
theorem isBetter_iff_precedes {next current : String} (hnext : isGeneric next.toList = false)
    (hcurrent : isGeneric current.toList = false) :
    isBetter next current = true ↔ Precedes next current := by
  have hne : current ≠ "" := by
    rintro rfl
    cases hcurrent
  rw [isBetter_iff_rank_lt hne, rank, rank, Prod.Lex.toLex_lt_toLex, hnext, hcurrent, precedes_iff]
  simp

/-- The comparison of tokens that are not empty, as that of their ranks. -/
def rankEmbedding :
    (fun next current : {token : String // token ≠ ""} => isBetter next.1 current.1 = true) ↪r
      (fun a b : Bool ×ₗ ℕ ×ₗ List ℕ => a < b) where
  toFun token := rank token.1
  inj' := by
    intro token other hrank
    exact Subtype.ext (place_injective (congrArg (fun pair => (ofLex pair).2) hrank))
  map_rel_iff' := fun {_ current} => (isBetter_iff_rank_lt current.2).symm

/-- The comparison of tokens that are not empty is a strict total order. -/
theorem isStrictTotalOrder_isBetter :
    IsStrictTotalOrder {token : String // token ≠ ""}
      fun next current => isBetter next.1 current.1 = true :=
  rankEmbedding.isStrictTotalOrder

/-! ## The first token -/

/-- The first of some tokens, if there are any. -/
inductive IsFirst (names : String → Prop) : Option String → Prop
  | found {token : String} (mem : names token)
      (precedes : ∀ other, names other → other ≠ token → Precedes token other) :
      IsFirst names (some token)
  | absent (not_mem : ∀ token, ¬ names token) : IsFirst names none

/-- There is one first token only. -/
theorem IsFirst.unique {names : String → Prop} {hint other : Option String}
    (hhint : IsFirst names hint) (hother : IsFirst names other) : hint = other := by
  cases hhint with
  | absent hnone =>
    cases hother with
    | absent => rfl
    | found hfound => exact absurd hfound (hnone _)
  | @found token htoken hprecedes =>
    cases hother with
    | absent hnone => exact absurd htoken (hnone _)
    | @found next hfound hbefore =>
      by_contra hdiffer
      have hne : token ≠ next := fun heq => hdiffer (congrArg some heq)
      exact (hprecedes next hfound hne.symm).asymm (hbefore token htoken hne)

theorem IsFirst.congr {names others : String → Prop} (hsame : ∀ token, names token ↔ others token)
    {hint : Option String} (hhint : IsFirst names hint) : IsFirst others hint := by
  have heq : names = others := funext fun token => propext (hsame token)
  rwa [← heq]

/-- A further token takes the place of the first one if it is better. -/
theorem IsFirst.step {names : String → Prop} {hint : Option String} (hhint : IsFirst names hint)
    (hnames : ∀ token, names token → isGeneric token.toList = false) {next : String}
    (hnext : isGeneric next.toList = false) :
    IsFirst (fun token => names token ∨ token = next)
      (if hint.all (isBetter next) then some next else hint) := by
  cases hhint with
  | absent hnone =>
    rw [Option.all_none, if_pos rfl]
    refine .found (.inr rfl) fun other hother hne => ?_
    exact absurd (hother.resolve_right hne) (hnone other)
  | @found current hcurrent hprecedes =>
    have hbetter := isBetter_iff_precedes hnext (hnames current hcurrent)
    rw [Option.all_some]
    split
    · rename_i hfirst
      rw [hbetter] at hfirst
      refine .found (.inr rfl) fun other hother hne => ?_
      have hother := hother.resolve_right hne
      by_cases hsame : other = current
      · rwa [hsame]
      · exact hfirst.trans (hprecedes other hother hsame)
    · rename_i hlater
      rw [hbetter] at hlater
      refine .found (.inl hcurrent) fun other hother hne => ?_
      obtain hold | rfl := hother
      · exact hprecedes other hold hne
      · exact (precedes_or_precedes hne).resolve_left hlater

/-! ## Collecting hints -/

namespace AssetRegistry

/-- An image shows a file and has a class whose token is not generic. -/
structure NamesFile (registry : AssetRegistry) (files : FileSystem) (image : Markup.Element)
    (path : FileSystem.Path) (token : String) : Prop where
  shows : (image.attribute? "src").bind (registry.localPath? files) = some path
  token_eq : ∃ className, image.classAttribute? = some className ∧
    token = String.ofList (normalize className.toList)
  not_generic : isGeneric token.toList = false

theorem tokenOfClass?_eq_some_iff {className token : String} :
    tokenOfClass? className = some token ↔
      token = String.ofList (normalize className.toList) ∧ isGeneric token.toList = false := by
  rw [tokenOfClass?]
  generalize normalize className.toList = name
  cases hgeneric : isGeneric name with
  | true =>
    rw [if_pos rfl]
    refine iff_of_false (by simp) ?_
    rintro ⟨rfl, hnot⟩
    rw [String.toList_ofList, hgeneric] at hnot
    cases hnot
  | false =>
    rw [if_neg (by simp), Option.some_inj]
    constructor
    · rintro rfl
      exact ⟨rfl, by rw [String.toList_ofList, hgeneric]⟩
    · rintro ⟨rfl, -⟩
      rfl

theorem hintOf?_eq_some_iff {registry : AssetRegistry} {files : FileSystem} {image : Markup.Element}
    {path : FileSystem.Path} {token : String} :
    registry.hintOf? files image = some (path, token) ↔
      registry.NamesFile files image path token := by
  simp only [hintOf?, Option.bind_eq_bind, Option.bind_eq_some_iff, tokenOfClass?_eq_some_iff]
  constructor
  · rintro ⟨found, hpath, hint, ⟨className, hclass, heq, hgeneric⟩, hpair⟩
    cases hpair
    exact ⟨Option.bind_eq_some_iff.mpr hpath, ⟨className, hclass, heq⟩, hgeneric⟩
  · rintro ⟨hpath, ⟨className, hclass, heq⟩, hgeneric⟩
    exact ⟨path, Option.bind_eq_some_iff.mp hpath, token, ⟨className, hclass, heq, hgeneric⟩, rfl⟩

theorem get?_addHint (registry : AssetRegistry) (path query : FileSystem.Path) (hint : String) :
    (registry.addHint path hint).hints.get? query =
      if path = query then
        if (registry.hints.get? query).all (isBetter hint) then some hint
        else registry.hints.get? query
      else registry.hints.get? query := by
  unfold addHint
  by_cases hpath : path = query
  · subst hpath
    rw [if_pos rfl]
    split
    · rw [Dictionary.get?_insert, if_pos rfl]
    · rfl
  · rw [if_neg hpath]
    split
    · rw [Dictionary.get?_insert, if_neg hpath]
    · rfl

/-- A token that some images name a file by. -/
def NamedBy (registry : AssetRegistry) (files : FileSystem) (seen : List Markup.Element)
    (path : FileSystem.Path) (token : String) : Prop :=
  ∃ image ∈ seen, registry.NamesFile files image path token

/-- After some images the hint of each file is the first token that they name it by. -/
structure HintsFirst (registry : AssetRegistry) (files : FileSystem) (seen : List Markup.Element)
    (after : AssetRegistry) : Prop where
  settings : after.settings = registry.settings
  isFirst : ∀ path, IsFirst (registry.NamedBy files seen path) (after.hints.get? path)

theorem hintOf?_of_settings {registry other : AssetRegistry}
    (hsettings : other.settings = registry.settings) (files : FileSystem) (image : Markup.Element) :
    other.hintOf? files image = registry.hintOf? files image := by
  have hpath : other.localPath? files = registry.localPath? files :=
    funext (localPath?_of_settings hsettings files)
  rw [hintOf?, hintOf?, hpath]

/-- A further image replaces the hint of its file if its token is better. -/
theorem HintsFirst.takeHint {registry after : AssetRegistry} {files : FileSystem}
    {seen : List Markup.Element} (hfirst : registry.HintsFirst files seen after)
    (image : Markup.Element) :
    registry.HintsFirst files (seen ++ [image]) (after.takeHint files image) := by
  have hnamed : ∀ path token, registry.NamedBy files (seen ++ [image]) path token ↔
      registry.NamedBy files seen path token ∨
        registry.hintOf? files image = some (path, token) := by
    intro path token
    simp [NamedBy, hintOf?_eq_some_iff, or_and_right, exists_or]
  have hsettings := (settings_takeHint after files image).trans hfirst.settings
  refine ⟨hsettings, fun path => ?_⟩
  rw [AssetRegistry.takeHint, hintOf?_of_settings hfirst.settings]
  cases hhint : registry.hintOf? files image with
  | none => exact (hfirst.isFirst path).congr fun token => by simp [hnamed, hhint]
  | some pair =>
    obtain ⟨found, hint⟩ := pair
    dsimp only
    rw [get?_addHint]
    split
    · rename_i hpath
      subst hpath
      have hgeneric : ∀ token, registry.NamedBy files seen found token →
          isGeneric token.toList = false := by
        rintro token ⟨other, -, hother⟩
        exact hother.not_generic
      have hnext := (hintOf?_eq_some_iff.mp hhint).not_generic
      exact ((hfirst.isFirst found).step hgeneric hnext).congr fun token => by
        simp [hnamed, hhint, eq_comm]
    · rename_i hpath
      exact (hfirst.isFirst path).congr fun token => by simp [hnamed, hhint, hpath]

theorem hintsFirst_foldl (registry : AssetRegistry) (hnone : registry.hints = .empty)
    (files : FileSystem) (seen : List Markup.Element) :
    registry.HintsFirst files seen (seen.foldl (takeHint files) registry) := by
  induction seen using List.reverseRecOn with
  | nil =>
    refine ⟨rfl, fun path => ?_⟩
    rw [List.foldl_nil, hnone, Dictionary.get?_empty]
    exact .absent fun token ⟨image, himage, _⟩ => absurd himage List.not_mem_nil
  | append_singleton seen image ih =>
    rw [List.foldl_append]
    exact ih.takeHint image

/-- Collecting the hints of a tree finds for each file the first token that its images name it by,
    and no hint if there is none, so the order of the images makes no difference. Tokens that are
    not empty are compared in a strict total order, in which generic ones come last. -/
theorem hint_collectHints (registry : AssetRegistry) (hnone : registry.hints = .empty)
    (files : FileSystem) (root : Markup.Node) :
    (∀ path, IsFirst (registry.NamedBy files (images root) path)
      ((registry.collectHints files root).hints.get? path)) ∧
    (∀ other : Markup.Node, (images root).Perm (images other) → ∀ path,
      (registry.collectHints files other).hints.get? path =
        (registry.collectHints files root).hints.get? path) ∧
    IsStrictTotalOrder {token : String // token ≠ ""}
      (fun next current => isBetter next.1 current.1 = true) ∧
    ∀ next current : String, current ≠ "" → isGeneric next.toList = false →
      isGeneric current.toList = true → isBetter next current = true := by
  have hfirst : ∀ (root : Markup.Node) (path : FileSystem.Path),
      IsFirst (registry.NamedBy files (images root) path)
        ((registry.collectHints files root).hints.get? path) := by
    intro root
    rw [collectHints_eq_foldl]
    exact (registry.hintsFirst_foldl hnone files (images root)).isFirst
  refine ⟨hfirst root, fun other hperm path => ?_, isStrictTotalOrder_isBetter, ?_⟩
  · apply (hfirst other path).unique
    exact (hfirst root path).congr fun token => by simp [NamedBy, hperm.mem_iff]
  · intro next current hcurrent hnext hgeneric
    rw [isBetter_iff_rank_lt hcurrent, rank, rank, Prod.Lex.toLex_lt_toLex, hnext, hgeneric]
    exact .inl rfl

/-- A design with two icons. -/
private def iconFiles : FileSystem := ⟨[
  (["design"], .directory),
  (["design", "a.svg"], .file (.text "<svg/>")),
  (["design", "b.svg"], .file (.text "<svg/>"))]⟩

private def iconRegistry : AssetRegistry := start iconFiles { projectRoot := "app" } "design"

private def icon (source className : String) : Markup.Node :=
  .element ⟨"img", ⟨[("src", source), ("className", className)]⟩⟩ []

/-- One icon is shown several times, the other with a class that says nothing. -/
private def iconRow : Markup.Node :=
  .element ⟨"div", ⟨[]⟩⟩ [icon "a.svg" "icon_home", icon "b.svg" "Frame 12",
    icon "./a.svg?v=2" "ic_bell_2", icon "a.svg" "vector"]

/-- Of `home` and `bell` the second is the smaller one. -/
theorem hint_collectHints_bell :
    iconRegistry.hints = .empty ∧
      (iconRegistry.collectHints iconFiles iconRow).hints.get? ["design", "a.svg"] = some "bell" ∧
      IsFirst (iconRegistry.NamedBy iconFiles (images iconRow) ["design", "a.svg"]) (some "bell") ∧
      IsFirst (iconRegistry.NamedBy iconFiles (images iconRow) ["design", "b.svg"]) none := by
  have hbell : (iconRegistry.collectHints iconFiles iconRow).hints.get? ["design", "a.svg"] =
      some "bell" := by decide +kernel
  have hnone : (iconRegistry.collectHints iconFiles iconRow).hints.get? ["design", "b.svg"] =
      none := by decide +kernel
  obtain ⟨hfirst, -⟩ := hint_collectHints iconRegistry rfl iconFiles iconRow
  have hfirstBell := hfirst ["design", "a.svg"]
  have hfirstNone := hfirst ["design", "b.svg"]
  rw [hbell] at hfirstBell
  rw [hnone] at hfirstNone
  exact ⟨rfl, hbell, hfirstBell, hfirstNone⟩

end AssetRegistry

end DesignCompiler.Asset
