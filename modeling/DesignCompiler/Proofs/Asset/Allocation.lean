import DesignCompiler.Proofs.Asset.Identifier
import DesignCompiler.Proofs.Asset.Numbering
import DesignCompiler.Proofs.Dictionary
import Mathlib.Tactic.Tauto

/-!
# Allocation of identifiers

A catalog that is asked for one path after another answers with the declared identifier of a path
or allocates a fresh one, which is pending from then on. What it answered once it answers again, and
no two new paths share an identifier.
-/

namespace DesignCompiler.Asset

open Text

/-- A path as the catalog holds it. -/
def normalPath (path : String) : String := onChars forwardSlashes path

namespace Catalog

/-- The entries that a catalog file declares, as they stand in it. -/
def declarations (source : String) : List CatalogEntry :=
  allMatches CatalogEntry.at? source.toList

/-- The first identifier that entries declare for a path. -/
def declared? (entries : List CatalogEntry) (path : String) : Option String :=
  (entries.find? fun entry => entry.path == path).map CatalogEntry.name

/-! ## Reading -/

private theorem get?_read (catalog : Catalog) (entry : CatalogEntry) (path : String) :
    (catalog.read entry).identifiers.get? path =
      (catalog.identifiers.get? path).or (if entry.path = path then some entry.name else none) := by
  unfold read
  dsimp only
  split
  · rename_i hknown
    by_cases hpath : entry.path = path
    · subst hpath
      obtain ⟨name, hname⟩ := Option.isSome_iff_exists.mp hknown
      simp [hname]
    · simp [hpath]
  · rename_i hnew
    rw [Dictionary.get?_insert]
    by_cases hpath : entry.path = path
    · subst hpath
      have hnone : catalog.identifiers.get? entry.path = none := by
        simpa [Dictionary.contains] using hnew
      simp [hnone]
    · simp [hpath]

private theorem get?_foldl_read (entries : List CatalogEntry) (catalog : Catalog) (path : String) :
    (entries.foldl read catalog).identifiers.get? path =
      (catalog.identifiers.get? path).or (declared? entries path) := by
  induction entries generalizing catalog with
  | nil => simp [declared?]
  | cons entry entries ih =>
    rw [List.foldl_cons, ih, get?_read, Option.or_assoc]
    unfold declared?
    by_cases hpath : entry.path = path <;> simp [hpath]

/-- A catalog file gives each path the identifier of its first declaration. -/
theorem get?_ofSource (source path : String) :
    (ofSource source).identifiers.get? path = declared? (declarations source) path := by
  rw [ofSource, get?_foldl_read]
  rfl

theorem mem_names_ofSource {source name : String} :
    name ∈ (ofSource source).names ↔ ∃ entry ∈ declarations source, entry.name = name := by
  have hfold : ∀ (entries : List CatalogEntry) (catalog : Catalog),
      name ∈ (entries.foldl read catalog).names ↔
        name ∈ catalog.names ∨ ∃ entry ∈ entries, entry.name = name := by
    intro entries
    induction entries with
    | nil => simp
    | cons entry entries ih =>
      intro catalog
      have hread :
          name ∈ (catalog.read entry).names ↔ entry.name = name ∨ name ∈ catalog.names := by
        rw [show (catalog.read entry).names = entry.name :: catalog.names from rfl, List.mem_cons,
          eq_comm]
      rw [List.foldl_cons, ih, hread, List.exists_mem_cons_iff]
      tauto
  rw [ofSource, hfold]
  simp [empty, declarations]

theorem pending_ofSource (source : String) : (ofSource source).pending = .empty := by
  have hfold : ∀ (entries : List CatalogEntry) (catalog : Catalog),
      (entries.foldl read catalog).pending = catalog.pending := by
    intro entries
    induction entries with
    | nil => exact fun _ => rfl
    | cons entry entries ih => exact fun catalog => ih (catalog.read entry)
  exact hfold _ _

/-! ## One call -/

/-- The catalog with a new identifier for a path. -/
def allocate (catalog : Catalog) (path name : String) : Catalog where
  identifiers := catalog.identifiers.insert path name
  names := name :: catalog.names
  pending := catalog.pending.insert path name

theorem resolve_of_known {catalog : Catalog} {path name : String}
    (hname : catalog.identifiers.get? (normalPath path) = some name) :
    catalog.resolve path = (name, catalog) := by
  unfold normalPath at hname
  simp only [resolve, hname]

theorem resolve_of_new {catalog : Catalog} {path : String}
    (hnew : catalog.identifiers.get? (normalPath path) = none) :
    ∃ name, IsFresh catalog.names (constantName (normalPath path)) name ∧
      catalog.resolve path = (name, catalog.allocate (normalPath path) name) := by
  refine ⟨_, isFresh_freshName catalog.names (constantName (normalPath path)), ?_⟩
  unfold normalPath at hnew
  simp only [resolve, hnew]
  rfl

theorem isIdentifier_of_isFresh {taken : List String} {path name : String}
    (hname : IsFresh taken (constantName path) name) : IsIdentifier name := by
  cases hname with
  | unused _ => exact isIdentifier_constantName path
  | numbered _ _ =>
    apply (isIdentifier_constantName path).append
    intro c hc
    rw [Nat.toString_eq_ofList_toDigits, String.toList_ofList] at hc
    have hdigit := Nat.isDigit_of_mem_toDigits (by decide) (by decide) hc
    apply isIdentifierChar_of_isTokenChar
    rw [isTokenChar, Bool.or_eq_true]
    exact .inr hdigit

/-- The answer to a call is what the catalog holds afterwards. -/
theorem get?_resolve_self (catalog : Catalog) (path : String) :
    (catalog.resolve path).2.identifiers.get? (normalPath path) =
      some (catalog.resolve path).1 := by
  cases hget : catalog.identifiers.get? (normalPath path) with
  | some name => rw [resolve_of_known hget, hget]
  | none =>
    obtain ⟨name, -, heq⟩ := resolve_of_new hget
    rw [heq, allocate, Dictionary.get?_insert, if_pos rfl]

/-- A call takes no identifier away. -/
theorem get?_resolve_of_some {catalog : Catalog} {known name : String} (path : String)
    (hknown : catalog.identifiers.get? known = some name) :
    (catalog.resolve path).2.identifiers.get? known = some name := by
  cases hget : catalog.identifiers.get? (normalPath path) with
  | some other => rw [resolve_of_known hget]; exact hknown
  | none =>
    obtain ⟨other, -, heq⟩ := resolve_of_new hget
    rw [heq]
    exact Dictionary.get?_insert_of_new other hget hknown

/-- A call leaves nothing pending but what was and its own path. -/
theorem pending_resolve {catalog : Catalog} {path known name : String}
    (hpending : (catalog.resolve path).2.pending.get? known = some name) :
    catalog.pending.get? known = some name ∨ normalPath path = known := by
  cases hget : catalog.identifiers.get? (normalPath path) with
  | some other =>
    rw [resolve_of_known hget] at hpending
    exact .inl hpending
  | none =>
    obtain ⟨other, -, heq⟩ := resolve_of_new hget
    rw [heq, allocate, Dictionary.get?_insert] at hpending
    split at hpending
    · exact .inr ‹_›
    · exact .inl hpending

/-! ## What calls preserve -/

/-- A catalog that has grown out of another one by calls: what was known is known, and what was
    allocated since is pending, each new path under a fresh identifier of its own. -/
structure GrownFrom (start current : Catalog) : Prop where
  keeps : ∀ path name, start.identifiers.get? path = some name →
    current.identifiers.get? path = some name
  pending_iff : ∀ path name, current.pending.get? path = some name ↔
    start.identifiers.get? path = none ∧ current.identifiers.get? path = some name
  names_subset : start.names ⊆ current.names
  mem_names : ∀ path name, current.pending.get? path = some name → name ∈ current.names
  fresh : ∀ path name, current.pending.get? path = some name → name ∉ start.names
  isIdentifier : ∀ path name, current.pending.get? path = some name → IsIdentifier name
  injective : ∀ path other name, current.pending.get? path = some name →
    current.pending.get? other = some name → path = other
  not_backslash : ∀ path name, current.pending.get? path = some name → '\\' ∉ path.toList
  nodup : current.pending.keys.Nodup

theorem GrownFrom.refl {start : Catalog} (hpending : start.pending = .empty) :
    start.GrownFrom start := by
  have hnone : ∀ path name, start.pending.get? path ≠ some name := by simp [hpending]
  refine ⟨fun _ _ h => h, fun path name => ?_, fun _ h => h, ?_, ?_, ?_, ?_, ?_, ?_⟩
  · simp only [hnone, false_iff, not_and]
    intro hget
    simp [hget]
  · exact fun path name h => absurd h (hnone path name)
  · exact fun path name h => absurd h (hnone path name)
  · exact fun path name h => absurd h (hnone path name)
  · exact fun path _ name h => absurd h (hnone path name)
  · exact fun path name h => absurd h (hnone path name)
  · simp [hpending, Dictionary.keys, Dictionary.empty]

private theorem not_mem_normalPath (path : String) : '\\' ∉ (normalPath path).toList := by
  unfold normalPath onChars forwardSlashes replaceChar
  rw [String.toList_ofList, List.mem_flatMap]
  rintro ⟨c, -, hc⟩
  split at hc
  · simp at hc
  · rename_i hne
    obtain rfl := List.mem_singleton.mp hc
    simp at hne

private theorem GrownFrom.allocate {start current : Catalog} {path name : String}
    (hgrown : start.GrownFrom current) (hnew : current.identifiers.get? path = none)
    (hfresh : name ∉ current.names) (hname : IsIdentifier name) (hpath : '\\' ∉ path.toList) :
    start.GrownFrom (current.allocate path name) := by
  have hstart : start.identifiers.get? path = none := by
    cases hget : start.identifiers.get? path with
    | none => rfl
    | some known =>
      rw [hgrown.keeps path known hget] at hnew
      cases hnew
  have hpending : ∀ query found, (current.allocate path name).pending.get? query = some found ↔
      (query = path ∧ found = name) ∨ (query ≠ path ∧ current.pending.get? query = some found) := by
    intro query found
    rw [Catalog.allocate, Dictionary.get?_insert]
    by_cases hquery : path = query
    · subst hquery
      simp [eq_comm]
    · simp [hquery, Ne.symm hquery]
  refine ⟨?_, ?_, ?_, ?_, ?_, ?_, ?_, ?_, ?_⟩
  · intro query found hquery
    exact Dictionary.get?_insert_of_new name hnew (hgrown.keeps query found hquery)
  · intro query found
    rw [hpending, hgrown.pending_iff, Catalog.allocate, Dictionary.get?_insert]
    by_cases hquery : path = query
    · subst hquery
      simp [hstart, eq_comm]
    · simp [hquery, Ne.symm hquery]
  · exact fun other hother => List.mem_cons_of_mem name (hgrown.names_subset hother)
  · intro query found hfound
    obtain ⟨-, rfl⟩ | ⟨-, hold⟩ := (hpending query found).mp hfound
    · exact List.mem_cons_self
    · exact List.mem_cons_of_mem name (hgrown.mem_names query found hold)
  · intro query found hfound
    obtain ⟨-, rfl⟩ | ⟨-, hold⟩ := (hpending query found).mp hfound
    · exact fun hmem => hfresh (hgrown.names_subset hmem)
    · exact hgrown.fresh query found hold
  · intro query found hfound
    obtain ⟨-, rfl⟩ | ⟨-, hold⟩ := (hpending query found).mp hfound
    · exact hname
    · exact hgrown.isIdentifier query found hold
  · intro query other found hquery hother
    obtain ⟨rfl, rfl⟩ | ⟨-, hold⟩ := (hpending query found).mp hquery
    · obtain ⟨rfl, -⟩ | ⟨-, hold⟩ := (hpending other found).mp hother
      · rfl
      · exact absurd (hgrown.mem_names other found hold) hfresh
    · obtain ⟨rfl, rfl⟩ | ⟨-, hold'⟩ := (hpending other found).mp hother
      · exact absurd (hgrown.mem_names query found hold) hfresh
      · exact hgrown.injective query other found hold hold'
  · intro query found hfound
    obtain ⟨rfl, -⟩ | ⟨-, hold⟩ := (hpending query found).mp hfound
    · exact hpath
    · exact hgrown.not_backslash query found hold
  · exact Dictionary.nodup_keys_insert hgrown.nodup path name

/-- A call preserves it. -/
theorem GrownFrom.resolve {start current : Catalog} (hgrown : start.GrownFrom current)
    (path : String) : start.GrownFrom (current.resolve path).2 := by
  cases hget : current.identifiers.get? (normalPath path) with
  | some name => rw [resolve_of_known hget]; exact hgrown
  | none =>
    obtain ⟨name, hfresh, heq⟩ := resolve_of_new hget
    rw [heq]
    exact hgrown.allocate hget hfresh.not_mem (isIdentifier_of_isFresh hfresh)
      (not_mem_normalPath path)

/-! ## Runs -/

/-- Calls for one path after another: each path with the answer to it, and the catalog after the
    last call. -/
def resolveAll (catalog : Catalog) : List String → List (String × String) × Catalog
  | [] => ([], catalog)
  | path :: rest =>
    let (name, next) := catalog.resolve path
    let (answers, last) := next.resolveAll rest
    ((path, name) :: answers, last)

theorem get?_resolveAll_of_some {catalog : Catalog} {known name : String} (paths : List String)
    (hknown : catalog.identifiers.get? known = some name) :
    (catalog.resolveAll paths).2.identifiers.get? known = some name := by
  induction paths generalizing catalog with
  | nil => exact hknown
  | cons path paths ih => exact ih (get?_resolve_of_some path hknown)

/-- Every answer of a run is what the catalog holds after it. -/
theorem get?_resolveAll_of_mem {catalog : Catalog} {paths : List String} {path name : String}
    (hanswer : (path, name) ∈ (catalog.resolveAll paths).1) :
    (catalog.resolveAll paths).2.identifiers.get? (normalPath path) = some name := by
  induction paths generalizing catalog with
  | nil => cases hanswer
  | cons first paths ih =>
    obtain heq | hrest := List.mem_cons.mp hanswer
    · obtain ⟨rfl, rfl⟩ := Prod.mk.inj heq
      exact get?_resolveAll_of_some paths (get?_resolve_self catalog path)
    · exact ih hrest

/-- What the catalog holds after a run it held before, or it was the answer to a call. -/
theorem exists_mem_of_get?_resolveAll {catalog : Catalog} {paths : List String}
    {known name : String}
    (hlast : (catalog.resolveAll paths).2.identifiers.get? known = some name) :
    catalog.identifiers.get? known = some name ∨
      ∃ path, (path, name) ∈ (catalog.resolveAll paths).1 ∧ normalPath path = known := by
  induction paths generalizing catalog with
  | nil => exact .inl hlast
  | cons first paths ih =>
    obtain hnext | ⟨path, hmem, hpath⟩ := @ih (catalog.resolve first).2 hlast
    · cases hget : catalog.identifiers.get? (normalPath first) with
      | some other => rw [resolve_of_known hget] at hnext; exact .inl hnext
      | none =>
        obtain ⟨other, -, heq⟩ := resolve_of_new hget
        rw [heq, allocate, Dictionary.get?_insert] at hnext
        split at hnext
        · rename_i hfirst
          obtain rfl := Option.some.inj hnext
          refine .inr ⟨first, ?_, hfirst⟩
          simp [resolveAll, heq]
        · exact .inl hnext
    · exact .inr ⟨path, List.mem_cons_of_mem _ hmem, hpath⟩

theorem GrownFrom.resolveAll {start current : Catalog} (hgrown : start.GrownFrom current)
    (paths : List String) : start.GrownFrom (current.resolveAll paths).2 := by
  induction paths generalizing current with
  | nil => exact hgrown
  | cons path paths ih => exact ih (hgrown.resolve path)

/-- What the answers of a run and the pending entries after it have to do with the catalog file. -/
structure AnswersFor (source : String) (answers : List (String × String)) (last : Catalog) :
    Prop where
  same : ∀ path other name name', (path, name) ∈ answers → (other, name') ∈ answers →
    normalPath path = normalPath other → name = name'
  declared : ∀ path name declaredName, (path, name) ∈ answers →
    declared? (declarations source) (normalPath path) = some declaredName → name = declaredName
  distinct : ∀ path other name name', (path, name) ∈ answers → (other, name') ∈ answers →
    declared? (declarations source) (normalPath path) = none →
    declared? (declarations source) (normalPath other) = none →
    normalPath path ≠ normalPath other → name ≠ name'
  undeclared : ∀ path name, (path, name) ∈ answers →
    declared? (declarations source) (normalPath path) = none →
    IsIdentifier name ∧ ∀ entry ∈ declarations source, entry.name ≠ name
  pending : ∀ path name, (path, name) ∈ last.pendingByPath ↔
    declared? (declarations source) path = none ∧
      ∃ asked, (asked, name) ∈ answers ∧ normalPath asked = path
  nodup : (last.pendingByPath.map Prod.fst).Nodup

/-- Over every run of calls on the catalog of a file, answers are stable, agree with the file where
    it declares the path and are new identifiers otherwise; exactly these are pending, and on each
    call for a new path the search for an identifier comes to an end. -/
theorem answersFor_resolveAll (source : String) (paths : List String) :
    AnswersFor source ((ofSource source).resolveAll paths).1
        ((ofSource source).resolveAll paths).2 ∧
      ∀ before path after, paths = before ++ path :: after →
        let catalog := ((ofSource source).resolveAll before).2
        catalog.identifiers.get? (normalPath path) = none →
          IsFresh catalog.names (constantName (normalPath path)) (catalog.resolve path).1 := by
  have hgrown : (ofSource source).GrownFrom ((ofSource source).resolveAll paths).2 :=
    (GrownFrom.refl (pending_ofSource source)).resolveAll paths
  have hlast : ∀ path name, (path, name) ∈ ((ofSource source).resolveAll paths).1 →
      ((ofSource source).resolveAll paths).2.identifiers.get? (normalPath path) = some name :=
    fun _ _ h => get?_resolveAll_of_mem h
  have hpending : ∀ path name, (path, name) ∈ ((ofSource source).resolveAll paths).1 →
      declared? (declarations source) (normalPath path) = none →
      ((ofSource source).resolveAll paths).2.pending.get? (normalPath path) = some name := by
    intro path name hanswer hnone
    rw [hgrown.pending_iff, get?_ofSource]
    exact ⟨hnone, hlast path name hanswer⟩
  refine ⟨⟨?_, ?_, ?_, ?_, ?_, ?_⟩, ?_⟩
  · intro path other name name' hname hname' heq
    have hget := hlast path name hname
    rw [heq, hlast other name' hname'] at hget
    exact (Option.some.inj hget).symm
  · intro path name declaredName hname hdeclared
    rw [← get?_ofSource] at hdeclared
    have hget := hgrown.keeps _ _ hdeclared
    rw [hlast path name hname] at hget
    exact Option.some.inj hget
  · intro path other name name' hname hname' hpath hother hne heq
    subst heq
    exact hne (hgrown.injective _ _ _ (hpending path name hname hpath)
      (hpending other name hname' hother))
  · intro path name hname hnone
    have hnew := hpending path name hname hnone
    refine ⟨hgrown.isIdentifier _ _ hnew, fun entry hentry heq => ?_⟩
    exact hgrown.fresh _ _ hnew (mem_names_ofSource.mpr ⟨entry, hentry, heq⟩)
  · intro path name
    rw [pendingByPath, List.mem_mergeSort, Dictionary.mem_entries_iff hgrown.nodup,
      hgrown.pending_iff, get?_ofSource]
    constructor
    · rintro ⟨hnone, hget⟩
      obtain hstart | hasked := exists_mem_of_get?_resolveAll hget
      · rw [get?_ofSource, hnone] at hstart
        cases hstart
      · exact ⟨hnone, hasked⟩
    · rintro ⟨hnone, asked, hmem, rfl⟩
      exact ⟨hnone, hlast asked name hmem⟩
  · have hperm := List.mergeSort_perm ((ofSource source).resolveAll paths).2.pending.entries
      (fun a b => decide (a.1 ≤ b.1))
    exact (hperm.map Prod.fst).nodup_iff.mpr hgrown.nodup
  · intro before path after _ catalog hnew
    obtain ⟨name, hfresh, heq⟩ := resolve_of_new hnew
    rw [heq]
    exact hfresh

/-- A declared path is known with either slash, and a new path gets one identifier, whichever
    slashes it is asked for with. Another path of the same base gets the next number. -/
theorem answersFor_resolveAll_slashes :
    let source := "class AppAssets \x7b\n  static const String logo = 'assets\\logo.svg';\n\x7d\n"
    let answers := [("assets/logo.svg", "logo"), ("assets\\logo.svg", "logo"),
      ("assets/icons/new.svg", "iconsNewSvg"), ("assets\\icons\\new.svg", "iconsNewSvg"),
      ("assets/icons.new.svg", "iconsNewSvg2")]
    let run := (ofSource source).resolveAll (answers.map Prod.fst)
    ((declarations source).map fun entry => (entry.name, entry.path)) =
        [("logo", "assets/logo.svg")] ∧
      (run.1, run.2.pending.entries) = (answers,
        [("assets/icons/new.svg", "iconsNewSvg"), ("assets/icons.new.svg", "iconsNewSvg2")]) ∧
      AnswersFor source answers run.2 := by
  intro source answers run
  have hrun : (run.1, run.2.pending.entries) = (answers,
      [("assets/icons/new.svg", "iconsNewSvg"), ("assets/icons.new.svg", "iconsNewSvg2")]) := by
    decide +kernel
  refine ⟨by decide +kernel, hrun, ?_⟩
  rw [← (Prod.mk.inj hrun).1]
  exact (answersFor_resolveAll source (answers.map Prod.fst)).1

end Catalog

end DesignCompiler.Asset
