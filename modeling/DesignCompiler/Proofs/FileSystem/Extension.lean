import DesignCompiler.FileSystem.Basic
import DesignCompiler.Proofs.Dictionary

/-!
# Growing file systems

No operation that succeeds or fails takes a directory or a file away, so a path leads later to the
place it led to before, and what stands there changes only where something is written to it.
-/

namespace DesignCompiler.FileSystem

theorem entry_put (files : FileSystem) (place query : Path) (entry : Entry) :
    FileSystem.entry? (files.put place entry) query =
      if place = query ∧ place ≠ [] then some entry else files.entry? query := by
  unfold entry? put
  by_cases hroot : query = []
  · subst hroot
    simp
  · have hlookup := Dictionary.get?_insert ⟨files.entries⟩ place query entry
    unfold Dictionary.get? Dictionary.insert at hlookup
    simp only [List.isEmpty_iff, hroot, if_false, hlookup]
    by_cases hplace : place = query
    · subst hplace
      simp [hroot]
    · simp [hplace]

theorem isDirectory_iff {files : FileSystem} {place : Path} :
    files.isDirectory place = true ↔ files.entry? place = some .directory := by
  unfold isDirectory
  split
  · simp [*]
  · rename_i hnot
    simpa using hnot

theorem readText_eq_ok_iff {files : FileSystem} {path text : String} :
    files.readText path = .ok text ↔
      ∃ place, files.openPlace path = .ok place ∧
        files.entry? place = some (.file (.text text)) := by
  unfold readText
  cases hopen : files.openPlace path with
  | error failure => simp
  | ok place =>
    dsimp only
    constructor
    · intro hread
      refine ⟨place, rfl, ?_⟩
      split at hread <;> cases hread
      assumption
    · rintro ⟨_, hplace, hentry⟩
      cases hplace
      rw [hentry]

/-! ## Places that stay -/

/-- Whatever stands in one file system stands in the other, directories as directories. -/
structure ExtendsTo (files later : FileSystem) : Prop where
  directory : ∀ place, files.entry? place = some .directory → later.entry? place = some .directory
  entry : ∀ place, files.entry? place ≠ none → later.entry? place ≠ none

namespace ExtendsTo

variable {files later : FileSystem}

/-- Anything may be put where there is no directory. -/
theorem put {place : Path} (hplace : files.entry? place ≠ some .directory) (entry : Entry) :
    files.ExtendsTo (files.put place entry) := by
  constructor
  · intro query hquery
    rw [entry_put, if_neg]
    · exact hquery
    · rintro ⟨rfl, -⟩
      exact hplace hquery
  · intro query hquery
    rw [entry_put]
    split
    · exact Option.some_ne_none entry
    · exact hquery

theorem isDirectory (hextends : files.ExtendsTo later) {place : Path}
    (hplace : files.isDirectory place = true) : later.isDirectory place = true :=
  isDirectory_iff.mpr (hextends.directory place (isDirectory_iff.mp hplace))

theorem follow (hextends : files.ExtendsTo later) {place target : Path} {names : List String}
    (hfollow : files.follow place names = .ok target) : later.follow place names = .ok target := by
  induction names generalizing place with
  | nil => exact hfollow
  | cons name rest ih =>
    unfold FileSystem.follow at hfollow ⊢
    split at hfollow
    · cases hfollow
    rename_i hdirectory
    rw [Bool.not_eq_true, Bool.not_eq_false'] at hdirectory
    rw [if_neg (by simpa using hextends.isDirectory hdirectory)]
    split at hfollow
    · cases hfollow
    rename_i hshort
    rw [if_neg hshort]
    dsimp only at hfollow ⊢
    split at hfollow
    · rename_i hnext
      obtain ⟨entry, hentry⟩ :=
        Option.ne_none_iff_exists'.mp (hextends.entry (step place name) (by simp [hnext]))
      rw [hentry]
      exact ih hfollow
    · cases hfollow

/-- A path leads to the same place later. -/
theorem openPlace (hextends : files.ExtendsTo later) {path : String} {place : Path}
    (hopen : files.openPlace path = .ok place) : later.openPlace path = .ok place := by
  unfold FileSystem.openPlace locate at hopen ⊢
  split at hopen
  · cases hopen
  rename_i hlong
  split at hopen
  · cases hopen
  rename_i hzero
  split at hopen
  · cases hopen
  rename_i hempty
  split at hopen
  · cases hopen
  rename_i target htarget
  rw [if_neg hlong, if_neg hzero, if_neg hempty, hextends.follow htarget]
  dsimp only
  split at hopen
  · cases hopen
  rename_i hdirectory
  cases hopen
  rw [if_neg]
  intro hnot
  rw [Bool.and_eq_true, Bool.not_eq_true'] at hnot
  apply hdirectory
  rw [Bool.and_eq_true, Bool.not_eq_true', ← Bool.not_eq_true]
  refine ⟨hnot.1, fun hplace => ?_⟩
  rw [hextends.isDirectory hplace] at hnot
  cases hnot.2

end ExtendsTo

/-! ## Replacing a text -/

/-- The text of a file that can be read can be replaced, and is what is read from then on. -/
theorem exists_overwrite {files : FileSystem} {path text : String}
    (hread : files.readText path = .ok text) (content : String) :
    ∃ place later, files.openPlace path = .ok place ∧
      files.entry? place = some (.file (.text text)) ∧
      later = files.put place (.file (.text content)) ∧
      files.overwrite path content = .ok later ∧ later.readText path = .ok content := by
  obtain ⟨place, hopen, hentry⟩ := readText_eq_ok_iff.mp hread
  have hroot : place ≠ [] := by
    rintro rfl
    cases hentry
  have hextends : files.ExtendsTo (files.put place (.file (.text content))) :=
    .put (by rw [hentry]; simp) _
  refine ⟨place, _, hopen, hentry, rfl, ?_, readText_eq_ok_iff.mpr ⟨place, ?_, ?_⟩⟩
  · unfold overwrite
    rw [hopen]
    dsimp only
    rw [if_neg]
    rw [isDirectory_iff, hentry]
    simp
  · exact hextends.openPlace hopen
  · rw [entry_put, if_pos ⟨rfl, hroot⟩]

end DesignCompiler.FileSystem
