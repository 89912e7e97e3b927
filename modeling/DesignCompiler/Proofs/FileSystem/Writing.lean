import DesignCompiler.Proofs.FileSystem.Confinement

/-!
# Writing through directories

A copy succeeds if the directories on its way can be made, no directory stands in its place and its
path is not too long. Other copies through the same directories leave it that: they make directories
on the way and write files elsewhere.
-/

namespace DesignCompiler.FileSystem

/-! ## Ways -/

/-- A directory stands at a place, or one can be made there. -/
def Passable (files : FileSystem) (place : Path) : Prop :=
  files.entry? place = some .directory ∨ files.entry? place = none ∧ IsShort place

/-- Directories stay passable, and so do the places where one can be made and no file is written. -/
theorem Passable.later {files later : FileSystem} {written made : Path → Prop} {place : Path}
    (hpassable : files.Passable place) (hchanges : files.Changes written made later)
    (hwritten : ¬ written place) : later.Passable place := by
  obtain hentry | ⟨hentry, hshort⟩ := hpassable
  · exact .inl (hchanges.directory hentry)
  · have hplace := hchanges place
    rw [hentry] at hplace
    unfold Passable
    generalize later.entry? place = after at hplace ⊢
    cases hplace with
    | same => exact .inr ⟨rfl, hshort⟩
    | written _ hplace => exact absurd hplace hwritten
    | made => exact .inl rfl

theorem OnTheWay.of_isPrefix {start place : Path} {front names : List String}
    (hplace : OnTheWay start front place) (hfront : front <+: names) :
    OnTheWay start names place := by
  obtain ⟨way, hway, rfl⟩ := hplace
  exact ⟨way, hway.trans hfront, rfl⟩

/-- A directory that was made may stand there before. -/
theorem passable_put_directory {files : FileSystem} {made place : Path}
    (hentry : files.entry? made = none) (hshort : IsShort made) :
    Passable (files.put made .directory) place ↔ files.Passable place := by
  unfold Passable
  rw [entry_put]
  split
  · rename_i hplace
    obtain ⟨rfl, -⟩ := hplace
    exact iff_of_true (.inl rfl) (.inr ⟨hentry, hshort⟩)
  · rfl

theorem Reached.passable {files : FileSystem} {place : Path} (hreached : files.Reached place) :
    files.Passable place := .inl (hreached place List.prefix_rfl)

/-- Directories can be made if all places on the way are passable. -/
theorem makeDirectories_ok_iff {files : FileSystem} {start : Path} (hstart : files.Reached start)
    (names : List String) :
    (∃ last, (files.makeDirectories start names).2 = .ok last) ↔
      ∀ place, OnTheWay start names place → files.Passable place := by
  induction names generalizing files start with
  | nil =>
    refine iff_of_true ⟨start, rfl⟩ ?_
    rintro _ ⟨way, hway, rfl⟩
    rw [List.prefix_nil.mp hway]
    exact hstart.passable
  | cons name rest ih =>
    simp only [onTheWay_cons_iff, forall_eq_or_imp, and_iff_right hstart.passable]
    unfold makeDirectories
    dsimp only
    split
    · rename_i hentry
      exact ih (hstart.step hentry)
    · rename_i content hentry
      refine iff_of_false (by simp) fun hall => ?_
      have hnext := hall _ (onTheWay_start _ rest)
      simp [Passable, hentry] at hnext
    · rename_i hentry
      have hshort := hstart.isShort_step_iff hentry
      split
      · rename_i hlong
        refine iff_of_false (by simp) fun hall => ?_
        have hnext := hall _ (onTheWay_start _ rest)
        simp [Passable, hentry, hshort, hlong] at hnext
      · rename_i hname
        rw [Bool.not_eq_true] at hname
        simp only [ih (hstart.put_step hentry hname).2,
          passable_put_directory hentry (hshort.mpr hname)]

/-! ## Paths that can be written -/

/-- A file can be written by a path: no name in it is too long, and any file could be copied to
    it. -/
structure IsWritable (files : FileSystem) (path : String) : Prop where
  short : ∀ name ∈ names path, isLongName name = false
  copied : ∀ source content, files.entry? source = some (.file content) →
    ∃ place, (files.copy source path).2 = .ok place

/-- A file is copied if the path is one, the way to it is passable and the target is free. -/
structure CanCopy (files : FileSystem) (path : String) : Prop where
  no_zero : path.toList.contains (Char.ofNat 0) = false
  short_parent : isLongPath (parentPath path) = false
  passable : ∀ place, OnTheWay [] (names path).dropLast place → files.Passable place
  target : files.entry? (copyTarget path) ≠ some .directory
  not_above : ¬ OnTheWay [] (names path).dropLast (copyTarget path)
  short : (isLongPath path || (names path).getLast?.toList.any isLongName) = false

theorem exists_makeDirectories {files : FileSystem} {path : String} {directory : Path}
    (hmade : (files.makeDirectories [] (names path).dropLast).2 = .ok directory) :
    files.makeDirectories [] (names path).dropLast =
      (files.withWay path, .ok ((names path).dropLast.foldl step [])) := by
  rw [← eq_foldl_of_makeDirectories hmade, ← hmade]
  rfl

/-- A copy of a file writes the target, once the directories on the way stand. -/
theorem CanCopy.copy_eq {files : FileSystem} {path : String} (hcan : files.CanCopy path)
    {source : Path} {content : Content} (hsource : files.entry? source = some (.file content)) :
    files.copy source path =
      ((files.withWay path).put (copyTarget path)
        (.file (copiedContent source (copyTarget path) content)), .ok (copyTarget path)) := by
  have hway := files.changes_withWay path
  obtain ⟨directory, hmade⟩ := (makeDirectories_ok_iff (reached_nil files) _).mpr hcan.passable
  have hheld := hway.entry?_eq_of_file hsource (fun h => h)
  have hfree : FileSystem.entry? (files.withWay path) (copyTarget path) ≠ some .directory := by
    rw [hway.entry?_eq (fun h => h) hcan.not_above]
    exact hcan.target
  unfold copy
  rw [if_neg (by rw [hcan.no_zero]; simp), if_neg (by rw [hcan.short_parent]; simp),
    exists_makeDirectories hmade]
  dsimp only
  rw [← copyTarget, hheld]
  rcases hentry : FileSystem.entry? (files.withWay path) (copyTarget path) with _ | _ | _
  · exact if_neg (by rw [hcan.short]; simp)
  · exact absurd hentry hfree
  · exact if_neg (by rw [hcan.short]; simp)

/-- A file is copied to a path exactly if that is one, the way to it is passable and its target is
    free. -/
theorem copy_ok_iff {files : FileSystem} {source : Path} {content : Content}
    (hsource : files.entry? source = some (.file content)) (path : String) :
    (∃ place, (files.copy source path).2 = .ok place) ↔ files.CanCopy path := by
  have hway := files.changes_withWay path
  have hheld := hway.entry?_eq_of_file hsource (fun h => h)
  constructor
  · rintro ⟨place, hok⟩
    unfold copy at hok
    split at hok
    · cases hok
    rename_i hzero
    split at hok
    · cases hok
    rename_i hparent
    cases hmade : (files.makeDirectories [] (names path).dropLast).2 with
    | error failure =>
      have heq : files.makeDirectories [] (names path).dropLast =
        (files.withWay path, .error failure) := Prod.ext rfl hmade
      rw [heq] at hok
      cases hok
    | ok directory =>
      have hstands := fun place (hplace : OnTheWay [] (names path).dropLast place) =>
        directory_of_makeDirectories (reached_nil files) ⟨directory, hmade⟩ hplace
      rw [exists_makeDirectories hmade] at hok
      dsimp only at hok
      rw [← copyTarget, hheld] at hok
      have hnot : FileSystem.entry? (files.withWay path) (copyTarget path) ≠ some .directory := by
        intro hdirectory
        rw [hdirectory] at hok
        cases hok
      refine ⟨by simpa using hzero, by simpa using hparent,
        (makeDirectories_ok_iff (reached_nil files) _).mp ⟨directory, hmade⟩,
        fun hdirectory => hnot (hway.directory hdirectory),
        fun habove => hnot (hstands _ habove), ?_⟩
      rw [← Bool.not_eq_true]
      intro hlong
      split at hok <;> simp_all
  · intro hcan
    exact ⟨copyTarget path, by rw [hcan.copy_eq hsource]⟩

/-- What one file could be copied to, any other one can. -/
theorem IsWritable.of_copy {files : FileSystem} {path : String} {source : Path} {content : Content}
    (hshort : ∀ name ∈ names path, isLongName name = false)
    (hsource : files.entry? source = some (.file content))
    (hcopied : ∃ place, (files.copy source path).2 = .ok place) : files.IsWritable path :=
  ⟨hshort, fun _ _ hother => (copy_ok_iff hother path).mpr ((copy_ok_iff hsource path).mp hcopied)⟩

/-! ## Other copies -/

/-- A copy goes the way of a path: to the same directory, or a part of the way if there is no file
    to copy. -/
structure GoesAlong (files : FileSystem) (path : String) (copy : Path × String) : Prop where
  isPrefix : (names copy.2).dropLast <+: (names path).dropLast
  same : (names copy.2).dropLast = (names path).dropLast ∨ files.entry? copy.1 = some .directory

theorem GoesAlong.later {files later : FileSystem} {path : String} {copy : Path × String}
    (halong : files.GoesAlong path copy) (hextends : files.ExtendsTo later) :
    later.GoesAlong path copy :=
  ⟨halong.isPrefix, halong.same.imp_right (hextends.directory _)⟩

/-- After a copy that goes its way a path can be copied to as before. -/
theorem CanCopy.copy {files : FileSystem} {path : String} (hcan : files.CanCopy path)
    {copy : Path × String} (halong : files.GoesAlong path copy) :
    CanCopy (files.copy copy.1 copy.2).1 path := by
  have hchanges := files.changes_copy_writes copy
  refine ⟨hcan.no_zero, hcan.short_parent, fun place hplace => ?_, ?_, hcan.not_above, hcan.short⟩
  · refine (hcan.passable place hplace).later hchanges fun hwrites => ?_
    obtain hsame | hdirectory := halong.same
    · exact hwrites.not_above (hsame ▸ hplace)
    · obtain ⟨content, hfile⟩ := hwrites.exists_content
      rw [hdirectory] at hfile
      cases hfile
  · exact hchanges.ne_directory hcan.target fun habove =>
      hcan.not_above (habove.of_isPrefix halong.isPrefix)

theorem CanCopy.copyAll {files : FileSystem} {path : String} (hcan : files.CanCopy path)
    {copies : List (Path × String)} (halong : ∀ copy ∈ copies, files.GoesAlong path copy) :
    CanCopy (files.copyAll copies) path := by
  induction copies generalizing files with
  | nil => exact hcan
  | cons copy copies ih =>
    rw [List.forall_mem_cons] at halong
    refine ih (hcan.copy halong.1) fun other hother => (halong.2 other hother).later ?_
    exact (files.changes_copy copy.1 copy.2).extendsTo

/-- A file keeps its content if it is the target of no copy but those of directories. -/
theorem entry?_copyAll_of_file {files : FileSystem} {copies : List (Path × String)} {place : Path}
    {content : Content} (hentry : files.entry? place = some (.file content))
    (hspared : ∀ copy ∈ copies,
      copyTarget copy.2 ≠ place ∨ files.entry? copy.1 = some .directory) :
    FileSystem.entry? (files.copyAll copies) place = some (.file content) := by
  induction copies generalizing files with
  | nil => exact hentry
  | cons copy copies ih =>
    have hchanges := files.changes_copy_writes copy
    rw [List.forall_mem_cons] at hspared
    refine ih (hchanges.entry?_eq_of_file hentry fun hwrites => ?_) fun other hother =>
      (hspared.2 other hother).imp_right (hchanges.directory ·)
    obtain hne | hdirectory := hspared.1
    · exact hne hwrites.eq_target.symm
    · obtain ⟨held, hfile⟩ := hwrites.exists_content
      rw [hdirectory] at hfile
      cases hfile

/-! ## What a path leads to -/

/-- Names that are not too long lead through directories. -/
theorem follow_of_directories {files : FileSystem} {start : Path} {names : List String}
    (hway : ∀ place, OnTheWay start names place → files.entry? place = some .directory)
    (hshort : ∀ name ∈ names, isLongName name = false) :
    files.follow start names = .ok (names.foldl step start) := by
  induction names generalizing start with
  | nil => rfl
  | cons name rest ih =>
    rw [List.forall_mem_cons] at hshort
    have hstart := isDirectory_iff.mpr (hway _ (onTheWay_start start _))
    have hnext : files.entry? (step start name) = some .directory :=
      hway _ (onTheWay_start _ rest).cons
    rw [follow, hstart, hshort.1]
    dsimp only
    rw [hnext]
    exact ih (fun place hplace => hway place hplace.cons) hshort.2

/-- A path to a file in a directory: its last name is that of the file. -/
structure IsFilePath (path : String) : Prop where
  ne_nil : names path ≠ []
  ne_up : (names path).getLast? ≠ some ".."
  not_directory : requiresDirectory path = false

/-- A file in directories is opened by its path. -/
theorem openPlace_of_directories {files : FileSystem} {path : String} (hpath : IsFilePath path)
    (hzero : path.toList.contains (Char.ofNat 0) = false) (hlong : isLongPath path = false)
    (hshort : ∀ name ∈ names path, isLongName name = false)
    (hway : ∀ place, OnTheWay [] (names path).dropLast place →
      files.entry? place = some .directory)
    (hfile : files.entry? (copyTarget path) ≠ none) :
    files.openPlace path = .ok (copyTarget path) := by
  obtain ⟨directory, name, hnames⟩ : ∃ directory name, names path = directory ++ [name] :=
    ⟨_, _, (List.dropLast_append_getLast hpath.ne_nil).symm⟩
  have hup : name ≠ ".." := by
    have := hpath.ne_up
    rwa [hnames, List.getLast?_concat, ne_eq, Option.some.injEq] at this
  rw [hnames, List.forall_mem_append] at hshort
  unfold copyTarget at hfile ⊢
  rw [hnames, List.dropLast_concat] at hway hfile ⊢
  rw [List.getLast?_concat, Option.toList_some] at hfile ⊢
  rw [openPlace, hlong, if_neg (by simp), locate_eq_ok_iff]
  refine ⟨hzero, ?_, ?_, fun hdirectory => ?_⟩
  · rintro rfl
    exact hpath.ne_nil names_empty
  · obtain ⟨entry, hentry⟩ := Option.ne_none_iff_exists'.mp hfile
    have hstep : step (directory.foldl step []) name = directory.foldl step [] ++ [name] :=
      if_neg (by simpa using hup)
    rw [hnames, follow_append, follow_of_directories hway hshort.1]
    dsimp only
    rw [follow, isDirectory_iff.mpr (hway _ ⟨directory, List.prefix_rfl, rfl⟩),
      hshort.2 name (List.mem_singleton.mpr rfl), hstep]
    dsimp only
    rw [hentry]
    rfl
  · rw [hpath.not_directory] at hdirectory
    cases hdirectory

/-! ## Deliveries -/

/-- After a copy the target holds what the source does, and directories lead to it. -/
theorem CanCopy.stands {files : FileSystem} {path : String} (hcan : files.CanCopy path)
    {source : Path} {content : Content} (hsource : files.entry? source = some (.file content))
    (hne : source ≠ copyTarget path) :
    FileSystem.entry? (files.copy source path).1 (copyTarget path) = some (.file content) ∧
      ∀ place, OnTheWay [] (names path).dropLast place →
        FileSystem.entry? (files.copy source path).1 place = some .directory := by
  have hmade := (makeDirectories_ok_iff (reached_nil files) _).mpr hcan.passable
  have hfree : FileSystem.entry? (files.withWay path) (copyTarget path) ≠ some .directory :=
    (files.changes_withWay path).ne_directory hcan.target hcan.not_above
  have hroot : copyTarget path ≠ [] := fun hroot => hcan.target (by rw [hroot]; rfl)
  rw [hcan.copy_eq hsource, copiedContent, if_neg hne]
  refine ⟨by rw [entry_put, if_pos ⟨rfl, hroot⟩], fun place hplace => ?_⟩
  exact (ExtendsTo.put hfree _).directory _
    (directory_of_makeDirectories (reached_nil files) hmade hplace)

/-- Among copies, one of a file is delivered: its path leads to a file with the content of the
    source, if no file is copied to the source, those before go its way and none after has its
    target. -/
theorem delivers_copyAll {files : FileSystem} {before after : List (Path × String)} {source : Path}
    {path : String} {content : Content} (hpath : IsFilePath path)
    (hwritable : files.IsWritable path) (hsource : files.entry? source = some (.file content))
    (hspared : ∀ copy ∈ before ++ (source, path) :: after,
      copyTarget copy.2 ≠ source ∨ files.entry? copy.1 = some .directory)
    (hbefore : ∀ copy ∈ before, files.GoesAlong path copy)
    (hafter : ∀ copy ∈ after,
      copyTarget copy.2 ≠ copyTarget path ∨ files.entry? copy.1 = some .directory) :
    FileSystem.openPlace (files.copyAll (before ++ (source, path) :: after)) path =
        .ok (copyTarget path) ∧
      FileSystem.entry? (files.copyAll (before ++ (source, path) :: after)) (copyTarget path) =
        some (.file content) := by
  rw [List.forall_mem_append, List.forall_mem_cons] at hspared
  have hne : source ≠ copyTarget path := by
    obtain hne | hdirectory := hspared.2.1
    · exact hne.symm
    · rw [hsource] at hdirectory
      cases hdirectory
  have hfirst := files.changes_copyAll before
  have hcan :=
    ((copy_ok_iff hsource path).mp (hwritable.copied source content hsource)).copyAll hbefore
  obtain ⟨hfile, hway⟩ := hcan.stands (entry?_copyAll_of_file hsource hspared.1) hne
  have hcopied := changes_copy (files.copyAll before) source path
  have hsplit : files.copyAll (before ++ (source, path) :: after) =
      copyAll ((files.copyAll before).copy source path).1 after := List.foldl_append
  rw [hsplit]
  have hdelivered : FileSystem.entry? (copyAll ((files.copyAll before).copy source path).1 after)
      (copyTarget path) = some (.file content) :=
    entry?_copyAll_of_file hfile fun copy hcopy => (hafter copy hcopy).imp_right fun hdirectory =>
      hcopied.directory (hfirst.directory hdirectory)
  refine ⟨openPlace_of_directories hpath hcan.no_zero ?_ hwritable.short
    (fun place hplace => ?_) ?_, hdelivered⟩
  · exact (Bool.or_eq_false_iff.mp hcan.short).1
  · exact (changes_copyAll _ after).directory (hway place hplace)
  · rw [hdelivered]
    exact Option.some_ne_none _

end DesignCompiler.FileSystem
