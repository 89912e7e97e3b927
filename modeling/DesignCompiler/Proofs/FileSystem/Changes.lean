import DesignCompiler.Proofs.FileSystem.Extension

/-!
# Changes of a file system

Two sets of places say what an operation may do: files are written at the ones only, and directories
are made at the others only. Nothing is removed, and nothing comes to stand under a name that is too
long. A copy that was made once finds everything in place when it is made again.
-/

namespace DesignCompiler.FileSystem

/-- The last name of a place may stand in a directory. -/
def IsShort (place : Path) : Prop := ∀ name ∈ place.getLast?, isLongName name = false

/-- What may become of an entry: a file is written where no directory stands, and a directory is
made where nothing stands. -/
inductive EntryChange (written made short : Prop) : Option Entry → Option Entry → Prop where
  | same (entry : Option Entry) : EntryChange written made short entry entry
  | written {before : Option Entry} (content : Content) :
      written → before ≠ some .directory → (before = none → short) →
        EntryChange written made short before (some (.file content))
  | made : made → short → EntryChange written made short none (some .directory)

namespace EntryChange

variable {written made written' made' short : Prop} {before middle after : Option Entry}

theorem mono (hchange : EntryChange written made short before after) (hwritten : written → written')
    (hmade : made → made') : EntryChange written' made' short before after := by
  cases hchange with
  | same => exact .same _
  | written content hplace hbefore hshort =>
    exact .written content (hwritten hplace) hbefore hshort
  | made hplace hshort => exact .made (hmade hplace) hshort

/-- A file stays a file and a directory a directory, so two changes are one. -/
theorem trans (hfirst : EntryChange written made short before middle)
    (hsecond : EntryChange written made short middle after) :
    EntryChange written made short before after := by
  cases hfirst with
  | same => exact hsecond
  | written content hplace hbefore hshort =>
    cases hsecond with
    | same => exact .written content hplace hbefore hshort
    | written content' => exact .written content' hplace hbefore hshort
  | made hplace hshort =>
    cases hsecond with
    | same => exact .made hplace hshort
    | written _ _ hbefore => exact absurd rfl hbefore

end EntryChange

/-- One file system becomes the other by files written at some places and directories made at
others. -/
def Changes (files : FileSystem) (written made : Path → Prop) (later : FileSystem) : Prop :=
  ∀ place, EntryChange (written place) (made place) (IsShort place) (files.entry? place)
    (later.entry? place)

namespace Changes

variable {files middle later : FileSystem} {written made written' made' : Path → Prop}

theorem refl (files : FileSystem) (written made : Path → Prop) : files.Changes written made files :=
  fun _ => .same _

theorem trans (hfirst : files.Changes written made middle)
    (hsecond : middle.Changes written made later) : files.Changes written made later :=
  fun place => (hfirst place).trans (hsecond place)

theorem mono (hchanges : files.Changes written made later)
    (hwritten : ∀ place, written place → written' place)
    (hmade : ∀ place, made place → made' place) : files.Changes written' made' later :=
  fun place => (hchanges place).mono (hwritten place) (hmade place)

/-- Two changes in a row do what either does. -/
theorem union (hfirst : files.Changes written made middle)
    (hsecond : middle.Changes written' made' later) :
    files.Changes (fun place => written place ∨ written' place)
      (fun place => made place ∨ made' place) later :=
  (hfirst.mono (fun _ => .inl) fun _ => .inl).trans (hsecond.mono (fun _ => .inr) fun _ => .inr)

/-- Elsewhere the entries stay as they are. -/
theorem entry?_eq (hchanges : files.Changes written made later) {place : Path}
    (hwritten : ¬ written place) (hmade : ¬ made place) :
    later.entry? place = files.entry? place := by
  have hplace := hchanges place
  generalize files.entry? place = before at hplace ⊢
  generalize later.entry? place = after at hplace ⊢
  cases hplace with
  | same => rfl
  | written _ hplace => exact absurd hplace hwritten
  | made hplace => exact absurd hplace hmade

theorem directory (hchanges : files.Changes written made later) {place : Path}
    (hentry : files.entry? place = some .directory) : later.entry? place = some .directory := by
  have hplace := hchanges place
  rw [hentry] at hplace
  generalize later.entry? place = after at hplace ⊢
  cases hplace with
  | same => rfl
  | written _ _ hbefore => exact absurd rfl hbefore

/-- No directory comes to stand where none is made. -/
theorem ne_directory (hchanges : files.Changes written made later) {place : Path}
    (hentry : files.entry? place ≠ some .directory) (hmade : ¬ made place) :
    later.entry? place ≠ some .directory := by
  have hplace := hchanges place
  generalize files.entry? place = before at hentry hplace
  generalize later.entry? place = after at hplace ⊢
  cases hplace with
  | same => exact hentry
  | written => simp
  | made hplace => exact absurd hplace hmade

theorem file (hchanges : files.Changes written made later) {place : Path} {content : Content}
    (hentry : files.entry? place = some (.file content)) :
    ∃ content', later.entry? place = some (.file content') := by
  have hplace := hchanges place
  rw [hentry] at hplace
  generalize later.entry? place = after at hplace ⊢
  cases hplace with
  | same => exact ⟨content, rfl⟩
  | written content' => exact ⟨content', rfl⟩

theorem extendsTo (hchanges : files.Changes written made later) : files.ExtendsTo later := by
  refine ⟨fun place hentry => hchanges.directory hentry, fun place hentry => ?_⟩
  obtain ⟨entry, hentry⟩ := Option.ne_none_iff_exists'.mp hentry
  cases entry with
  | directory => simp [hchanges.directory hentry]
  | file content =>
    obtain ⟨content', hlater⟩ := hchanges.file hentry
    simp [hlater]

/-- What stands stays as it is where nothing is written. -/
theorem entry?_eq_of_ne_none (hchanges : files.Changes written made later) {place : Path}
    (hentry : files.entry? place ≠ none) (hwritten : ¬ written place) :
    later.entry? place = files.entry? place := by
  have hplace := hchanges place
  generalize files.entry? place = before at hentry hplace ⊢
  generalize later.entry? place = after at hplace ⊢
  cases hplace with
  | same => rfl
  | written _ hplace => exact absurd hplace hwritten
  | made => exact absurd rfl hentry

/-- A file that is not written keeps its content. -/
theorem entry?_eq_of_file (hchanges : files.Changes written made later) {place : Path}
    {content : Content} (hentry : files.entry? place = some (.file content))
    (hwritten : ¬ written place) : later.entry? place = some (.file content) := by
  rw [hchanges.entry?_eq_of_ne_none (by simp [hentry]) hwritten, hentry]

/-- Where no file is written, the files that stand later stood before. -/
theorem entry?_eq_of_later_file (hchanges : files.Changes written made later) {place : Path}
    {content : Content} (hentry : later.entry? place = some (.file content))
    (hwritten : ¬ written place) : files.entry? place = some (.file content) := by
  have hplace := hchanges place
  rw [hentry] at hplace
  generalize files.entry? place = before at hplace ⊢
  cases hplace with
  | same => rfl
  | written _ hplace => exact absurd hplace hwritten

/-- Nothing comes to stand under a name that is too long. -/
theorem entry?_eq_none (hchanges : files.Changes written made later) {place : Path}
    (hentry : files.entry? place = none) (hlong : ¬ IsShort place) : later.entry? place = none := by
  have hplace := hchanges place
  rw [hentry] at hplace
  generalize later.entry? place = after at hplace ⊢
  cases hplace with
  | same => rfl
  | written _ _ _ hshort => exact absurd (hshort rfl) hlong
  | made _ hshort => exact absurd hshort hlong

/-- A file is put where no directory stands. -/
theorem put_file {place : Path} {content : Content} (hplace : written place)
    (hentry : files.entry? place ≠ some .directory)
    (hshort : files.entry? place = none → IsShort place) :
    files.Changes written made (files.put place (.file content)) := by
  intro query
  rw [entry_put]
  split
  · rename_i hquery
    obtain ⟨rfl, -⟩ := hquery
    exact .written content hplace hentry hshort
  · exact .same _

/-- A directory is put where nothing stands. -/
theorem put_directory {place : Path} (hplace : made place) (hentry : files.entry? place = none)
    (hshort : IsShort place) : files.Changes written made (files.put place .directory) := by
  intro query
  rw [entry_put]
  split
  · rename_i hquery
    obtain ⟨rfl, -⟩ := hquery
    rw [hentry]
    exact .made hplace hshort
  · exact .same _

end Changes

/-- Putting what stands at a place there again changes nothing. -/
theorem put_eq_self {files : FileSystem} {place : Path} {entry : Entry}
    (hentry : files.entry? place = some entry) (hroot : place ≠ []) :
    files.put place entry = files := by
  obtain ⟨entries⟩ := files
  unfold entry? at hentry
  rw [if_neg (by simpa using hroot)] at hentry
  have hput : Dictionary.insert ⟨entries⟩ place entry = ⟨entries⟩ :=
    Dictionary.insert_of_get? hentry
  unfold Dictionary.insert at hput
  rw [put, Dictionary.mk.inj hput]

/-! ## Making directories -/

/-- Every directory on the way from the root to a place stands. -/
def Reached (files : FileSystem) (place : Path) : Prop :=
  ∀ above, above <+: place → files.entry? above = some .directory

theorem reached_nil (files : FileSystem) : files.Reached [] := by
  intro above habove
  rw [List.prefix_nil.mp habove]
  rfl

namespace Reached

variable {files later : FileSystem} {place : Path}

theorem of_extendsTo (hreached : files.Reached place) (hextends : files.ExtendsTo later) :
    later.Reached place :=
  fun above habove => hextends.directory above (hreached above habove)

theorem step (hreached : files.Reached place) {name : String}
    (hentry : files.entry? (step place name) = some .directory) :
    files.Reached (FileSystem.step place name) := by
  intro above habove
  unfold FileSystem.step at habove hentry
  split at habove
  · exact hreached above (habove.trans (List.dropLast_prefix place))
  · rename_i hname
    rw [if_neg hname] at hentry
    obtain rfl | hplace := List.prefix_concat_iff.mp habove
    · exact hentry
    · exact hreached above hplace

/-- Nothing is missing on the way back, so what is missing has the name of the step. -/
theorem isShort_step_iff (hreached : files.Reached place) {name : String}
    (hentry : files.entry? (FileSystem.step place name) = none) :
    IsShort (FileSystem.step place name) ↔ isLongName name = false := by
  unfold FileSystem.step at hentry ⊢
  split at hentry
  · rw [hreached _ (List.dropLast_prefix place)] at hentry
    cases hentry
  · rename_i hup
    rw [if_neg hup, IsShort, List.getLast?_concat]
    simp

/-- A missing directory can be made, unless its name is too long. -/
theorem put_step (hreached : files.Reached place) {name : String}
    (hentry : files.entry? (FileSystem.step place name) = none) (hname : isLongName name = false) :
    files.Changes (fun _ => False) (· = FileSystem.step place name)
        (files.put (FileSystem.step place name) .directory) ∧
      (files.put (FileSystem.step place name) .directory).Reached (FileSystem.step place name) := by
  have hput : files.Changes (fun _ => False) (· = FileSystem.step place name)
      (files.put (FileSystem.step place name) .directory) :=
    .put_directory rfl hentry ((hreached.isShort_step_iff hentry).mpr hname)
  refine ⟨hput, (hreached.of_extendsTo hput.extendsTo).step ?_⟩
  rw [entry_put, if_pos]
  refine ⟨rfl, fun hroot => ?_⟩
  rw [hroot] at hentry
  cases hentry

end Reached

/-- The places that names lead through from a place on. -/
def OnTheWay (start : Path) (names : List String) (place : Path) : Prop :=
  ∃ way, way <+: names ∧ place = way.foldl step start

theorem onTheWay_cons_iff {start place : Path} {name : String} {names : List String} :
    OnTheWay start (name :: names) place ↔ place = start ∨
      OnTheWay (step start name) names place := by
  constructor
  · rintro ⟨way, hway, rfl⟩
    cases way with
    | nil => exact .inl rfl
    | cons first way =>
      obtain ⟨rfl, hrest⟩ := List.cons_prefix_cons.mp hway
      exact .inr ⟨way, hrest, rfl⟩
  · rintro (rfl | hplace)
    · exact ⟨[], List.nil_prefix, rfl⟩
    · obtain ⟨way, hway, rfl⟩ := hplace
      exact ⟨name :: way, List.cons_prefix_cons.mpr ⟨rfl, hway⟩, rfl⟩

theorem OnTheWay.cons {start place : Path} {name : String} {names : List String}
    (hplace : OnTheWay (step start name) names place) : OnTheWay start (name :: names) place :=
  onTheWay_cons_iff.mpr (.inr hplace)

theorem onTheWay_start (start : Path) (names : List String) : OnTheWay start names start :=
  ⟨[], List.nil_prefix, rfl⟩

/-- Where all directories stand or were made, the names were followed. -/
theorem eq_foldl_of_makeDirectories {files : FileSystem} {start last : Path} {names : List String}
    (hmade : (files.makeDirectories start names).2 = .ok last) : last = names.foldl step start := by
  induction names generalizing files start with
  | nil => exact (Except.ok.inj hmade).symm
  | cons name rest ih =>
    unfold makeDirectories at hmade
    dsimp only at hmade
    split at hmade
    · exact ih hmade
    · cases hmade
    · split at hmade
      · cases hmade
      · exact ih hmade

theorem changes_makeDirectories {files : FileSystem} {start : Path} (hstart : files.Reached start)
    (names : List String) :
    files.Changes (fun _ => False) (OnTheWay start names)
      (files.makeDirectories start names).1 := by
  induction names generalizing files start with
  | nil => exact .refl files _ _
  | cons name rest ih =>
    unfold makeDirectories
    dsimp only
    split
    · rename_i hentry
      exact (ih (hstart.step hentry)).mono (fun _ h => h) fun _ h => h.cons
    · exact .refl files _ _
    · rename_i hentry
      split
      · exact .refl files _ _
      · rename_i hname
        obtain ⟨hput, hreached⟩ := hstart.put_step hentry (by simpa using hname)
        refine (hput.mono (fun _ h => h) ?_).trans
          ((ih hreached).mono (fun _ h => h) fun _ h => h.cons)
        rintro _ rfl
        exact (onTheWay_start _ rest).cons

/-- The directories that were made stand. -/
theorem directory_of_makeDirectories {files : FileSystem} {start place : Path} {names : List String}
    (hstart : files.Reached start) (hok : ∃ last, (files.makeDirectories start names).2 = .ok last)
    (hplace : OnTheWay start names place) :
    FileSystem.entry? (files.makeDirectories start names).1 place = some .directory := by
  induction names generalizing files start with
  | nil =>
    obtain ⟨way, hway, rfl⟩ := hplace
    rw [List.prefix_nil.mp hway]
    exact hstart _ List.prefix_rfl
  | cons name rest ih =>
    obtain rfl | hplace := onTheWay_cons_iff.mp hplace
    · exact (changes_makeDirectories hstart _).directory (hstart _ List.prefix_rfl)
    unfold makeDirectories at hok ⊢
    dsimp only at hok ⊢
    split at hok
    · rename_i hentry
      exact ih (hstart.step hentry) hok hplace
    · simp at hok
    · rename_i hentry
      split at hok
      · simp at hok
      · rename_i hname
        rw [if_neg hname]
        exact ih (hstart.put_step hentry (by simpa using hname)).2 hok hplace

/-- Where directories were made once all of them stand, or the way is blocked as it was. -/
theorem makeDirectories_again {files later : FileSystem} {start : Path} {names : List String}
    {written made : Path → Prop} (hstart : files.Reached start)
    (hlater : (files.makeDirectories start names).1.Changes written made later) :
    later.makeDirectories start names = (later, (files.makeDirectories start names).2) := by
  -- The later files stay fixed: the induction follows what the first run made on its way to them.
  induction names generalizing files start with
  | nil => rfl
  | cons name rest ih =>
    unfold makeDirectories at hlater ⊢
    dsimp only at hlater ⊢
    split at hlater
    · rename_i hentry
      have hmade := changes_makeDirectories (hstart.step hentry) rest
      rw [hlater.directory (hmade.directory hentry)]
      exact ih (hstart.step hentry) hlater
    · rename_i content hentry
      obtain ⟨content', hfile⟩ := hlater.file hentry
      rw [hfile]
    · rename_i hentry
      split at hlater
      · rename_i hname
        have hlong : ¬ IsShort (step start name) := by
          rw [hstart.isShort_step_iff hentry, hname]
          simp
        rw [hlater.entry?_eq_none hentry hlong]
        dsimp only
        rw [if_pos hname, if_pos hname]
      · rename_i hname
        obtain ⟨-, hreached⟩ := hstart.put_step hentry (by simpa using hname)
        have hmade := changes_makeDirectories hreached rest
        have hnext := hmade.directory (hreached _ List.prefix_rfl)
        rw [hlater.directory hnext]
        dsimp only
        rw [if_neg hname]
        exact ih hreached hlater

/-- The files with the directories on the way to a path. -/
def withWay (files : FileSystem) (path : String) : FileSystem :=
  (files.makeDirectories [] (names path).dropLast).1

theorem changes_withWay (files : FileSystem) (path : String) :
    files.Changes (fun _ => False) (OnTheWay [] (names path).dropLast) (files.withWay path) :=
  changes_makeDirectories (reached_nil files) _

/-! ## Copying -/

/-- The place of the file that a copy to a path writes. -/
def copyTarget (path : String) : Path :=
  (names path).dropLast.foldl step [] ++ (names path).getLast?.toList

/-- What a copy writes once the directories on the way stand, if it can write. -/
def written? (files : FileSystem) (source : Path) (path : String) : Option Content :=
  match files.entry? source, files.entry? (copyTarget path) with
  | _, some .directory => none
  | some (.file content), _ =>
    if isLongPath path || (names path).getLast?.toList.any isLongName then none
    else some (copiedContent source (copyTarget path) content)
  | _, _ => none

theorem written?_eq_some_iff {files : FileSystem} {source : Path} {path : String}
    {content : Content} :
    files.written? source path = some content ↔
      ∃ held, files.entry? source = some (.file held) ∧
        files.entry? (copyTarget path) ≠ some .directory ∧
        (isLongPath path || (names path).getLast?.toList.any isLongName) = false ∧
        copiedContent source (copyTarget path) held = content := by
  unfold written?
  split
  · simp [*]
  · rename_i held hheld hnot
    rw [Option.ite_none_left_eq_some, Bool.not_eq_true, Option.some.injEq]
    constructor
    · rintro ⟨hlong, hcontent⟩
      exact ⟨held, hheld, hnot, hlong, hcontent⟩
    · rintro ⟨_, hsame, -, hlong, hcontent⟩
      cases hheld.symm.trans hsame
      exact ⟨hlong, hcontent⟩
  · rename_i hnot _
    constructor
    · exact fun h => nomatch h
    · rintro ⟨held, hheld, -⟩
      exact absurd hheld (hnot held)

theorem isShort_of_written? {files : FileSystem} {source : Path} {path : String} {content : Content}
    (hwritten : files.written? source path = some content) : IsShort (copyTarget path) := by
  obtain ⟨-, -, -, hlong, -⟩ := written?_eq_some_iff.mp hwritten
  rw [Bool.or_eq_false_iff] at hlong
  intro last hlast
  cases hname : (names path).getLast? with
  | none =>
    rw [copyTarget, hname, List.getLast?_eq_none_iff.mp hname] at hlast
    cases hlast
  | some name =>
    rw [copyTarget, hname, Option.toList_some, List.getLast?_concat, Option.mem_some] at hlast
    simpa [hname, hlast] using hlong.2

/-- The files after a copy: as they were if the path cannot be one, else with the directories on the
way and the file, as far as these can be made and written. -/
theorem copy_fst (files : FileSystem) (source : Path) (path : String) :
    (files.copy source path).1 =
      if path.toList.contains (Char.ofNat 0) then files
      else if isLongPath (parentPath path) then files
      else match files.makeDirectories [] (names path).dropLast with
        | (made, .error _) => made
        | (made, .ok _) => match made.written? source path with
          | none => made
          | some content => made.put (copyTarget path) (.file content) := by
  unfold copy
  split
  · rfl
  split
  · rfl
  cases hmade : files.makeDirectories [] (names path).dropLast with
  | mk made result =>
  cases result with
  | error failure => rfl
  | ok directory =>
    obtain rfl := eq_foldl_of_makeDirectories (congrArg Prod.snd hmade)
    unfold written?
    dsimp only
    rw [← copyTarget]
    rcases made.entry? source with _ | _ | held <;>
      rcases made.entry? (copyTarget path) with _ | _ | _ <;> try rfl
    all_goals
      by_cases hlong : (isLongPath path || (names path).getLast?.toList.any isLongName) = true
      · simp only [if_pos hlong]
      · simp only [if_neg hlong]

/-- A copy writes a place: its target, if there is a file to copy and the place is not on the
    way. -/
structure Writes (files : FileSystem) (copy : Path × String) (place : Path) : Prop where
  eq_target : place = copyTarget copy.2
  not_above : ¬ OnTheWay [] (names copy.2).dropLast place
  exists_content : ∃ content, files.entry? copy.1 = some (.file content)

theorem changes_copy_writes (files : FileSystem) (copy : Path × String) :
    files.Changes (files.Writes copy) (OnTheWay [] (names copy.2).dropLast)
      (files.copy copy.1 copy.2).1 := by
  have hplain := files.changes_withWay copy.2
  have hway : files.Changes (files.Writes copy) (OnTheWay [] (names copy.2).dropLast)
      (files.withWay copy.2) := hplain.mono (fun _ h => h.elim) fun _ h => h
  rw [copy_fst]
  split
  · exact .refl files _ _
  split
  · exact .refl files _ _
  split
  · rename_i hmade
    rwa [withWay, hmade] at hway
  · rename_i made directory hmade
    have hstands := fun place (hplace : OnTheWay [] (names copy.2).dropLast place) =>
      directory_of_makeDirectories (reached_nil files) ⟨directory, by rw [hmade]⟩ hplace
    rw [withWay, hmade] at hway hplain
    rw [hmade] at hstands
    split
    · exact hway
    · rename_i content hwritten
      obtain ⟨held, hheld, htarget, -⟩ := written?_eq_some_iff.mp hwritten
      refine hway.trans (.put_file ⟨rfl, fun habove => htarget (hstands _ habove), held, ?_⟩ htarget
        fun _ => isShort_of_written? hwritten)
      exact hplain.entry?_eq_of_later_file hheld (fun h => h)

/-- A copy writes its target alone, and makes directories on the way to it. -/
theorem changes_copy (files : FileSystem) (source : Path) (path : String) :
    files.Changes (· = copyTarget path) (OnTheWay [] (names path).dropLast)
      (files.copy source path).1 :=
  (files.changes_copy_writes (source, path)).mono (fun _ h => h.eq_target) fun _ h => h

/-- What a copy can write later it could write before, if its source was there. -/
theorem written?_of_changes {files later : FileSystem} {source : Path} {path : String}
    {written made : Path → Prop} {content : Content} (hchanges : files.Changes written made later)
    (hsource : ∀ held, later.entry? source = some (.file held) →
      files.entry? source = some (.file held))
    (hlater : later.written? source path = some content) :
    files.written? source path = some content := by
  obtain ⟨held, hheld, htarget, hlong, hcontent⟩ := written?_eq_some_iff.mp hlater
  refine written?_eq_some_iff.mpr ⟨held, hsource held hheld, fun hdirectory => ?_, hlong, hcontent⟩
  exact htarget (hchanges.directory hdirectory)

/-- A copy that was made before finds everything in place, if the file that it wrote and the source
of that were left alone since. -/
theorem copy_again {files later : FileSystem} {source : Path} {path : String}
    {written made : Path → Prop} (hlater : (files.copy source path).1.Changes written made later)
    (htarget : ¬ written (copyTarget path)) (hsource : later.entry? source = files.entry? source) :
    (later.copy source path).1 = later := by
  rw [copy_fst] at hlater ⊢
  split
  · rfl
  rename_i hzero
  rw [if_neg hzero] at hlater
  split
  · rfl
  rename_i hparent
  rw [if_neg hparent] at hlater
  have hmade := changes_makeDirectories (reached_nil files) (names path).dropLast
  have hagain : ∀ {written made}, (files.makeDirectories [] (names path).dropLast).1.Changes written
      made later → later.makeDirectories [] (names path).dropLast =
        (later, (files.makeDirectories [] (names path).dropLast).2) :=
    makeDirectories_again (reached_nil files)
  cases hresult : files.makeDirectories [] (names path).dropLast with
  | mk middle result =>
  rw [hresult] at hlater hmade hagain
  have hheld : ∀ held, later.entry? source = some (.file held) →
      middle.entry? source = some (.file held) :=
    fun held hheld => hmade.entry?_eq_of_file (hsource ▸ hheld) (fun h => h)
  cases result with
  | error failure => rw [hagain hlater]
  | ok directory =>
    dsimp only at hlater
    split at hlater
    · rename_i hnone
      rw [hagain hlater]
      dsimp only
      split
      · rfl
      · -- What could be written now could have been written then.
        rename_i content hsome
        rw [written?_of_changes hlater hheld hsome] at hnone
        cases hnone
    · rename_i content hsome
      have hput : middle.Changes (· = copyTarget path) (fun _ => False)
          (middle.put (copyTarget path) (.file content)) := by
        obtain ⟨-, -, hentry, -⟩ := written?_eq_some_iff.mp hsome
        exact .put_file rfl hentry fun _ => isShort_of_written? hsome
      have hroot : copyTarget path ≠ [] := by
        obtain ⟨-, -, hentry, -⟩ := written?_eq_some_iff.mp hsome
        rintro hroot
        rw [hroot] at hentry
        exact hentry rfl
      have hmiddle := hput.union hlater
      rw [hagain hmiddle]
      dsimp only
      split
      · rfl
      · rename_i content' hsome'
        rw [written?_of_changes hmiddle hheld hsome', Option.some.injEq] at hsome
        subst hsome
        refine put_eq_self (hlater.entry?_eq_of_file ?_ htarget) hroot
        rw [entry_put, if_pos ⟨rfl, hroot⟩]

/-! ## Copying several files -/

/-- The files after copies, each of the file at a place to a path, one after another. -/
def copyAll (files : FileSystem) (copies : List (Path × String)) : FileSystem :=
  copies.foldl (fun files copy => (files.copy copy.1 copy.2).1) files

/-- A place that one of the copies writes. -/
def IsTarget (copies : List (Path × String)) (place : Path) : Prop :=
  ∃ copy ∈ copies, place = copyTarget copy.2

/-- A place on the way to the file that one of the copies writes. -/
def IsAboveTarget (copies : List (Path × String)) (place : Path) : Prop :=
  ∃ copy ∈ copies, OnTheWay [] (names copy.2).dropLast place

theorem changes_copyAll (files : FileSystem) (copies : List (Path × String)) :
    files.Changes (IsTarget copies) (IsAboveTarget copies) (files.copyAll copies) := by
  induction copies generalizing files with
  | nil => exact .refl files _ _
  | cons copy copies ih =>
    refine ((files.changes_copy copy.1 copy.2).mono ?_ ?_).trans ((ih _).mono ?_ ?_)
    · exact fun place hplace => ⟨copy, List.mem_cons_self, hplace⟩
    · exact fun place hplace => ⟨copy, List.mem_cons_self, hplace⟩
    · exact fun place ⟨other, hother, hplace⟩ => ⟨other, List.mem_cons_of_mem _ hother, hplace⟩
    · exact fun place ⟨other, hother, hplace⟩ => ⟨other, List.mem_cons_of_mem _ hother, hplace⟩

/-- A file of which a copy is made has its content from before, or from the source of the copy. -/
theorem content_copy {files : FileSystem} {source place : Path} {path : String} {content : Content}
    (hentry : FileSystem.entry? (files.copy source path).1 place = some (.file content)) :
    files.entry? place = some (.file content) ∨
      ∃ held, files.entry? source = some (.file held) ∧
        content = copiedContent source (copyTarget path) held := by
  have hmade := changes_makeDirectories (reached_nil files) (names path).dropLast
  rw [copy_fst] at hentry
  split at hentry
  · exact .inl hentry
  split at hentry
  · exact .inl hentry
  split at hentry
  · rename_i hresult
    rw [hresult] at hmade
    exact .inl (hmade.entry?_eq_of_later_file hentry (fun h => h))
  rename_i made _ hresult
  rw [hresult] at hmade
  split at hentry
  · exact .inl (hmade.entry?_eq_of_later_file hentry (fun h => h))
  rename_i written hwritten
  obtain ⟨held, hheld, -, -, hcontent⟩ := written?_eq_some_iff.mp hwritten
  rw [entry_put] at hentry
  split at hentry
  · cases hentry
    exact .inr ⟨held, hmade.entry?_eq_of_later_file hheld (fun h => h), hcontent.symm⟩
  · exact .inl (hmade.entry?_eq_of_later_file hentry (fun h => h))

/-- Copies bring nothing to a file but what stood there and what the copied files held. A file that
is copied onto itself is emptied. -/
theorem content_copyAll {files : FileSystem} {copies : List (Path × String)} {place : Path}
    {content : Content}
    (hentry : FileSystem.entry? (files.copyAll copies) place = some (.file content)) :
    files.entry? place = some (.file content) ∨ content = .text "" ∨
      ∃ copy ∈ copies, files.entry? copy.1 = some (.file content) := by
  induction copies generalizing files with
  | nil => exact .inl hentry
  | cons copy copies ih =>
    have hfirst : ∀ query,
        FileSystem.entry? (files.copy copy.1 copy.2).1 query = some (.file content) →
        files.entry? query = some (.file content) ∨ content = .text "" ∨
          files.entry? copy.1 = some (.file content) := by
      intro query hquery
      obtain hsame | ⟨held, hheld, hcontent⟩ := content_copy hquery
      · exact .inl hsame
      · unfold copiedContent at hcontent
        split at hcontent
        · exact .inr (.inl hcontent)
        · exact .inr (.inr (hcontent ▸ hheld))
    obtain hplace | hempty | ⟨other, hother, hheld⟩ := ih hentry
    · obtain hsame | hempty | hheld := hfirst _ hplace
      · exact .inl hsame
      · exact .inr (.inl hempty)
      · exact .inr (.inr ⟨copy, List.mem_cons_self, hheld⟩)
    · exact .inr (.inl hempty)
    · obtain hsame | hempty | hheld := hfirst _ hheld
      · exact .inr (.inr ⟨other, List.mem_cons_of_mem _ hother, hsame⟩)
      · exact .inr (.inl hempty)
      · exact .inr (.inr ⟨copy, List.mem_cons_self, hheld⟩)

/-- Copies that write different files, none of which is copied itself, find everything in place when
they are made again. -/
theorem copyAll_again {files later : FileSystem} {copies : List (Path × String)}
    {written made : Path → Prop} (hlater : (files.copyAll copies).Changes written made later)
    (hdistinct : copies.Pairwise fun copy other => copyTarget copy.2 ≠ copyTarget other.2)
    (htargets : ∀ place, IsTarget copies place → ¬ written place)
    (hsources : ∀ copy ∈ copies,
      files.entry? copy.1 ≠ none ∧ ¬ IsTarget copies copy.1 ∧ ¬ written copy.1) :
    later.copyAll copies = later := by
  induction copies generalizing files with
  | nil => rfl
  | cons copy copies ih =>
    have hrest := changes_copyAll (files.copy copy.1 copy.2).1 copies
    have hfirst := files.changes_copy copy.1 copy.2
    have hafter := hrest.union hlater
    rw [List.pairwise_cons] at hdistinct
    rw [List.forall_mem_cons] at hsources
    obtain ⟨⟨hsome, hsource, hunwritten⟩, hsources⟩ := hsources
    have hmem : ∀ place, IsTarget copies place → IsTarget (copy :: copies) place :=
      fun place ⟨other, hother, hplace⟩ => ⟨other, List.mem_cons_of_mem _ hother, hplace⟩
    have htarget : IsTarget (copy :: copies) (copyTarget copy.2) := ⟨copy, List.mem_cons_self, rfl⟩
    have hagain : (later.copy copy.1 copy.2).1 = later := by
      refine copy_again hafter ?_ ?_
      · rintro (⟨other, hother, heq⟩ | hplace)
        · exact hdistinct.1 other hother heq
        · exact htargets _ htarget hplace
      · have hkept := hfirst.entry?_eq_of_ne_none hsome fun heq => hsource (heq ▸ htarget)
        rw [hafter.entry?_eq_of_ne_none (by rwa [hkept]), hkept]
        rintro (hplace | hplace)
        · exact hsource (hmem _ hplace)
        · exact hunwritten hplace
    have hrestAgain : later.copyAll copies = later := by
      refine ih hlater hdistinct.2 (fun place hplace => htargets place (hmem place hplace)) ?_
      intro other hother
      obtain ⟨hsome, hsource, hunwritten⟩ := hsources other hother
      exact ⟨hfirst.extendsTo.entry _ hsome, fun hplace => hsource (hmem _ hplace), hunwritten⟩
    unfold copyAll at hrestAgain ⊢
    rw [List.foldl_cons, hagain, hrestAgain]

end DesignCompiler.FileSystem
