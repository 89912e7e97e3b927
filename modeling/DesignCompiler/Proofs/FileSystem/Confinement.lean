import DesignCompiler.Proofs.FileSystem.Changes
import DesignCompiler.Proofs.Text.Scanning

/-!
# Paths that stay below a place

A path that never leads back more often than it led on stays below the place that it starts from.
Where it leads depends on nothing but what stands there.
-/

namespace DesignCompiler.FileSystem

open Text

/-! ## Joined paths -/

@[simp]
theorem names_empty : names "" = [] := by decide

theorem names_ofList_append_slash (front back : List Char) :
    names (String.ofList (front ++ '/' :: back)) =
      names (String.ofList front) ++ names (String.ofList back) := by
  simp only [names, String.toList_ofList]
  rw [splitOn_append_cons (by rfl), List.map_append, List.filter_append]

/-- A joined path is the second part alone or has a slash before it. -/
theorem exists_joinPath (path : String) {further : String}
    (hrelative : isAbsolute further = false) :
    path = "" ∧ joinPath path further = further ∨
      ∃ front, joinPath path further = String.ofList (front ++ '/' :: further.toList) ∧
        names path = names (String.ofList front) := by
  unfold joinPath
  rw [if_neg (by simp [hrelative])]
  split
  · refine .inr ⟨path.toList, ?_, by simp⟩
    rw [← String.toList_inj]
    simp
  · rename_i hslash
    cases hlast : path.toList.getLast? with
    | none =>
      rw [List.getLast?_eq_none_iff, String.toList_eq_nil_iff] at hlast
      exact .inl ⟨hlast, by simp [hlast]⟩
    | some c =>
      rw [hlast, Option.any_some, bne_iff_ne, not_not] at hslash
      subst hslash
      obtain ⟨front, hfront⟩ := List.getLast?_eq_some_iff.mp hlast
      refine .inr ⟨front, ?_, ?_⟩
      · rw [← String.toList_inj]
        simp [hfront]
      · rw [← String.ofList_toList (s := path), hfront, names_ofList_append_slash]
        simp [show String.ofList [] = "" from rfl]

/-- The names of a joined path are those of both parts, unless the second one starts over. -/
theorem names_joinPath {path further : String} (hrelative : isAbsolute further = false) :
    names (joinPath path further) = names path ++ names further := by
  obtain ⟨rfl, hjoined⟩ | ⟨front, hjoined, hnames⟩ := exists_joinPath path hrelative
  · rw [hjoined, names_empty, List.nil_append]
  · rw [hjoined, names_ofList_append_slash, hnames, String.ofList_toList]

/-- Whether a path leads to a directory alone is told behind its last slash. -/
theorem requiresDirectory_append_slash (front back : List Char) :
    requiresDirectory (String.ofList (front ++ '/' :: back)) =
      requiresDirectory (String.ofList back) := by
  rw [requiresDirectory, String.toList_ofList, splitOn_append_cons (by rfl),
    List.getLast?_append_of_ne_nil _ (splitOn_ne_nil _ _), requiresDirectory, String.toList_ofList]

/-- Whether a joined path leads to a directory alone its second part says. -/
theorem requiresDirectory_joinPath {path further : String}
    (hrelative : isAbsolute further = false) :
    requiresDirectory (joinPath path further) = requiresDirectory further := by
  obtain ⟨rfl, hjoined⟩ | ⟨front, hjoined, -⟩ := exists_joinPath path hrelative
  · rw [hjoined]
  · rw [hjoined, requiresDirectory_append_slash, String.ofList_toList]

/-- A path without names leads to a directory alone. -/
theorem requiresDirectory_of_names_eq_nil {path : String} (hnames : names path = []) :
    requiresDirectory path = true := by
  unfold requiresDirectory
  cases hlast : (splitOn (· == '/') path.toList).getLast? with
  | none => exact absurd (List.getLast?_eq_none_iff.mp hlast) (splitOn_ne_nil _ _)
  | some last =>
    have hvoid := List.filter_eq_nil_iff.mp hnames (String.ofList last)
      (List.mem_map_of_mem (List.mem_of_getLast? hlast))
    rw [Bool.and_eq_true, decide_eq_true_iff, decide_eq_true_iff, not_and_or, not_not, not_not]
      at hvoid
    dsimp only
    rw [Bool.or_eq_true, List.isEmpty_iff, beq_iff_eq]
    refine hvoid.imp (fun hempty => ?_) fun hdot => ?_
    · rw [← String.toList_ofList (l := last), hempty]
      rfl
    · rw [← String.toList_ofList (l := last), hdot]
      rfl

/-! ## Plain names -/

/-- The name of an entry of a directory. -/
structure IsPlain (name : String) : Prop where
  slash : '/' ∉ name.toList
  ne_empty : name ≠ ""
  ne_dot : name ≠ "."
  ne_up : name ≠ ".."

theorem IsPlain.of_mem {name : String} (hslash : '/' ∉ name.toList) {c : Char}
    (hc : c ∈ name.toList) (hdot : c ≠ '.') : IsPlain name where
  slash := hslash
  ne_empty := by
    rintro rfl
    cases hc
  ne_dot := by
    rintro rfl
    exact hdot (by simpa using hc)
  ne_up := by
    rintro rfl
    exact hdot (by simpa using hc)

theorem IsPlain.names_eq {name : String} (hname : IsPlain name) : names name = [name] := by
  unfold names
  rw [splitOn_of_forall, List.map_singleton, String.ofList_toList, List.filter_cons_of_pos,
    List.filter_nil]
  · simp [hname.ne_empty, hname.ne_dot]
  · intro c hc
    rw [beq_eq_false_iff_ne]
    rintro rfl
    exact hname.slash hc

theorem IsPlain.requiresDirectory_eq {name : String} (hname : IsPlain name) :
    requiresDirectory name = false := by
  rw [requiresDirectory, splitOn_of_forall, List.getLast?_singleton]
  · dsimp only
    rw [Bool.or_eq_false_iff, List.isEmpty_eq_false_iff, beq_eq_false_iff_ne]
    constructor
    · simpa using hname.ne_empty
    · intro hdot
      exact hname.ne_dot (by rw [← String.toList_inj, hdot]; rfl)
  · intro c hc
    rw [beq_eq_false_iff_ne]
    rintro rfl
    exact hname.slash hc

theorem mem_foldl_step {names : List String} {start : Path} {name : String}
    (hname : name ∈ names.foldl step start) : name ∈ start ∨ name ∈ names ∧ name ≠ ".." := by
  induction names generalizing start with
  | nil => exact .inl hname
  | cons first names ih =>
    obtain hstep | ⟨hrest, hup⟩ := ih hname
    · unfold step at hstep
      split at hstep
      · exact .inl (List.mem_of_mem_dropLast hstep)
      · rename_i hup
        obtain hstart | hfirst := List.mem_append.mp hstep
        · exact .inl hstart
        · obtain rfl := List.mem_singleton.mp hfirst
          exact .inr ⟨List.mem_cons_self, by simpa using hup⟩
    · exact .inr ⟨List.mem_cons_of_mem first hrest, hup⟩

/-- The place that a path leads to, whether anything stands there or not. -/
def placeOf (path : String) : Path := (names path).foldl step []

/-- Only plain names lead to a place. -/
theorem isPlain_of_mem_placeOf {path name : String} (hname : name ∈ placeOf path) :
    IsPlain name := by
  obtain hroot | ⟨hmem, hup⟩ := mem_foldl_step hname
  · cases hroot
  · obtain ⟨hpiece, hvoid⟩ := List.mem_filter.mp hmem
    obtain ⟨piece, hsplit, rfl⟩ := List.mem_map.mp hpiece
    simp only [Bool.and_eq_true, decide_eq_true_eq] at hvoid
    refine ⟨?_, hvoid.1, hvoid.2, hup⟩
    rw [String.toList_ofList]
    exact not_mem_of_mem_splitOn hsplit

/-! ## Following names -/

section

variable {files later : FileSystem} {start place : Path} {front names : List String}

theorem follow_append (front back : List String) (start : Path) :
    files.follow start (front ++ back) =
      match files.follow start front with
      | .error failure => .error failure
      | .ok place => files.follow place back := by
  induction front generalizing start with
  | nil => rfl
  | cons name front ih =>
    rw [List.cons_append, follow, follow]
    split
    · rfl
    split
    · rfl
    dsimp only
    split
    · exact ih _
    · rfl

@[simp]
theorem entry?_root (files : FileSystem) : files.entry? [] = some .directory := rfl

/-- Names that lead somewhere lead there step by step, and something stands there. -/
theorem eq_foldl_of_follow (hfollow : files.follow start names = .ok place)
    (hstart : files.entry? start ≠ none) :
    place = names.foldl step start ∧ files.entry? place ≠ none := by
  induction names generalizing start with
  | nil =>
    obtain rfl := Except.ok.inj hfollow
    exact ⟨rfl, hstart⟩
  | cons name names ih =>
    rw [follow] at hfollow
    split at hfollow
    · cases hfollow
    split at hfollow
    · cases hfollow
    dsimp only at hfollow
    split at hfollow
    · rename_i hentry
      exact ih hfollow (by simp [hentry])
    · cases hfollow

theorem locate_eq_ok_iff {path : String} :
    files.locate path = .ok place ↔
      path.toList.contains (Char.ofNat 0) = false ∧ path ≠ "" ∧
        files.follow [] (FileSystem.names path) = .ok place ∧
        (requiresDirectory path = true → files.isDirectory place = true) := by
  unfold locate
  split
  · rename_i hzero
    simp only [hzero, reduceCtorEq, false_and]
  rename_i hzero
  split
  · rename_i hempty
    simp only [beq_iff_eq.mp hempty, reduceCtorEq, ne_eq, not_true_eq_false, false_and, and_false]
  rename_i hempty
  rw [beq_iff_eq] at hempty
  rw [Bool.not_eq_true] at hzero
  cases hfollow : files.follow [] (FileSystem.names path) with
  | error failure => simp
  | ok target =>
    dsimp only
    rw [Except.ok.injEq]
    split
    · rename_i hfile
      simp only [Bool.and_eq_true, Bool.not_eq_true'] at hfile
      constructor
      · exact fun h => nomatch h
      · rintro ⟨-, -, rfl, hdirectory⟩
        rw [hdirectory hfile.1] at hfile
        cases hfile.2
    · rename_i hfine
      simp only [Bool.and_eq_true, Bool.not_eq_true', not_and, Bool.not_eq_false] at hfine
      constructor
      · rintro ⟨⟩
        exact ⟨hzero, hempty, rfl, hfine⟩
      · rintro ⟨-, -, rfl, -⟩
        rfl

/-- A path with names leads on from a directory alone. -/
theorem isDirectory_of_follow (hfollow : files.follow start names = .ok place)
    (hnames : names ≠ []) :
    files.isDirectory start = true := by
  cases names with
  | nil => exact absurd rfl hnames
  | cons name names =>
    rw [follow] at hfollow
    split at hfollow
    · cases hfollow
    · rename_i hdirectory
      simpa using hdirectory

end

/-- What is opened stands in the place of its path. -/
theorem eq_placeOf_of_openPlace {files : FileSystem} {path : String} {place : Path}
    (hopen : files.openPlace path = .ok place) : place = placeOf path := by
  unfold openPlace at hopen
  split at hopen
  · cases hopen
  · obtain ⟨-, -, hfollow, -⟩ := locate_eq_ok_iff.mp hopen
    exact (eq_foldl_of_follow hfollow (by simp)).1

namespace Changes

variable {files later : FileSystem} {written made : Path → Prop} {path text : String}

/-- A text that is not written is read as before. -/
theorem readText (hchanges : files.Changes written made later) (hplace : ¬ written (placeOf path))
    (hread : files.readText path = .ok text) : later.readText path = .ok text := by
  obtain ⟨place, hopen, hentry⟩ := readText_eq_ok_iff.mp hread
  obtain rfl := eq_placeOf_of_openPlace hopen
  exact readText_eq_ok_iff.mpr
    ⟨_, hchanges.extendsTo.openPlace hopen, hchanges.entry?_eq_of_file hentry hplace⟩

/-- A text that is not written could be read before, if the path led to a file in its place. -/
theorem readText_of_later (hchanges : files.Changes written made later)
    (hplace : ¬ written (placeOf path))
    (hreached : ∀ content, files.entry? (placeOf path) = some (.file content) →
      files.follow [] (names path) = .ok (placeOf path))
    (hread : later.readText path = .ok text) : files.readText path = .ok text := by
  obtain ⟨place, hopen, hentry⟩ := readText_eq_ok_iff.mp hread
  obtain rfl := eq_placeOf_of_openPlace hopen
  have hbefore := hchanges.entry?_eq_of_later_file hentry hplace
  refine readText_eq_ok_iff.mpr ⟨_, ?_, hbefore⟩
  unfold openPlace at hopen ⊢
  split at hopen
  · cases hopen
  · rename_i hshort
    rw [if_neg hshort]
    obtain ⟨hzero, hempty, -, hdirectory⟩ := locate_eq_ok_iff.mp hopen
    refine locate_eq_ok_iff.mpr ⟨hzero, hempty, hreached _ hbefore, fun hrequires => ?_⟩
    -- It led to a file later, so it cannot have asked for a directory.
    have hthere := isDirectory_iff.mp (hdirectory hrequires)
    rw [hentry] at hthere
    cases hthere

end Changes

/-! ## Staying below a place -/

/-- Whether names never lead above the place they start from, which is that many names deep. -/
def staysBelow : Nat → List String → Bool
  | _, [] => true
  | depth, name :: names =>
    if name == ".." then
      match depth with
      | 0 => false
      | depth + 1 => staysBelow depth names
    else staysBelow (depth + 1) names

/-- Names that stay below a place do so after a step. -/
theorem staysBelow_step {below : Path} {name : String} {names : List String}
    (hstays : staysBelow below.length (name :: names) = true) :
    (name = ".." → below ≠ []) ∧ staysBelow (step below name).length names = true := by
  unfold staysBelow at hstays
  split at hstays
  · rename_i hup
    split at hstays
    · cases hstays
    · rename_i depth hdepth
      refine ⟨fun _ hnil => by simp [hnil] at hdepth, ?_⟩
      rwa [step, if_pos hup, List.length_dropLast, hdepth, Nat.succ_sub_one]
  · rename_i hplain
    refine ⟨fun hup => absurd (beq_iff_eq.mpr hup) hplain, ?_⟩
    rwa [step, if_neg hplain, List.length_append]

/-- What a step below a place comes to. -/
theorem step_append (base : Path) {below : Path} {name : String}
    (hbelow : name = ".." → below ≠ []) :
    step (base ++ below) name = base ++ step below name := by
  unfold step
  split
  · rename_i hup
    rw [List.dropLast_append_of_ne_nil (hbelow (beq_iff_eq.mp hup))]
  · rw [List.append_assoc]

theorem foldl_step_append (base : Path) {below : Path} {names : List String}
    (hstays : staysBelow below.length names = true) :
    names.foldl step (base ++ below) = base ++ names.foldl step below := by
  induction names generalizing below with
  | nil => rfl
  | cons name names ih =>
    obtain ⟨hbelow, hrest⟩ := staysBelow_step hstays
    rw [List.foldl_cons, step_append base hbelow, ih hrest, List.foldl_cons]

/-- Names that stay below a place lead to a place below it. -/
theorem foldl_step_of_staysBelow (base : Path) {names : List String}
    (hstays : staysBelow 0 names = true) : names.foldl step base = base ++ names.foldl step [] := by
  have hfold := @foldl_step_append base [] names hstays
  rwa [List.append_nil] at hfold

theorem staysBelow_of_isPrefix {depth : Nat} {way names : List String}
    (hstays : staysBelow depth names = true) (hway : way <+: names) :
    staysBelow depth way = true := by
  induction way generalizing depth names with
  | nil => rfl
  | cons name way ih =>
    obtain ⟨rest, rfl⟩ := hway
    unfold staysBelow at hstays ⊢
    dsimp only [List.cons_append] at hstays
    split at hstays
    · rename_i hup
      rw [if_pos hup]
      cases depth with
      | zero => cases hstays
      | succ depth => exact ih hstays (List.prefix_append way rest)
    · rename_i hup
      rw [if_neg hup]
      exact ih hstays (List.prefix_append way rest)

/-- All places on the way of names that stay below a place are below it. -/
theorem OnTheWay.isPrefix {base place : Path} {names : List String}
    (hplace : OnTheWay base names place) (hstays : staysBelow 0 names = true) : base <+: place := by
  obtain ⟨way, hway, rfl⟩ := hplace
  rw [foldl_step_of_staysBelow base (staysBelow_of_isPrefix hstays hway)]
  exact List.prefix_append base _

theorem OnTheWay.of_append {start place : Path} {front back : List String}
    (hplace : OnTheWay start (front ++ back) place) :
    OnTheWay start front place ∨ OnTheWay (front.foldl step start) back place := by
  obtain ⟨way, hway, rfl⟩ := hplace
  obtain hshort | ⟨rest, rfl⟩ :=
    List.prefix_or_prefix_of_prefix hway (List.prefix_append front back)
  · exact .inl ⟨way, hshort, rfl⟩
  · rw [List.prefix_append_right_inj] at hway
    exact .inr ⟨rest, hway, List.foldl_append⟩

/-- Where nothing changed below a place, names that stay below it lead where they led. -/
theorem follow_congr {files later : FileSystem} {base below : Path} {names : List String}
    (hstays : staysBelow below.length names = true)
    (hsame : ∀ place, base <+: place → later.entry? place = files.entry? place) :
    later.follow (base ++ below) names = files.follow (base ++ below) names := by
  induction names generalizing below with
  | nil => rfl
  | cons name names ih =>
    obtain ⟨hbelow, hrest⟩ := staysBelow_step hstays
    have hplace : later.isDirectory (base ++ below) = files.isDirectory (base ++ below) := by
      rw [isDirectory, isDirectory, hsame _ (List.prefix_append base below)]
    rw [follow, follow, hplace, step_append base hbelow]
    dsimp only
    rw [hsame _ (List.prefix_append base (step below name)), ih hrest]

/-- Where nothing changed below a place, a path that stays below it leads where it led. -/
theorem locate_congr {files later : FileSystem} {path further : String} {base : Path}
    (hbase : files.follow [] (names path) = .ok base)
    (hlater : later.follow [] (names path) = .ok base) (hrelative : isAbsolute further = false)
    (hstays : staysBelow 0 (names further) = true)
    (hsame : ∀ place, base <+: place → later.entry? place = files.entry? place) :
    later.locate (joinPath path further) = files.locate (joinPath path further) := by
  have hfollow := @follow_congr files later base [] (names further) hstays hsame
  rw [List.append_nil] at hfollow
  unfold locate
  rw [names_joinPath hrelative, follow_append, follow_append, hbase, hlater]
  dsimp only
  rw [hfollow]
  cases hplace : files.follow base (names further) with
  | error failure => rfl
  | ok place =>
    obtain ⟨-, hentry⟩ := eq_foldl_of_follow hbase (by simp)
    obtain ⟨rfl, -⟩ := eq_foldl_of_follow hplace hentry
    dsimp only
    rw [isDirectory, isDirectory, hsame]
    rw [foldl_step_of_staysBelow base hstays]
    exact List.prefix_append base _

end DesignCompiler.FileSystem
