import DesignCompiler.Proofs.Asset.CatalogFile
import DesignCompiler.Proofs.FileSystem.Extension
import Mathlib.Logic.Relation

/-!
# Flushing

A flush puts the lines of the pending entries into the catalog file and changes nothing else in it.
Several catalogs may share the file: what one of them wrote since another was loaded stands before
the lines of the other, so each path keeps the identifier it got first.
-/

namespace DesignCompiler.Asset

open Text

namespace Catalog

/-! ## Pending entries -/

/-- The pending paths stand in an entry on one line: they are not empty and hold neither a quote nor
a line break. -/
def Writable (catalog : Catalog) : Prop :=
  ∀ path name, catalog.pending.get? path = some name →
    path ≠ "" ∧ '\'' ∉ path.toList ∧ '\n' ∉ path.toList

theorem declared?_append (front back : List CatalogEntry) (path : String) :
    declared? (front ++ back) path = (declared? front path).or (declared? back path) := by
  unfold declared?
  rw [List.find?_append]
  cases front.find? _ <;> rfl

theorem declared?_eq_none_iff {entries : List CatalogEntry} {path : String} :
    declared? entries path = none ↔ ∀ entry ∈ entries, entry.path ≠ path := by
  simp [declared?]

theorem mem_pendingByName {catalog : Catalog} (hnodup : catalog.pending.keys.Nodup)
    {entry : CatalogEntry} :
    entry ∈ catalog.pendingByName ↔ catalog.pending.get? entry.path = some entry.name := by
  obtain ⟨name, path⟩ := entry
  rw [pendingByName, List.mem_mergeSort, ← Dictionary.mem_entries_iff hnodup, List.mem_map]
  constructor
  · rintro ⟨⟨known, value⟩, hmem, heq⟩
    cases heq
    exact hmem
  · exact fun hmem => ⟨_, hmem, rfl⟩

theorem length_pendingByName (catalog : Catalog) :
    catalog.pendingByName.length = catalog.pending.size := by
  rw [pendingByName, List.length_mergeSort, List.length_map, Dictionary.size]

theorem pendingByName_ne_nil {catalog : Catalog} (hpending : catalog.pending.isEmpty = false) :
    catalog.pendingByName ≠ [] := by
  intro hnil
  have hlength := catalog.length_pendingByName
  rw [hnil] at hlength
  have hempty : catalog.pending.entries = [] := List.eq_nil_of_length_eq_zero hlength.symm
  rw [Dictionary.isEmpty, hempty] at hpending
  cases hpending

/-- Whatever their order, the pending entries declare what is pending. -/
theorem declared?_pendingByName {catalog : Catalog} (hnodup : catalog.pending.keys.Nodup)
    (path : String) : declared? catalog.pendingByName path = catalog.pending.get? path := by
  cases hfind : catalog.pendingByName.find? fun entry => entry.path == path with
  | some entry =>
    have hpending := (mem_pendingByName hnodup).mp (List.mem_of_find?_eq_some hfind)
    have hpath := List.find?_some hfind
    rw [beq_iff_eq] at hpath
    rw [declared?, hfind, ← hpath, hpending]
    rfl
  | none =>
    rw [declared?, hfind, Option.map_none, eq_comm, Option.eq_none_iff_forall_ne_some]
    intro name hname
    have hmem : (⟨name, path⟩ : CatalogEntry) ∈ catalog.pendingByName :=
      (mem_pendingByName hnodup).mpr hname
    have hnot := List.find?_eq_none.mp hfind _ hmem
    simp at hnot

/-! ## Lines -/

theorem forwardSlashes_of_not_mem {text : List Char} (htext : '\\' ∉ text) :
    forwardSlashes text = text := by
  unfold forwardSlashes replaceChar
  rw [List.flatMap_congr (g := fun c => [c])]
  · exact List.flatMap_singleton' text
  · intro c hc
    rw [if_neg]
    rw [beq_iff_eq]
    rintro rfl
    exact htext hc

theorem toList_line (entry : CatalogEntry) :
    entry.line.toList = [' ', ' '] ++ (CatalogEntry.head entry.name.toList [' '] [' '] ++
      '\'' :: entry.path.toList ++ ['\'', ';'] ++ []) := by
  have htext : entry.line.toList = "  static const String ".toList ++ entry.name.toList ++
      " = '".toList ++ entry.path.toList ++ "';".toList := by
    unfold CatalogEntry.line
    rw [String.toList_append, String.toList_append, String.toList_append, String.toList_append]
  have hconstants : "  static const String ".toList ++ entry.name.toList ++ " = '".toList ++
      entry.path.toList ++ "';".toList = [' ', ' '] ++ CatalogEntry.opening ++ entry.name.toList ++
      [' ', '=', ' ', '\''] ++ entry.path.toList ++ ['\'', ';'] := rfl
  rw [htext, hconstants]
  simp [CatalogEntry.head]

theorem isWritten_line {entry : CatalogEntry} (hname : IsIdentifier entry.name)
    (hne : entry.path ≠ "") (hquote : '\'' ∉ entry.path.toList) :
    CatalogEntry.IsWritten entry.name.toList [' '] [' '] entry.path.toList where
  name_ne := hname.toList_ne_nil
  isWord c hc := isWord_of_isIdentifierChar (hname.forall_isIdentifierChar c hc)
  blank₁ := by decide
  blank₂ := by decide
  path_ne := by simpa using hne
  path_quote := hquote

theorem ofChars_toList {entry : CatalogEntry} (hslash : '\\' ∉ entry.path.toList) :
    CatalogEntry.ofChars entry.name.toList entry.path.toList = entry := by
  rw [CatalogEntry.ofChars, forwardSlashes_of_not_mem hslash, String.ofList_toList,
    String.ofList_toList]

/-- The line of an entry is read as this entry. -/
theorem lineDeclares_line {entry : CatalogEntry} (hname : IsIdentifier entry.name)
    (hne : entry.path ≠ "") (hquote : '\'' ∉ entry.path.toList)
    (hslash : '\\' ∉ entry.path.toList) : LineDeclares entry.line.toList [entry] := by
  have hline := @LineDeclares.entry [' ', ' '] _ _ _ _ [] (isWritten_line hname hne hquote)
    (by decide) (by simp)
  rwa [ofChars_toList hslash, ← toList_line] at hline

private theorem break_not_mem_line {entry : CatalogEntry} (hname : IsIdentifier entry.name)
    (hpath : '\n' ∉ entry.path.toList) : '\n' ∉ entry.line.toList := by
  have hbreak : '\n' ∉ entry.name.toList := fun hmem =>
    absurd (hname.forall_isIdentifierChar _ hmem) (by decide)
  have hopening : '\n' ∉ CatalogEntry.opening := by decide
  rw [toList_line]
  simp [CatalogEntry.head, hopening, hbreak, hpath]

/-- The lines that a flush puts into the file. -/
def pendingLines (catalog : Catalog) : List Char :=
  ['\n'].intercalate (catalog.pendingByName.map fun entry => entry.line.toList)

theorem textDeclares_pendingLines {start catalog : Catalog} (hgrown : start.GrownFrom catalog)
    (hwritable : catalog.Writable) (hpending : catalog.pending.isEmpty = false) :
    TextDeclares catalog.pendingLines catalog.pendingByName := by
  apply textDeclares_intercalate
  · exact pendingByName_ne_nil hpending
  · intro entry hentry
    have hget := (mem_pendingByName hgrown.nodup).mp hentry
    obtain ⟨hne, hquote, -⟩ := hwritable _ _ hget
    exact lineDeclares_line (hgrown.isIdentifier _ _ hget) hne hquote
      (hgrown.not_backslash _ _ hget)
  · intro entry hentry
    have hget := (mem_pendingByName hgrown.nodup).mp hentry
    obtain ⟨-, -, hbreak⟩ := hwritable _ _ hget
    exact break_not_mem_line (hgrown.isIdentifier _ _ hget) hbreak

/-! ## One flush -/

/-- The place in a catalog file that a flush writes at: the last line break before a closing
brace. -/
structure ClosesAt (source : String) (front tail : List Char) : Prop where
  eq_append : source.toList = front ++ ['\n', '\x7d'] ++ tail
  last : ¬ ['\n', '\x7d'] <:+: '\x7d' :: tail

theorem ClosesAt.toList_eq {source : String} {front tail : List Char}
    (hcloses : ClosesAt source front tail) : source.toList = front ++ '\n' :: '\x7d' :: tail := by
  rw [hcloses.eq_append]
  simp

theorem ClosesAt.isInfix {source : String} {front tail : List Char}
    (hcloses : ClosesAt source front tail) : ['\n', '\x7d'] <:+: source.toList :=
  ⟨front, tail, hcloses.eq_append.symm⟩

theorem cutLast?_closing_eq_none_iff {text : List Char} :
    cutLast? ['\n', '\x7d'] text = none ↔ ¬ ['\n', '\x7d'] <:+: text := by
  rw [cutLast?, Option.map_eq_none_iff, cut?_eq_none_iff, List.reverse_infix]

theorem exists_closesAt {source : String} (hclosed : ['\n', '\x7d'] <:+: source.toList) :
    ∃ front tail, ClosesAt source front tail := by
  cases hcut : cutLast? ['\n', '\x7d'] source.toList with
  | none => exact absurd hclosed (cutLast?_closing_eq_none_iff.mp hcut)
  | some parts =>
    obtain ⟨front, tail⟩ := parts
    obtain ⟨heq, hlast⟩ := (cutLast?_eq_some_iff (by simp)).mp hcut
    exact ⟨front, tail, heq, hlast⟩

/-- The file with the pending lines of a catalog put in: each path has the identifier it had, other
pending paths have their pending ones, and there is no other path. -/
structure WritesPending (catalog : Catalog) (source written : String) : Prop where
  inserts : ∃ front tail, ClosesAt source front tail ∧
    written.toList = front ++ '\n' :: catalog.pendingLines ++ ['\n', '\x7d'] ++ tail
  get? : ∀ path, (ofSource written).identifiers.get? path =
    ((ofSource source).identifiers.get? path).or (catalog.pending.get? path)

/-- The catalog with nothing pending. -/
def settled (catalog : Catalog) : Catalog := { catalog with pending := .empty }

theorem flush_of_isEmpty {catalog : Catalog} (hpending : catalog.pending.isEmpty = true)
    (files : FileSystem) (path : String) : catalog.flush files path = (.ok 0, catalog, files) := by
  rw [flush, if_pos hpending]

/-- Without a closing brace nothing is written, and what is pending stays so. -/
theorem flush_of_not_closed {catalog : Catalog} {files : FileSystem} {path source : String}
    (hread : files.readText path = .ok source) (hclosed : ¬ ['\n', '\x7d'] <:+: source.toList) :
    catalog.flush files path = (.ok 0, catalog, files) := by
  unfold flush
  split
  · rfl
  · rw [hread]
    dsimp only
    rw [insertLines?, cutLast?_closing_eq_none_iff.mpr hclosed]
    rfl

theorem flush_of_closesAt {catalog : Catalog} {files : FileSystem} {path source : String}
    {front tail : List Char} (hpending : catalog.pending.isEmpty = false)
    (hread : files.readText path = .ok source) (hcloses : ClosesAt source front tail) :
    ∃ written later, catalog.flush files path = (.ok catalog.pending.size, catalog.settled, later) ∧
      later.readText path = .ok written ∧
      written.toList = front ++ '\n' :: catalog.pendingLines ++ ['\n', '\x7d'] ++ tail := by
  have hcut : cutLast? ['\n', '\x7d'] source.toList = some (front, tail) :=
    (cutLast?_eq_some_iff (by simp)).mpr ⟨hcloses.eq_append, hcloses.last⟩
  have hinsert : ∃ written, insertLines? source catalog.pendingByName = some written ∧
      written.toList = front ++ '\n' :: catalog.pendingLines ++ ['\n', '\x7d'] ++ tail := by
    refine ⟨_, by rw [insertLines?, hcut]; rfl, ?_⟩
    simp [pendingLines, String.toList_intercalate]
    rfl
  obtain ⟨written, hwritten, hlist⟩ := hinsert
  obtain ⟨-, later, -, -, -, hoverwrite, hagain⟩ := FileSystem.exists_overwrite hread written
  refine ⟨written, later, ?_, hagain, hlist⟩
  rw [flush, if_neg (by simpa using hpending), hread]
  dsimp only
  rw [hwritten]
  dsimp only
  rw [hoverwrite, length_pendingByName]
  rfl

/-- A flush of a catalog whose file can be read changes nothing, or puts the pending lines in. -/
theorem flush_cases {catalog : Catalog} {files : FileSystem} {path source : String}
    (hread : files.readText path = .ok source) :
    catalog.flush files path = (.ok 0, catalog, files) ∨
      ∃ front tail written later, catalog.pending.isEmpty = false ∧ ClosesAt source front tail ∧
        catalog.flush files path = (.ok catalog.pending.size, catalog.settled, later) ∧
        later.readText path = .ok written ∧
        written.toList = front ++ '\n' :: catalog.pendingLines ++ ['\n', '\x7d'] ++ tail := by
  cases hpending : catalog.pending.isEmpty with
  | true => exact .inl (flush_of_isEmpty hpending files path)
  | false =>
    by_cases hclosed : ['\n', '\x7d'] <:+: source.toList
    · obtain ⟨front, tail, hcloses⟩ := exists_closesAt hclosed
      obtain ⟨written, later, hflush, hwritten, hlist⟩ := flush_of_closesAt hpending hread hcloses
      exact .inr ⟨front, tail, written, later, rfl, hcloses, hflush, hwritten, hlist⟩
    · exact .inl (flush_of_not_closed hread hclosed)

/-- What stands behind the lines put in was declared before the catalog was loaded. -/
def KnowsTail (start : Catalog) (tail : List Char) : Prop :=
  ∀ entries, TextDeclares ('\x7d' :: tail) entries →
    ∀ entry ∈ entries, (start.identifiers.get? entry.path).isSome

theorem declares_inserted {start catalog : Catalog} {source written : String}
    {front tail : List Char} (htext : IsCatalogText source.toList)
    (hcloses : ClosesAt source front tail) (hgrown : start.GrownFrom catalog)
    (htail : start.KnowsTail tail) (hwritable : catalog.Writable)
    (hpending : catalog.pending.isEmpty = false)
    (hwritten : written.toList = front ++ '\n' :: catalog.pendingLines ++ ['\n', '\x7d'] ++ tail) :
    IsCatalogText written.toList ∧ WritesPending catalog source written := by
  obtain ⟨entries, hentries⟩ := isCatalogText_iff.mp htext
  obtain ⟨before, after, hbefore, hafter, rfl⟩ :=
    textDeclares_append_iff.mp (hcloses.toList_eq ▸ hentries)
  have hlines := textDeclares_pendingLines hgrown hwritable hpending
  have hdeclares : TextDeclares written.toList (before ++ (catalog.pendingByName ++ after)) := by
    rw [show written.toList = front ++ '\n' :: (catalog.pendingLines ++ '\n' :: '\x7d' :: tail) by
      rw [hwritten]; simp]
    exact textDeclares_append_iff.mpr
      ⟨before, _, hbefore, textDeclares_append_iff.mpr ⟨_, after, hlines, hafter, rfl⟩, rfl⟩
  refine ⟨isCatalogText_iff.mpr ⟨_, hdeclares⟩, ⟨front, tail, hcloses, hwritten⟩, fun path => ?_⟩
  rw [get?_ofSource, get?_ofSource, hentries.declarations_eq, hdeclares.declarations_eq,
    declared?_append, declared?_append, declared?_append, declared?_pendingByName hgrown.nodup]
  cases hpath : catalog.pending.get? path with
  | none => simp
  | some name =>
    -- A pending path was unknown when the catalog was loaded, so the tail does not declare it.
    have hunknown := ((hgrown.pending_iff path name).mp hpath).1
    have hnone : declared? after path = none := by
      rw [declared?_eq_none_iff]
      rintro entry hentry rfl
      have hknown := htail after hafter entry hentry
      rw [hunknown] at hknown
      cases hknown
    simp [hnone]

theorem KnowsTail.of_keeps {start later : Catalog} {tail : List Char} (htail : start.KnowsTail tail)
    (hkeeps : ∀ path name, start.identifiers.get? path = some name →
      later.identifiers.get? path = some name) : later.KnowsTail tail := by
  intro entries hentries entry hentry
  obtain ⟨name, hname⟩ := Option.isSome_iff_exists.mp (htail entries hentries entry hentry)
  exact Option.isSome_iff_exists.mpr ⟨name, hkeeps _ _ hname⟩

/-! ## Catalogs that share a file -/

/-- The files and the catalogs that were loaded from one of them. -/
structure Session where
  files : FileSystem
  catalogs : List Catalog

/-- A catalog is loaded from the file, is asked for the identifier of an asset, or is flushed. -/
inductive Session.Step (path : String) : Session → Session → Prop where
  | load {files : FileSystem} {catalogs : List Catalog} {catalog : Catalog} :
      load? files path = some catalog →
      Step path ⟨files, catalogs⟩ ⟨files, catalog :: catalogs⟩
  | resolve {files : FileSystem} {before after : List Catalog} (catalog : Catalog)
      (asset : String) :
      Step path ⟨files, before ++ catalog :: after⟩
        ⟨files, before ++ (catalog.resolve asset).2 :: after⟩
  | flush {files : FileSystem} {before after : List Catalog} {catalog : Catalog} :
      catalog.Writable →
      Step path ⟨files, before ++ catalog :: after⟩
        ⟨(catalog.flush files path).2.2, before ++ (catalog.flush files path).2.1 :: after⟩

/-- Any number of steps. -/
def Session.Run (path : String) : Session → Session → Prop :=
  Relation.ReflTransGen (Session.Step path)

/-- What the steps preserve: the file is a catalog file that ends as it did, and each catalog has
grown out of one that knew what stands there. -/
structure Session.Intact (path : String) (tail : List Char) (session : Session) (source : String) :
    Prop where
  read : session.files.readText path = .ok source
  text : IsCatalogText source.toList
  closes : ∃ front, ClosesAt source front tail
  grown : ∀ catalog ∈ session.catalogs, ∃ start : Catalog, start.GrownFrom catalog ∧
    start.KnowsTail tail

private theorem knowsTail_ofSource {source : String} {front tail : List Char}
    (htext : IsCatalogText source.toList) (hcloses : ClosesAt source front tail) :
    (ofSource source).KnowsTail tail := by
  intro after hafter entry hentry
  obtain ⟨entries, hentries⟩ := isCatalogText_iff.mp htext
  obtain ⟨before, -, hbefore, -, -⟩ := textDeclares_append_iff.mp (hcloses.toList_eq ▸ hentries)
  have hall : TextDeclares source.toList (before ++ after) := by
    rw [hcloses.toList_eq]
    exact textDeclares_append_iff.mpr ⟨before, after, hbefore, hafter, rfl⟩
  rw [Option.isSome_iff_ne_none, get?_ofSource, hall.declarations_eq, Ne, declared?_eq_none_iff]
  intro hnone
  exact hnone entry (List.mem_append_right before hentry) rfl

namespace Session

variable {path : String} {tail : List Char} {source : String}

/-- What a flush of one of the catalogs does. -/
theorem Intact.flush {session : Session} (hintact : session.Intact path tail source)
    {catalog : Catalog} (hmem : catalog ∈ session.catalogs) (hwritable : catalog.Writable)
    (hpending : catalog.pending.isEmpty = false) :
    ∃ written later, catalog.flush session.files path =
        (.ok catalog.pending.size, catalog.settled, later) ∧
      later.readText path = .ok written ∧ IsCatalogText written.toList ∧
      (∃ front, ClosesAt written front tail) ∧ WritesPending catalog source written := by
  obtain ⟨front, hcloses⟩ := hintact.closes
  obtain ⟨start, hgrown, htail⟩ := hintact.grown catalog hmem
  obtain ⟨written, later, hflush, hread, hlist⟩ :=
    flush_of_closesAt hpending hintact.read hcloses
  obtain ⟨htext, hwrites⟩ :=
    declares_inserted hintact.text hcloses hgrown htail hwritable hpending hlist
  exact ⟨written, later, hflush, hread, htext, ⟨_, hlist, hcloses.last⟩, hwrites⟩

/-- A path keeps its identifier. -/
def Keeps (source later : String) : Prop :=
  ∀ path name, (ofSource source).identifiers.get? path = some name →
    (ofSource later).identifiers.get? path = some name

private theorem forall_mem_of_replaced {P : Catalog → Prop} {before after : List Catalog}
    {old new : Catalog} (hall : ∀ catalog ∈ before ++ old :: after, P catalog)
    (hnew : P old → P new) :
    ∀ catalog ∈ before ++ new :: after, P catalog := by
  rw [List.forall_mem_append, List.forall_mem_cons] at hall ⊢
  exact ⟨hall.1, hnew hall.2.1, hall.2.2⟩

theorem Intact.step {session later : Session} (hintact : session.Intact path tail source)
    (hstep : session.Step path later) :
    ∃ written, later.Intact path tail written ∧ Keeps source written := by
  cases hstep with
  | @load files catalogs catalog hload =>
    refine ⟨source, ⟨hintact.read, hintact.text, hintact.closes, ?_⟩, fun _ _ h => h⟩
    obtain rfl : ofSource source = catalog := by
      have hread : files.readText path = .ok source := hintact.read
      rw [load?, hread] at hload
      exact Option.some.inj hload
    obtain ⟨front, hcloses⟩ := hintact.closes
    intro other hother
    obtain rfl | hold := List.mem_cons.mp hother
    · exact ⟨_, .refl (pending_ofSource source), knowsTail_ofSource hintact.text hcloses⟩
    · exact hintact.grown other hold
  | @resolve files before after catalog asset =>
    refine ⟨source, ⟨hintact.read, hintact.text, hintact.closes, ?_⟩, fun _ _ h => h⟩
    apply forall_mem_of_replaced hintact.grown
    rintro ⟨start, hgrown, htail⟩
    exact ⟨start, hgrown.resolve asset, htail⟩
  | @flush files before after catalog hwritable =>
    cases hpending : catalog.pending.isEmpty with
    | true =>
      rw [flush_of_isEmpty hpending]
      exact ⟨source, hintact, fun _ _ h => h⟩
    | false =>
      obtain ⟨written, later, hflush, hread, htext, hcloses, hwrites⟩ :=
        hintact.flush (by simp) hwritable hpending
      rw [hflush]
      refine ⟨written, ⟨hread, htext, hcloses, ?_⟩, fun asset name hname => ?_⟩
      · apply forall_mem_of_replaced hintact.grown
        -- What was pending is now known, so nothing that is allocated later is in the tail.
        rintro ⟨start, hgrown, htail⟩
        exact ⟨_, .refl rfl, htail.of_keeps hgrown.keeps⟩
      · rw [hwrites.get?, hname, Option.some_or]

theorem Intact.run {session later : Session} (hintact : session.Intact path tail source)
    (hrun : session.Run path later) :
    ∃ written, later.Intact path tail written ∧ Keeps source written := by
  induction hrun with
  | refl => exact ⟨source, hintact, fun _ _ h => h⟩
  | tail _ hstep ih =>
    obtain ⟨middle, hmiddle, hkeeps⟩ := ih
    obtain ⟨written, hwritten, hkeeps'⟩ := hmiddle.step hstep
    exact ⟨written, hwritten, fun asset name hname => hkeeps' _ _ (hkeeps _ _ hname)⟩

end Session

/-- Whatever catalogs are loaded from a catalog file, asked and flushed, and in whatever order, no
path of the file ever loses or changes its identifier. At any time a flush of any of them inserts
its pending lines before the last closing brace, which gives each of its paths that the file does
not hold its pending identifier and adds no other path, and leaves nothing for a second flush. -/
theorem flush_of_run {path source : String} {files : FileSystem} {earlier later : Session}
    (hread : files.readText path = .ok source) (htext : IsCatalogText source.toList)
    (hclosed : ['\n', '\x7d'] <:+: source.toList) (hearlier : Session.Run path ⟨files, []⟩ earlier)
    (hlater : earlier.Run path later) :
    ∃ before current, earlier.files.readText path = .ok before ∧
      later.files.readText path = .ok current ∧ Session.Keeps source before ∧
      Session.Keeps before current ∧
      ∀ catalog ∈ later.catalogs, catalog.Writable → catalog.pending.isEmpty = false →
        ∃ written files, catalog.flush later.files path =
            (.ok catalog.pending.size, catalog.settled, files) ∧
          files.readText path = .ok written ∧ WritesPending catalog current written ∧
          catalog.settled.flush files path = (.ok 0, catalog.settled, files) := by
  obtain ⟨front, tail, hcloses⟩ := exists_closesAt hclosed
  have hstart : Session.Intact path tail ⟨files, []⟩ source :=
    ⟨hread, htext, ⟨front, hcloses⟩, by simp⟩
  obtain ⟨before, hbefore, hkeeps⟩ := hstart.run hearlier
  obtain ⟨current, hcurrent, hkeeps'⟩ := hbefore.run hlater
  refine ⟨before, current, hbefore.read, hcurrent.read, hkeeps, hkeeps', ?_⟩
  intro catalog hmem hwritable hpending
  obtain ⟨written, last, hflush, hwritten, -, -, hwrites⟩ :=
    hcurrent.flush hmem hwritable hpending
  exact ⟨written, last, hflush, hwritten, hwrites, flush_of_isEmpty rfl last path⟩

/-- A catalog file without entries. -/
def bareSource : String := "class AppAssets \x7b\n\x7d\n"

/-- The files with nothing but a catalog file without entries. -/
def bareFiles : FileSystem := ⟨[(["app_assets.dart"], .file (.text bareSource))]⟩

private theorem readText_bareFiles : bareFiles.readText "app_assets.dart" = .ok bareSource := by
  rw [FileSystem.readText_eq_ok_iff]
  exact ⟨["app_assets.dart"], by decide, rfl⟩

private theorem closesAt_bareSource : ClosesAt bareSource "class AppAssets \x7b".toList ['\n'] := by
  constructor <;> decide

private theorem run_bareFiles (asset : String) :
    Session.Run "app_assets.dart" ⟨bareFiles, []⟩
      ⟨bareFiles, [((ofSource bareSource).resolve asset).2]⟩ := by
  have hload : load? bareFiles "app_assets.dart" = some (ofSource bareSource) := by
    rw [load?, readText_bareFiles]
    rfl
  apply Relation.ReflTransGen.trans (.single (.load hload))
  exact .single (@Session.Step.resolve _ _ [] [] (ofSource bareSource) asset)

theorem flush_of_run_logo :
    ∃ written files,
      ((ofSource bareSource).resolve "logo.svg").2.flush bareFiles "app_assets.dart" =
        (.ok 1, ((ofSource bareSource).resolve "logo.svg").2.settled, files) ∧
      files.readText "app_assets.dart" = .ok written ∧
      WritesPending ((ofSource bareSource).resolve "logo.svg").2 bareSource written := by
  have hpending : ((ofSource bareSource).resolve "logo.svg").2.pending =
      ⟨[("logo.svg", "logoSvg")]⟩ := congrArg Dictionary.mk (by decide +kernel)
  have htext : IsCatalogText bareSource.toList := by
    intro line hline
    exact ⟨[], .other fun hquote => absurd (mem_of_mem_splitOn hline hquote) (by decide)⟩
  obtain ⟨_, current, hbefore, hcurrent, -, -, hall⟩ := flush_of_run readText_bareFiles htext
    closesAt_bareSource.isInfix .refl (run_bareFiles "logo.svg")
  obtain rfl : bareSource = current := Except.ok.inj (readText_bareFiles.symm.trans hcurrent)
  obtain ⟨written, files, hflush, hread, hwrites, -⟩ := hall _ List.mem_cons_self
    (by
      intro path name hname
      rw [hpending] at hname
      simp only [Dictionary.get?, Dictionary.lookup, beq_iff_eq,
        Option.ite_none_right_eq_some] at hname
      obtain ⟨rfl, -⟩ := hname
      decide)
    (by rw [hpending]; rfl)
  rw [hpending] at hflush
  exact ⟨written, files, hflush, hread, hwrites⟩

/-- An empty path is written, but an entry with an empty path is not read. -/
theorem undeclared_of_empty_path :
    ((ofSource bareSource).resolve "").2.pending.entries = [("", "assetGenerated")] ∧
      ∃ written files, ((ofSource bareSource).resolve "").2.flush bareFiles "app_assets.dart" =
          (.ok 1, ((ofSource bareSource).resolve "").2.settled, files) ∧
        files.readText "app_assets.dart" = .ok written ∧
        (ofSource written).identifiers.get? "" = none := by
  have hentries :
      ((ofSource bareSource).resolve "").2.pending.entries = [("", "assetGenerated")] := by
    decide +kernel
  have hpending : ((ofSource bareSource).resolve "").2.pending = ⟨[("", "assetGenerated")]⟩ :=
    congrArg Dictionary.mk hentries
  obtain ⟨written, files, hflush, hread, hlist⟩ := flush_of_closesAt (by rw [hpending]; rfl)
    readText_bareFiles closesAt_bareSource
  have hlines : ((ofSource bareSource).resolve "").2.pendingLines =
      "  static const String assetGenerated = '';".toList := by
    rw [pendingLines, pendingByName, hpending, List.map_singleton, List.mergeSort_singleton]
    decide
  rw [hpending] at hflush
  refine ⟨hentries, written, files, hflush, hread, ?_⟩
  rw [get?_ofSource, declarations, hlist, hlines]
  decide +kernel

end Catalog

end DesignCompiler.Asset
