import DesignCompiler.Proofs.Asset.Flushing
import DesignCompiler.Proofs.Dart.Literal

/-!
# Declarations in a catalog file

An identifier is declared with a path when the file holds an entry with it whose literal denotes the
path. What the file held before a flush it holds afterwards, and the lines that a flush puts in are
entries too; but they hold the paths as they are, so only a path that needs no escape is denoted.
-/

namespace DesignCompiler.Asset

open Dart Text

/-- The text holds an entry with this name, and with this between its quotes. -/
def HoldsEntry (text name literal : List Char) : Prop :=
  ∃ before gap₁ gap₂ after, (∀ c ∈ name, isWord c = true) ∧ allBlank gap₁ = true ∧
    allBlank gap₂ = true ∧
    text = before ++ (CatalogEntry.head name gap₁ gap₂ ++ '\'' :: literal ++ ['\'', ';']) ++ after

/-- The file declares the name with a literal that denotes the path. -/
def Declares (source name path : String) : Prop :=
  ∃ literal, HoldsEntry source.toList name.toList literal ∧ LiteralDenotes literal path.toList

namespace HoldsEntry

theorem of_isInfix {part text name literal : List Char} (hentry : HoldsEntry part name literal)
    (hpart : part <:+: text) : HoldsEntry text name literal := by
  obtain ⟨before, gap₁, gap₂, after, hname, hgap₁, hgap₂, rfl⟩ := hentry
  obtain ⟨front, back, rfl⟩ := hpart
  exact ⟨front ++ before, gap₁, gap₂, after ++ back, hname, hgap₁, hgap₂, by simp⟩

theorem literal_subset {text name literal : List Char} (hentry : HoldsEntry text name literal) :
    literal ⊆ text := by
  obtain ⟨before, gap₁, gap₂, after, -, -, -, rfl⟩ := hentry
  intro c hc
  simp [hc]

/-- No entry runs over a line break before a closing brace, unless its path does. -/
private theorem not_closing {name gap₁ gap₂ literal front back : List Char}
    (hname : ∀ c ∈ name, isWord c = true) (hgap₁ : allBlank gap₁ = true)
    (hgap₂ : allBlank gap₂ = true) (hliteral : '\n' ∉ literal) :
    CatalogEntry.head name gap₁ gap₂ ++ '\'' :: literal ++ ['\'', ';'] ≠
      front ++ '\n' :: '\x7d' :: back := by
  have hhead : '\x7d' ∉ CatalogEntry.head name gap₁ gap₂ :=
    CatalogEntry.not_mem_head hname hgap₁ hgap₂ (by decide) (by decide) (by decide)
  intro heq
  have hsplit : CatalogEntry.head name gap₁ gap₂ ++ '\'' :: (literal ++ ['\'', ';']) =
      (front ++ ['\n']) ++ '\x7d' :: back := by
    simpa using heq
  obtain ⟨rest, hrest, hback⟩ | ⟨rest, hrest, hback⟩ := List.append_eq_append_iff.mp hsplit
  · -- The line break stands at the end of what follows the head.
    obtain rfl | ⟨others, c, rfl⟩ := rest.eq_nil_or_concat'
    · cases hback
    · rw [← List.append_assoc] at hrest
      obtain ⟨-, hc⟩ := List.append_inj' hrest rfl
      obtain rfl := (List.cons.inj hc).1
      have hmem : '\n' ∈ '\'' :: (literal ++ ['\'', ';']) := by
        rw [hback]
        simp
      simp [hliteral] at hmem
  · cases rest with
    | nil => cases hback
    | cons c rest =>
      obtain rfl := (List.cons.inj hback).1
      apply hhead
      rw [hrest]
      simp

/-- Text put in before a closing brace leaves the entries whole. -/
theorem insert {front inserted tail name literal : List Char} (hliteral : '\n' ∉ literal)
    (hentry : HoldsEntry (front ++ ['\n', '\x7d'] ++ tail) name literal) :
    HoldsEntry (front ++ inserted ++ ['\n', '\x7d'] ++ tail) name literal := by
  obtain ⟨before, gap₁, gap₂, after, hname, hgap₁, hgap₂, heq⟩ := hentry
  have hheld : ∀ before after, HoldsEntry
      (before ++ (CatalogEntry.head name gap₁ gap₂ ++ '\'' :: literal ++ ['\'', ';']) ++ after)
      name literal := fun before after =>
    ⟨before, gap₁, gap₂, after, hname, hgap₁, hgap₂, rfl⟩
  have hclosing : ∀ front back, CatalogEntry.head name gap₁ gap₂ ++ '\'' :: literal ++ ['\'', ';'] ≠
      front ++ '\n' :: '\x7d' :: back := fun _ _ => not_closing hname hgap₁ hgap₂ hliteral
  have hlast : ∀ front, CatalogEntry.head name gap₁ gap₂ ++ '\'' :: literal ++ ['\'', ';'] ≠
      front ++ ['\n'] := by
    intro front hfront
    have hends : CatalogEntry.head name gap₁ gap₂ ++ '\'' :: literal ++ ['\''] ++ [';'] =
        front ++ ['\n'] := by
      simpa using hfront
    obtain ⟨-, hc⟩ := List.append_inj' hends rfl
    cases hc
  generalize CatalogEntry.head name gap₁ gap₂ ++ '\'' :: literal ++ ['\'', ';'] = entry at *
  rw [List.append_assoc, List.append_assoc] at heq
  obtain ⟨rest, rfl, hback⟩ | ⟨rest, rfl, hback⟩ := List.append_eq_append_iff.mp heq
  · have hnew := hheld (front ++ inserted ++ rest) after
    simp only [List.append_assoc] at hnew
    rw [← hback] at hnew
    simpa using hnew
  obtain ⟨more, rfl, rfl⟩ | ⟨more, rfl, hmore⟩ := List.append_eq_append_iff.mp hback
  · have hnew := hheld before (more ++ inserted ++ ['\n', '\x7d'] ++ tail)
    simpa using hnew
  · match more, hmore with
    | [], _ =>
      have hnew := hheld before (inserted ++ ['\n', '\x7d'] ++ tail)
      simpa using hnew
    | [c], hmore =>
      obtain rfl := (List.cons.inj hmore).1
      exact absurd rfl (hlast rest)
    | c :: d :: more, hmore =>
      obtain ⟨rfl, hrest⟩ := List.cons.inj hmore
      obtain ⟨rfl, -⟩ := List.cons.inj hrest
      exact absurd rfl (hclosing rest more)

/-- What the reader finds in a file the file holds. -/
theorem exists_of_mem_declarations {source : String} {entry : CatalogEntry}
    (hentry : entry ∈ Catalog.declarations source) :
    ∃ literal, HoldsEntry source.toList entry.name.toList literal ∧
      entry.path = String.ofList (forwardSlashes literal) := by
  obtain ⟨front, back, before, length, hsource, hmatch⟩ := exists_of_mem_allMatches hentry
  obtain ⟨name, gap₁, gap₂, literal, rest, hwritten, rfl, rfl⟩ :=
    CatalogEntry.exists_of_at?_eq_some hmatch
  refine ⟨literal, ?_, rfl⟩
  rw [CatalogEntry.ofChars, String.toList_ofList, hsource]
  exact ⟨front, gap₁, gap₂, rest, hwritten.isWord, hwritten.blank₁, hwritten.blank₂, by simp⟩

/-- The line of an entry holds it, with its path as it is. -/
theorem of_line {entry : CatalogEntry} (hname : IsIdentifier entry.name) :
    HoldsEntry entry.line.toList entry.name.toList entry.path.toList := by
  refine ⟨[' ', ' '], [' '], [' '], [], fun c hc => ?_, by decide, by decide, ?_⟩
  · exact isWord_of_isIdentifierChar (hname.forall_isIdentifierChar c hc)
  · rw [Catalog.toList_line]
    simp

end HoldsEntry

namespace Catalog

theorem isInfix_pendingLines {catalog : Catalog} {entry : CatalogEntry}
    (hentry : entry ∈ catalog.pendingByName) : entry.line.toList <:+: catalog.pendingLines := by
  apply isInfix_intercalate
  exact List.mem_map_of_mem hentry

/-- What it takes for the file to declare a path: the path needs no escape in a literal, the file
spells it without backslashes, and it has a closing brace unless it declares the path already. -/
structure IsDeclarable (source path : String) : Prop where
  marks : ∀ c ∈ path.toList, c ∉ literalMarks
  spelled : ∀ name literal, HoldsEntry source.toList name literal →
    String.ofList (forwardSlashes literal) = path → '\\' ∉ literal
  closed : ['\n', '\x7d'] <:+: source.toList ∨ ((ofSource source).identifiers.get? path).isSome

theorem IsDeclarable.normalPath_eq {source path : String} (hpath : IsDeclarable source path) :
    normalPath path = path := by
  have hslash : '\\' ∉ path.toList := fun hmem => hpath.marks _ hmem (by decide)
  rw [normalPath, onChars, forwardSlashes_of_not_mem hslash, String.ofList_toList]

private theorem holdsEntry_of_known {source path name : String} (hpath : IsDeclarable source path)
    (hname : (ofSource source).identifiers.get? path = some name) :
    HoldsEntry source.toList name.toList path.toList := by
  rw [get?_ofSource] at hname
  obtain ⟨entry, hfind, rfl⟩ := Option.map_eq_some_iff.mp hname
  obtain ⟨literal, hholds, hliteral⟩ :=
    HoldsEntry.exists_of_mem_declarations (List.mem_of_find?_eq_some hfind)
  have hfound := List.find?_some hfind
  rw [beq_iff_eq, hliteral] at hfound
  have hslash := hpath.spelled _ _ hholds hfound
  rw [forwardSlashes_of_not_mem hslash] at hfound
  rwa [← hfound, String.toList_ofList]

/-- After a flush the file declares every identifier of the catalog whose path is declarable. -/
theorem exists_declares_flush {catalog : Catalog} {files : FileSystem} {file source : String}
    (hread : files.readText file = .ok source) (hgrown : (ofSource source).GrownFrom catalog) :
    ∃ written, (catalog.flush files file).2.2.readText file = .ok written ∧
      ∀ path name, catalog.identifiers.get? path = some name → IsDeclarable source path →
        Declares written name path := by
  -- What the file declared before it holds as long as nothing is put into an entry.
  have hknown : ∀ path name, catalog.identifiers.get? path = some name →
      IsDeclarable source path → ((ofSource source).identifiers.get? path).isSome →
      HoldsEntry source.toList name.toList path.toList := by
    intro path name hname hpath hstart
    obtain ⟨known, hget⟩ := Option.isSome_iff_exists.mp hstart
    obtain rfl : known = name := Option.some.inj ((hgrown.keeps _ _ hget).symm.trans hname)
    exact holdsEntry_of_known hpath hget
  by_cases hclosed : ['\n', '\x7d'] <:+: source.toList
  · cases hpending : catalog.pending.isEmpty with
    | true =>
      rw [flush_of_isEmpty hpending]
      refine ⟨source, hread, fun path name hname hpath => ?_⟩
      refine ⟨path.toList, hknown path name hname hpath ?_, literalDenotes_self hpath.marks⟩
      rw [Option.isSome_iff_ne_none]
      intro hstart
      have hget := (hgrown.pending_iff path name).mpr ⟨hstart, hname⟩
      rw [Dictionary.isEmpty, List.isEmpty_iff] at hpending
      rw [Dictionary.get?, hpending] at hget
      cases hget
    | false =>
      obtain ⟨front, tail, hcloses⟩ := exists_closesAt hclosed
      obtain ⟨written, later, hflush, hagain, hlist⟩ := flush_of_closesAt hpending hread hcloses
      rw [hflush]
      refine ⟨written, hagain, fun path name hname hpath => ?_⟩
      refine ⟨path.toList, ?_, literalDenotes_self hpath.marks⟩
      rw [hlist]
      cases hstart : (ofSource source).identifiers.get? path with
      | some known =>
        have hheld := hknown path name hname hpath (by rw [hstart]; rfl)
        rw [hcloses.eq_append] at hheld
        exact hheld.insert fun hmem => hpath.marks _ hmem (by decide)
      | none =>
        have hget : catalog.pending.get? path = some name :=
          (hgrown.pending_iff path name).mpr ⟨hstart, hname⟩
        have hmem : (⟨name, path⟩ : CatalogEntry) ∈ catalog.pendingByName :=
          (mem_pendingByName hgrown.nodup).mpr hget
        have hline := @HoldsEntry.of_line ⟨name, path⟩ (hgrown.isIdentifier _ _ hget)
        apply hline.of_isInfix
        apply (isInfix_pendingLines hmem).trans
        exact ⟨front ++ ['\n'], ['\n', '\x7d'] ++ tail, by simp⟩
  · rw [flush_of_not_closed hread hclosed]
    refine ⟨source, hread, fun path name hname hpath => ?_⟩
    have hstart := hpath.closed.resolve_left hclosed
    exact ⟨path.toList, hknown path name hname hpath hstart, literalDenotes_self hpath.marks⟩

end Catalog

end DesignCompiler.Asset
