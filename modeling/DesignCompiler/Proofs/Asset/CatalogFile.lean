import DesignCompiler.Proofs.Asset.Allocation
import DesignCompiler.Proofs.Text.Classes
import DesignCompiler.Proofs.Text.Scanning

/-!
# Catalog files

In a file each of whose lines either is an entry or holds no quote, a scan over the whole text finds
the entries line by line: no match runs over a line break, and none begins inside another one.
-/

namespace DesignCompiler.Asset

open Text

namespace CatalogEntry

/-- What stands in an entry before the quoted path. -/
def head (name gap₁ gap₂ : List Char) : List Char := opening ++ name ++ gap₁ ++ '=' :: gap₂

/-- The head of an entry holds only what its parts hold. -/
theorem not_mem_head {name gap₁ gap₂ : List Char} {mark : Char}
    (hname : ∀ c ∈ name, Text.isWord c = true) (hgap₁ : allBlank gap₁ = true)
    (hgap₂ : allBlank gap₂ = true) (hopening : mark ∉ '=' :: opening)
    (hword : Text.isWord mark = false) (hblank : isBlank mark = false) :
    mark ∉ head name gap₁ gap₂ := by
  have hin : mark ∉ name := fun hmem => by
    rw [hname mark hmem] at hword
    cases hword
  rw [List.mem_cons, not_or] at hopening
  simp [head, hopening, hin, not_mem_of_allBlank hgap₁ hblank, not_mem_of_allBlank hgap₂ hblank]

/-- The parts of an entry as they may be written. -/
structure IsWritten (name gap₁ gap₂ path : List Char) : Prop where
  name_ne : name ≠ []
  isWord : ∀ c ∈ name, isWord c = true
  blank₁ : allBlank gap₁ = true
  blank₂ : allBlank gap₂ = true
  path_ne : path ≠ []
  path_quote : '\'' ∉ path

/-- The entry with a name and a path. -/
def ofChars (name path : List Char) : CatalogEntry :=
  ⟨String.ofList name, String.ofList (forwardSlashes path)⟩

/-! ## A match -/

theorem at?_previous (p q : Option Char) (text : List Char) : at? p text = at? q text := rfl

private theorem head?_gap {gap rest : List Char} {mark : Char} (hgap : allBlank gap = true)
    (hmark : Text.isWord mark = false) :
    ∀ c ∈ (gap ++ mark :: rest).head?, Text.isWord c = false := by
  cases gap with
  | nil => simpa using hmark
  | cons c gap =>
    have hblank := allBlank_iff.mp hgap c List.mem_cons_self
    simpa using not_isWord_of_isBlank hblank

/-- A written entry is read with its name and its path, whatever follows it. -/
theorem at?_append {name gap₁ gap₂ path : List Char} (hwritten : IsWritten name gap₁ gap₂ path)
    (previous : Option Char) (rest : List Char) :
    at? previous (head name gap₁ gap₂ ++ '\'' :: path ++ ['\'', ';'] ++ rest) =
      some (ofChars name path, (head name gap₁ gap₂ ++ '\'' :: path ++ ['\'', ';']).length) := by
  have htext : head name gap₁ gap₂ ++ '\'' :: path ++ ['\'', ';'] ++ rest =
      opening ++ (name ++ (gap₁ ++ '=' :: (gap₂ ++ '\'' :: (path ++ '\'' :: ';' :: rest)))) := by
    simp [head]
  have hgap : ∀ c ∈ (gap₁ ++ '=' :: (gap₂ ++ '\'' :: (path ++ '\'' :: ';' :: rest))).head?,
      Text.isWord c = false := head?_gap hwritten.blank₁ (by decide)
  have hpath : ∀ c ∈ path, (c != '\'') = true := by
    intro c hc
    rw [bne_iff_ne]
    rintro rfl
    exact hwritten.path_quote hc
  have hquote : ∀ c ∈ ('\'' :: ';' :: rest).head?, (c != '\'') = false := by simp
  have hname : name.isEmpty = false := by simpa using hwritten.name_ne
  have hinside : path.isEmpty = false := by simpa using hwritten.path_ne
  simp only [at?, htext, dropStart?_append, takeWhile_append_of_head? hwritten.isWord hgap,
    dropWhile_append_of_head? hwritten.isWord hgap, trimStart_append_of_allBlank hwritten.blank₁,
    trimStart_append_of_allBlank hwritten.blank₂,
    trimStart_of_head (show isBlank '=' = false by decide),
    trimStart_of_head (show isBlank '\'' = false by decide),
    takeWhile_append_of_head? hpath hquote, dropWhile_append_of_head? hpath hquote, hname, hinside]
  rw [← htext, List.length_append, Nat.add_sub_cancel]
  rfl

/-- What is read as an entry is a written one. -/
theorem exists_of_at?_eq_some {previous : Option Char} {text : List Char} {entry : CatalogEntry}
    {length : Nat} (hmatch : at? previous text = some (entry, length)) :
    ∃ name gap₁ gap₂ path rest, IsWritten name gap₁ gap₂ path ∧ entry = ofChars name path ∧
      text = head name gap₁ gap₂ ++ '\'' :: path ++ ['\'', ';'] ++ rest := by
  unfold at? at hmatch
  split at hmatch
  · cases hmatch
  rename_i afterOpening hopening
  dsimp only at hmatch
  split at hmatch
  rotate_left
  · cases hmatch
  rename_i afterEquals hequals
  split at hmatch
  rotate_left
  · cases hmatch
  rename_i inside hinside
  split at hmatch
  rotate_left
  · cases hmatch
  rename_i rest hrest
  rw [Option.ite_none_left_eq_some] at hmatch
  obtain ⟨hnonempty, hpair⟩ := hmatch
  simp only [Bool.or_eq_true, List.isEmpty_iff, not_or] at hnonempty
  obtain ⟨gap₁, hgap₁, hblank₁⟩ := exists_eq_append_trimStart (afterOpening.dropWhile Text.isWord)
  obtain ⟨gap₂, hgap₂, hblank₂⟩ := exists_eq_append_trimStart afterEquals
  refine ⟨afterOpening.takeWhile Text.isWord, gap₁, gap₂, inside.takeWhile (· != '\''), rest,
    ⟨hnonempty.1, fun c hc => List.mem_takeWhile_imp hc, hblank₁, hblank₂, hnonempty.2, ?_⟩, ?_, ?_⟩
  · intro hquote
    have := List.mem_takeWhile_imp hquote
    simp at this
  · exact (Prod.mk.inj (Option.some.inj hpair)).1.symm
  · have hpath : inside = inside.takeWhile (· != '\'') ++ '\'' :: ';' :: rest := by
      rw [← hrest, List.takeWhile_append_dropWhile]
    have hname :
        afterOpening = afterOpening.takeWhile Text.isWord ++ (gap₁ ++ '=' :: afterEquals) := by
      rw [← hequals, ← hgap₁, List.takeWhile_append_dropWhile]
    rw [hinside] at hgap₂
    rw [eq_append_of_dropStart? hopening]
    conv_lhs => rw [hname, hgap₂, hpath]
    simp [head]

/-! ## Where a match begins -/

/-- What stands before the name at the end of a text, read from the end. -/
private def beforeName (text : List Char) : List Char :=
  dropEnd Text.isWord (trimEnd (trimEnd text).dropLast)

private theorem beforeName_eq {front name gap₁ gap₂ : List Char} (hname : name ≠ [])
    (hword : ∀ c ∈ name, Text.isWord c = true) (hblank₁ : allBlank gap₁ = true)
    (hblank₂ : allBlank gap₂ = true) :
    beforeName (front ++ [' '] ++ name ++ gap₁ ++ '=' :: gap₂) = front ++ [' '] := by
  have hequals : trimEnd (front ++ [' '] ++ name ++ gap₁ ++ '=' :: gap₂) =
      front ++ [' '] ++ name ++ gap₁ ++ ['='] := by
    have hgap : trimEnd gap₂ = [] := by
      rw [trimEnd_eq_reverse, trimStart_eq_nil_iff.mpr (by simpa using hblank₂), List.reverse_nil]
    rw [trimEnd_append_cons (by decide), hgap]
  have hlast : trimEnd (front ++ [' '] ++ name) = front ++ [' '] ++ name := by
    cases name using List.reverseRecOn with
    | nil => exact absurd rfl hname
    | append_singleton rest c =>
      rw [← List.append_assoc]
      apply trimEnd_of_getLast
      by_contra hblank
      rw [Bool.not_eq_false] at hblank
      have hnot := not_isWord_of_isBlank hblank
      rw [hword c (by simp)] at hnot
      cases hnot
  unfold beforeName
  rw [hequals, List.dropLast_concat, trimEnd_append_of_allBlank hblank₁, hlast]
  unfold dropEnd
  rw [List.reverse_append, List.dropWhile_append_of_pos (by simpa using hword),
    List.reverse_append, List.reverse_singleton, List.singleton_append,
    List.dropWhile_cons_of_neg (by decide)]
  simp

/-- No head of an entry ends in a shorter one. -/
theorem eq_nil_of_append_head_eq {front name gap₁ gap₂ name' gap₁' gap₂' path path' : List Char}
    (hwritten : IsWritten name gap₁ gap₂ path) (hwritten' : IsWritten name' gap₁' gap₂' path')
    (heq : front ++ head name gap₁ gap₂ = head name' gap₁' gap₂') : front = [] := by
  have hopening : opening = "static const String".toList ++ [' '] := by decide
  have hbefore := congrArg beforeName heq
  unfold head at hbefore
  rw [hopening, beforeName_eq hwritten'.name_ne hwritten'.isWord hwritten'.blank₁ hwritten'.blank₂,
    ← List.append_assoc, ← List.append_assoc, ← List.append_assoc, ← List.append_assoc,
    beforeName_eq hwritten.name_ne hwritten.isWord hwritten.blank₁ hwritten.blank₂] at hbefore
  simpa using hbefore

theorem quote_not_mem_head {name gap₁ gap₂ path : List Char}
    (hwritten : IsWritten name gap₁ gap₂ path) : '\'' ∉ head name gap₁ gap₂ :=
  not_mem_head hwritten.isWord hwritten.blank₁ hwritten.blank₂ (by decide) (by decide) (by decide)

theorem append_cons_inj {a b : List Char} {mark : Char} {c d : List Char} (ha : mark ∉ a)
    (hb : mark ∉ b) (heq : a ++ mark :: c = b ++ mark :: d) : a = b := by
  have hcut : ∀ {front : List Char} (back : List Char), mark ∉ front →
      (front ++ mark :: back).takeWhile (· != mark) = front := by
    intro front _ hfront
    apply takeWhile_append_of_head?
    · intro e he
      rw [bne_iff_ne]
      rintro rfl
      exact hfront he
    · simp
  rw [← hcut c ha, heq, hcut d hb]

/-- Before a quote only the head of an entry is read as one. -/
theorem at?_eq_none_of_quote {front rest : List Char} (hquote : '\'' ∉ front)
    (hhead : ∀ name gap₁ gap₂ path, IsWritten name gap₁ gap₂ path → front ≠ head name gap₁ gap₂) :
    at? none (front ++ '\'' :: rest) = none := by
  cases hmatch : at? none (front ++ '\'' :: rest) with
  | none => rfl
  | some found =>
    obtain ⟨entry, length⟩ := found
    obtain ⟨name, gap₁, gap₂, path, after, hwritten, -, htext⟩ := exists_of_at?_eq_some hmatch
    have hfront : front = head name gap₁ gap₂ := by
      apply append_cons_inj hquote (quote_not_mem_head hwritten) (d := path ++ ['\'', ';'] ++ after)
      rw [htext]
      simp
    exact absurd hfront (hhead name gap₁ gap₂ path hwritten)

private theorem at?_eq_none_of_no_quote {text : List Char} (hquote : '\'' ∉ text) :
    at? none text = none := by
  cases hmatch : at? none text with
  | none => rfl
  | some found =>
    obtain ⟨entry, length⟩ := found
    obtain ⟨name, gap₁, gap₂, path, after, -, -, rfl⟩ := exists_of_at?_eq_some hmatch
    simp at hquote

/-- Without a quote nothing is declared. -/
theorem allMatches_of_no_quote {text : List Char} (hquote : '\'' ∉ text) :
    allMatches at? text = [] := by
  have hnone : allMatches at? (text ++ []) = allMatches at? [] := by
    apply allMatches_append_of_none at?_previous
    rintro passed c back rfl
    rw [List.append_nil]
    apply at?_eq_none_of_no_quote
    exact fun hmem => hquote (List.mem_append_right passed hmem)
  rw [List.append_nil] at hnone
  rw [hnone]
  rfl

/-- Before the head of an entry none begins in text without quotes. -/
theorem at?_eq_none_of_append_head {c : Char} {back name gap₁ gap₂ path : List Char}
    (hwritten : IsWritten name gap₁ gap₂ path) (hquote : '\'' ∉ c :: back) (rest : List Char) :
    at? none (c :: back ++ (head name gap₁ gap₂ ++ '\'' :: path ++ ['\'', ';'] ++ rest)) =
      none := by
  have htext : c :: back ++ (head name gap₁ gap₂ ++ '\'' :: path ++ ['\'', ';'] ++ rest) =
      (c :: back ++ head name gap₁ gap₂) ++ '\'' :: (path ++ ['\'', ';'] ++ rest) := by simp
  rw [htext]
  apply at?_eq_none_of_quote
  · rw [List.mem_append, not_or]
    exact ⟨hquote, quote_not_mem_head hwritten⟩
  · intro name' gap₁' gap₂' path' hwritten' heq
    have := eq_nil_of_append_head_eq hwritten hwritten' heq
    cases this

/-- The scan finds an entry behind text without quotes, and goes on behind it. -/
theorem allMatches_entry {front name gap₁ gap₂ path : List Char}
    (hwritten : IsWritten name gap₁ gap₂ path) (hfront : '\'' ∉ front) (rest : List Char) :
    allMatches at? (front ++ (head name gap₁ gap₂ ++ '\'' :: path ++ ['\'', ';'] ++ rest)) =
      ofChars name path :: allMatches at? rest := by
  rw [allMatches_append_of_none at?_previous]
  · apply allMatches_append_of_some at?_previous
    · simp
    · exact at?_append hwritten none rest
  · rintro passed c back rfl
    apply at?_eq_none_of_append_head hwritten
    exact fun hmem => hfront (List.mem_append_right passed hmem)

end CatalogEntry

/-! ## Lines -/

open CatalogEntry

/-- What a line of a catalog file declares: one entry, or nothing where it holds no quote. -/
inductive LineDeclares : List Char → List CatalogEntry → Prop where
  | entry {before name gap₁ gap₂ path after : List Char} :
      IsWritten name gap₁ gap₂ path → '\'' ∉ before → '\'' ∉ after →
      LineDeclares (before ++ (head name gap₁ gap₂ ++ '\'' :: path ++ ['\'', ';'] ++ after))
        [ofChars name path]
  | other {line : List Char} : '\'' ∉ line → LineDeclares line []

/-- A text each of whose lines declares an entry or nothing. -/
def IsCatalogText (text : List Char) : Prop :=
  ∀ line ∈ splitOn (· == '\n') text, ∃ entries, LineDeclares line entries

/-- A text whose lines declare these entries one after another. -/
def TextDeclares (text : List Char) (entries : List CatalogEntry) : Prop :=
  ∃ declared, List.Forall₂ LineDeclares (splitOn (· == '\n') text) declared ∧
    entries = declared.flatten

theorem isCatalogText_iff {text : List Char} :
    IsCatalogText text ↔ ∃ entries, TextDeclares text entries := by
  unfold IsCatalogText TextDeclares
  generalize splitOn (· == '\n') text = lines
  constructor
  · intro hlines
    induction lines with
    | nil => exact ⟨_, [], .nil, rfl⟩
    | cons line lines ih =>
      rw [List.forall_mem_cons] at hlines
      obtain ⟨entries, hentries⟩ := hlines.1
      obtain ⟨_, declared, hdeclared, -⟩ := ih hlines.2
      exact ⟨_, entries :: declared, .cons hentries hdeclared, rfl⟩
  · rintro ⟨-, declared, hdeclared, -⟩
    induction hdeclared with
    | nil => simp
    | cons hline _ ih => exact List.forall_mem_cons.mpr ⟨⟨_, hline⟩, ih⟩

private theorem allMatches_lines {line : List Char} {lines : List (List Char)}
    {declared : List (List CatalogEntry)}
    (hlines : List.Forall₂ LineDeclares (line :: lines) declared) {front : List Char}
    (hfront : '\'' ∉ front) :
    allMatches at? (front ++ line ++ lines.flatMap ('\n' :: ·)) = declared.flatten := by
  induction lines generalizing line declared front with
  | nil =>
    obtain ⟨entries, others, hline, hnil, rfl⟩ := List.forall₂_cons_left_iff.mp hlines
    obtain rfl := List.forall₂_nil_left_iff.mp hnil
    rw [List.flatMap_nil, List.append_nil]
    cases hline with
    | entry hwritten hbefore hafter =>
      rw [← List.append_assoc, allMatches_entry hwritten (by simp [hfront, hbefore]),
        allMatches_of_no_quote hafter]
      rfl
    | other hquote =>
      rw [allMatches_of_no_quote (by simp [hfront, hquote])]
      rfl
  | cons next lines ih =>
    obtain ⟨entries, others, hline, hrest, rfl⟩ := List.forall₂_cons_left_iff.mp hlines
    rw [List.flatMap_cons, List.cons_append, List.flatten_cons]
    cases hline with
    | @entry before name gap₁ gap₂ path after hwritten hbefore hafter =>
      have hnext := ih hrest (show '\'' ∉ after ++ ['\n'] by simp [hafter])
      have htext :
          front ++ (before ++ (head name gap₁ gap₂ ++ '\'' :: path ++ ['\'', ';'] ++ after)) ++
          '\n' :: (next ++ lines.flatMap ('\n' :: ·)) =
          (front ++ before) ++ (head name gap₁ gap₂ ++ '\'' :: path ++ ['\'', ';'] ++
            (after ++ ['\n'] ++ next ++ lines.flatMap ('\n' :: ·))) := by simp
      rw [htext, allMatches_entry hwritten (by simp [hfront, hbefore]), hnext]
      rfl
    | other hquote =>
      have hnext := ih hrest (show '\'' ∉ front ++ line ++ ['\n'] by simp [hfront, hquote])
      rw [← hnext]
      simp

/-- A file declares what its lines declare. -/
theorem TextDeclares.declarations_eq {source : String} {entries : List CatalogEntry}
    (hentries : TextDeclares source.toList entries) : Catalog.declarations source = entries := by
  obtain ⟨declared, hlines, rfl⟩ := hentries
  obtain ⟨first, rest, hsplit⟩ := exists_splitOn_eq_cons (· == '\n') source.toList
  rw [hsplit] at hlines
  have hmatches := allMatches_lines hlines (show '\'' ∉ [] by simp)
  rw [List.nil_append, ← eq_append_flatMap_of_splitOn hsplit] at hmatches
  exact hmatches

private theorem forall₂_append_left {R : α → β → Prop} {front back : List α} {images : List β}
    (himages : List.Forall₂ R (front ++ back) images) :
    ∃ before after, List.Forall₂ R front before ∧ List.Forall₂ R back after ∧
      images = before ++ after := by
  have hbefore := List.forall₂_take_append images front back himages.flip
  have hafter := List.forall₂_drop_append images front back himages.flip
  exact ⟨_, _, hbefore.flip, hafter.flip, (List.take_append_drop _ _).symm⟩

/-- Texts joined by a line break declare what each of them declares. -/
theorem textDeclares_append_iff {front back : List Char} {entries : List CatalogEntry} :
    TextDeclares (front ++ '\n' :: back) entries ↔
      ∃ before after, TextDeclares front before ∧ TextDeclares back after ∧
        entries = before ++ after := by
  unfold TextDeclares
  rw [splitOn_append_cons (by simp)]
  constructor
  · rintro ⟨declared, hlines, rfl⟩
    obtain ⟨before, after, hbefore, hafter, rfl⟩ := forall₂_append_left hlines
    exact ⟨_, _, ⟨before, hbefore, rfl⟩, ⟨after, hafter, rfl⟩, List.flatten_append⟩
  · rintro ⟨_, _, ⟨before, hbefore, rfl⟩, ⟨after, hafter, rfl⟩, rfl⟩
    exact ⟨before ++ after, List.rel_append hbefore hafter, List.flatten_append.symm⟩

/-- Lines that hold an entry each declare these entries. -/
theorem textDeclares_intercalate {entries : List CatalogEntry} {line : CatalogEntry → List Char}
    (hne : entries ≠ []) (hline : ∀ entry ∈ entries, LineDeclares (line entry) [entry])
    (hbreak : ∀ entry ∈ entries, '\n' ∉ line entry) :
    TextDeclares (['\n'].intercalate (entries.map line)) entries := by
  unfold TextDeclares
  rw [splitOn_intercalate (by simpa using hne) (by simpa using hbreak)]
  refine ⟨entries.map fun entry => [entry], ?_, by rw [← List.flatMap_def, List.flatMap_singleton']⟩
  rw [List.forall₂_map_left_iff, List.forall₂_map_right_iff, List.forall₂_same]
  exact hline

end DesignCompiler.Asset
