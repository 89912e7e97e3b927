import DesignCompiler.Proofs.Asset.Flushing

/-!
# Reading back what was written

A catalog file may hold anything. Still a path that a flush wrote is read with the identifier it was
given, and no other path loses its own, as long as no path holds a quote or a line break before a
closing brace, or begins with a semicolon. Those are the marks by which the scan for entries could
take one for a part of another.
-/

namespace DesignCompiler.Asset

open Text

namespace CatalogEntry

open Catalog (declared?)

/-- The entries that are read at all places of a text, also inside other ones. -/
def attempts : List Char → List CatalogEntry
  | [] => []
  | c :: rest => ((at? none (c :: rest)).map Prod.fst).toList ++ attempts rest

theorem attempts_cons_of_none {c : Char} {rest : List Char} (hnone : at? none (c :: rest) = none) :
    attempts (c :: rest) = attempts rest := by
  rw [attempts, hnone]
  rfl

theorem attempts_cons_of_some {c : Char} {rest : List Char} {entry : CatalogEntry} {length : Nat}
    (hsome : at? none (c :: rest) = some (entry, length)) :
    attempts (c :: rest) = entry :: attempts rest := by
  rw [attempts, hsome]
  rfl

/-- An entry begins with the letter that its opening begins with. -/
theorem at?_eq_none_of_head {c : Char} (hc : c ≠ 's') (rest : List Char) :
    at? none (c :: rest) = none := by
  have hopening : dropStart? opening (c :: rest) = none := by
    rw [show opening = 's' :: "tatic const String ".toList by decide, dropStart?_cons_cons,
      if_neg hc.symm]
  simp only [at?, hopening]

theorem declared?_cons (entry : CatalogEntry) (entries : List CatalogEntry) (path : String) :
    declared? (entry :: entries) path =
      if entry.path = path then some entry.name else declared? entries path := by
  unfold declared?
  rw [List.find?_cons]
  by_cases hpath : entry.path = path
  · rw [if_pos hpath, beq_iff_eq.mpr hpath]
    rfl
  · rw [if_neg hpath, beq_eq_false_iff_ne.mpr hpath]

/-- Text in which no entry with the path begins declares nothing for it. -/
theorem declared?_attempts_append {front rest : List Char} {path : String}
    (hnone : ∀ passed c back entry length, front = passed ++ c :: back →
      at? none (c :: back ++ rest) = some (entry, length) → entry.path ≠ path) :
    declared? (attempts (front ++ rest)) path = declared? (attempts rest) path := by
  induction front with
  | nil => rfl
  | cons c front ih =>
    have hrest := ih fun passed d back entry length hback =>
      hnone (c :: passed) d back entry length (by rw [hback, List.cons_append])
    cases hhere : at? none (c :: front ++ rest) with
    | none =>
      rw [List.cons_append] at hhere ⊢
      rw [attempts_cons_of_none hhere, hrest]
    | some found =>
      have hne := hnone [] c front found.1 found.2 rfl hhere
      rw [List.cons_append] at hhere ⊢
      rw [attempts_cons_of_some hhere, declared?_cons, if_neg hne, hrest]

/-! ## One entry -/

/-- What an entry inside the path of another one declares begins with the semicolon after that. -/
theorem head?_of_at?_in_path {inside rest : List Char} {entry : CatalogEntry} {length : Nat}
    (hquote : '\'' ∉ inside)
    (hmatch : at? none (inside ++ '\'' :: ';' :: rest) = some (entry, length)) :
    entry.path.toList.head? = some ';' := by
  obtain ⟨name, gap₁, gap₂, path, after, hwritten, rfl, htext⟩ := exists_of_at?_eq_some hmatch
  have hparts : inside ++ '\'' :: (';' :: rest) =
      head name gap₁ gap₂ ++ '\'' :: (path ++ '\'' :: ';' :: after) := by
    rw [htext]
    simp
  have hinside := append_cons_inj hquote (quote_not_mem_head hwritten) hparts
  rw [hinside, List.append_cancel_left_eq, List.cons.injEq] at hparts
  obtain ⟨c, others, rfl⟩ := List.exists_cons_of_ne_nil hwritten.path_ne
  obtain ⟨rfl, -⟩ := List.cons.inj hparts.2
  rw [ofChars, String.toList_ofList]
  rfl

/-- Inside an entry nothing is declared but for paths that begin with a semicolon. -/
private theorem declared?_attempts_inside {name gap₁ gap₂ inside : List Char}
    (hwritten : IsWritten name gap₁ gap₂ inside) {c : Char} {others : List Char}
    (hhead : head name gap₁ gap₂ = c :: others) (rest : List Char) {path : String}
    (hpath : path.toList.head? ≠ some ';') :
    declared? (attempts (others ++ '\'' :: (inside ++ '\'' :: ';' :: rest))) path =
      declared? (attempts rest) path := by
  have hquote : '\'' ∉ others := fun hmem =>
    quote_not_mem_head hwritten (hhead ▸ List.mem_cons_of_mem c hmem)
  rw [declared?_attempts_append, attempts_cons_of_none (at?_eq_none_of_head (by decide) _),
    declared?_attempts_append, attempts_cons_of_none (at?_eq_none_of_head (by decide) _),
    attempts_cons_of_none (at?_eq_none_of_head (by decide) _)]
  · rintro passed d back entry length rfl hmatch rfl
    apply hpath
    refine head?_of_at?_in_path (fun hmem => ?_) hmatch
    exact hwritten.path_quote (List.mem_append_right passed hmem)
  · rintro passed d back entry length rfl hmatch -
    rw [at?_eq_none_of_quote fun hmem => hquote (List.mem_append_right passed hmem)] at hmatch
    · cases hmatch
    · intro name' gap₁' gap₂' path' hwritten' heq
      have hends : (c :: passed) ++ head name' gap₁' gap₂' = head name gap₁ gap₂ := by
        rw [hhead, ← heq, List.cons_append]
      cases eq_nil_of_append_head_eq hwritten' hwritten hends

/-- Behind text without quotes an entry declares its path. -/
theorem declared?_attempts_entry {before name gap₁ gap₂ inside : List Char}
    (hwritten : IsWritten name gap₁ gap₂ inside) (hbefore : '\'' ∉ before) (rest : List Char)
    {path : String} (hpath : path.toList.head? ≠ some ';') :
    declared? (attempts (before ++ (head name gap₁ gap₂ ++ '\'' :: inside ++ ['\'', ';'] ++ rest)))
        path =
      if (ofChars name inside).path = path then some (ofChars name inside).name
      else declared? (attempts rest) path := by
  rw [declared?_attempts_append]
  · have hmatch := at?_append hwritten none rest
    obtain ⟨c, others, hhead⟩ : ∃ c others, head name gap₁ gap₂ = c :: others :=
      List.exists_cons_of_ne_nil (by simp [head])
    have htext : head name gap₁ gap₂ ++ '\'' :: inside ++ ['\'', ';'] ++ rest =
        c :: (others ++ '\'' :: (inside ++ '\'' :: ';' :: rest)) := by
      rw [hhead]
      simp
    rw [htext] at hmatch ⊢
    rw [attempts_cons_of_some hmatch, declared?_cons,
      declared?_attempts_inside hwritten hhead rest hpath]
  · rintro passed c back entry length rfl hmatch -
    rw [at?_eq_none_of_append_head hwritten fun hmem =>
      hbefore (List.mem_append_right passed hmem)] at hmatch
    cases hmatch

/-- The scan misses no declaration but for paths that begin with a semicolon. -/
theorem declared?_allMatches (text : List Char) {path : String}
    (hpath : path.toList.head? ≠ some ';') :
    declared? (allMatches at? text) path = declared? (attempts text) path := by
  -- The scan goes on behind an entry, so the induction is on the length of the text.
  induction hlength : text.length using Nat.strong_induction_on generalizing text with
  | _ length ih =>
    subst hlength
    cases text with
    | nil => rfl
    | cons c rest =>
      cases hmatch : at? none (c :: rest) with
      | none =>
        have hskip : allMatches at? ([c] ++ rest) = allMatches at? rest := by
          apply allMatches_append_of_none at?_previous
          intro passed d back hback
          obtain ⟨rfl, rfl, rfl⟩ : passed = [] ∧ d = c ∧ back = [] := by
            simpa [List.singleton_eq_append_iff] using hback
          exact hmatch
        rw [attempts_cons_of_none hmatch, ← List.singleton_append, hskip]
        exact ih rest.length (by simp) rest rfl
      | some found =>
        obtain ⟨entry, length⟩ := found
        obtain ⟨name, gap₁, gap₂, inside, after, hwritten, rfl, htext⟩ :=
          exists_of_at?_eq_some hmatch
        have hshorter : after.length < (c :: rest).length := by
          rw [htext]
          simp only [List.length_append, List.length_cons]
          omega
        have hfirst := allMatches_entry hwritten (show '\'' ∉ [] by simp) after
        have hothers := declared?_attempts_entry hwritten (show '\'' ∉ [] by simp) after hpath
        rw [List.nil_append] at hfirst hothers
        rw [htext, hfirst, hothers, declared?_cons, ih after.length hshorter after rfl]

/-! ## Line breaks -/

/-- No entry that declares the path runs over a line break before the text. -/
structure IsCut (text : List Char) (path : String) : Prop where
  head_ne : ∀ {name gap₁ gap₂ inside front back rest}, IsWritten name gap₁ gap₂ inside →
    text = back ++ '\'' :: rest → head name gap₁ gap₂ ≠ front ++ '\n' :: back
  path_ne : ∀ {front back rest}, '\'' ∉ back → text = back ++ '\'' :: ';' :: rest →
    path ≠ String.ofList (forwardSlashes (front ++ '\n' :: back))

/-- Where another character stands first the mark is further behind. -/
private theorem exists_of_cons_eq_append_cons {c mark : Char} {text front back : List Char}
    (hne : mark ≠ c) (heq : c :: text = front ++ mark :: back) :
    ∃ rest, front = c :: rest ∧ text = rest ++ mark :: back := by
  obtain ⟨-, hback⟩ | ⟨rest, rfl, rfl⟩ := List.cons_eq_append_iff.mp heq
  · exact absurd (List.cons.inj hback).1 hne
  · exact ⟨rest, rfl, rfl⟩

/-- What is read before a line break as an entry for the path stands before it as a whole. -/
private theorem exists_at?_of_isCut {front rest : List Char} {entry : CatalogEntry} {length : Nat}
    (hcut : IsCut rest entry.path)
    (hmatch : at? none (front ++ '\n' :: rest) = some (entry, length)) :
    ∃ length, at? none front = some (entry, length) := by
  obtain ⟨name, gap₁, gap₂, path, after, hwritten, rfl, htext⟩ := exists_of_at?_eq_some hmatch
  have hparts : front ++ '\n' :: rest =
      head name gap₁ gap₂ ++ '\'' :: (path ++ '\'' :: ';' :: after) := by
    rw [htext]
    simp
  obtain ⟨back, hhead, hback⟩ | ⟨back, rfl, hback⟩ := List.append_eq_append_iff.mp hparts
  · obtain ⟨back, rfl, rfl⟩ := exists_of_cons_eq_append_cons (by decide) hback
    exact absurd hhead (hcut.head_ne hwritten rfl)
  obtain ⟨back, rfl, hinside⟩ := exists_of_cons_eq_append_cons (by decide) hback
  obtain ⟨last, rfl, hlast⟩ | ⟨last, rfl, hlast⟩ := List.append_eq_append_iff.mp hinside
  · obtain ⟨last, rfl, hsemicolon⟩ := exists_of_cons_eq_append_cons (by decide) hlast
    obtain ⟨last, rfl, -⟩ := exists_of_cons_eq_append_cons (by decide) hsemicolon
    have hentry := at?_append hwritten none last
    simp only [List.append_assoc, List.cons_append, List.nil_append] at hentry ⊢
    exact ⟨_, hentry⟩
  · obtain ⟨last, rfl, rfl⟩ := exists_of_cons_eq_append_cons (by decide) hlast
    refine absurd rfl (hcut.path_ne (fun hmem => hwritten.path_quote ?_) rfl)
    simp [hmem]

/-- A path is declared before a line break or behind it. -/
theorem declared?_attempts_break {rest : List Char} {path : String} (hcut : IsCut rest path)
    (front : List Char) :
    declared? (attempts (front ++ '\n' :: rest)) path =
      (declared? (attempts front) path).or (declared? (attempts rest) path) := by
  induction front with
  | nil =>
    rw [List.nil_append, attempts_cons_of_none (at?_eq_none_of_head (by decide) _)]
    rfl
  | cons c front ih =>
    rw [List.cons_append]
    cases hshort : at? none (c :: front) with
    | some found =>
      obtain ⟨name, gap₁, gap₂, inside, after, hwritten, hfound, htext⟩ :=
        exists_of_at?_eq_some hshort
      have hlong : ∃ length, at? none (c :: (front ++ '\n' :: rest)) = some (found.1, length) := by
        have hentry := at?_append hwritten none (after ++ '\n' :: rest)
        rw [← List.append_assoc, ← htext, List.cons_append, ← hfound] at hentry
        exact ⟨_, hentry⟩
      obtain ⟨length, hlong⟩ := hlong
      rw [attempts_cons_of_some hlong, attempts_cons_of_some hshort, declared?_cons, declared?_cons,
        ih]
      split <;> rfl
    | none =>
      rw [attempts_cons_of_none hshort, ← ih]
      cases hlong : at? none (c :: (front ++ '\n' :: rest)) with
      | none => rw [attempts_cons_of_none hlong]
      | some found =>
        obtain ⟨entry, length⟩ := found
        rw [attempts_cons_of_some hlong, declared?_cons, if_neg]
        -- An entry for the path would stand before the line break, where there is none.
        rintro rfl
        obtain ⟨_, hentry⟩ := @exists_at?_of_isCut (c :: front) rest entry length hcut hlong
        rw [hshort] at hentry
        cases hentry

end CatalogEntry

/-! ## Recallable paths -/

open CatalogEntry

/-- The path is read as it is written: it is not empty, and none of the marks stands in it by which
an entry could begin or end in a path. -/
structure IsRecallable (path : String) : Prop where
  ne : path ≠ ""
  quote : '\'' ∉ path.toList
  closing : ¬ ['\n', '\x7d'] <:+: path.toList
  head? : path.toList.head? ≠ some ';'

/-- No entry for the path runs over a closing brace. -/
theorem isCut_closing {path : String} (hpath : IsRecallable path) (tail : List Char) :
    IsCut ('\x7d' :: tail) path where
  head_ne := by
    intro name gap₁ gap₂ inside front back rest hwritten htext heq
    obtain ⟨back, rfl, -⟩ := exists_of_cons_eq_append_cons (by decide) htext
    have hbrace : '\x7d' ∉ head name gap₁ gap₂ :=
      not_mem_head hwritten.isWord hwritten.blank₁ hwritten.blank₂ (by decide) (by decide)
        (by decide)
    exact hbrace (by simp [heq])
  path_ne := by
    rintro front back rest - htext rfl
    obtain ⟨back, rfl, -⟩ := exists_of_cons_eq_append_cons (by decide) htext
    apply hpath.closing
    rw [String.toList_ofList]
    exact ⟨forwardSlashes front, forwardSlashes back, by simp [forwardSlashes, replaceChar]⟩

/-- No entry for another path runs over the beginning of a line with an entry. -/
theorem isCut_line {entry : CatalogEntry} (hname : IsIdentifier entry.name)
    (hpath : IsRecallable entry.path) (rest : List Char) (path : String) :
    IsCut (entry.line.toList ++ rest) path := by
  have hwritten := Catalog.isWritten_line hname hpath.ne hpath.quote
  have hline : entry.line.toList ++ rest = ([' ', ' '] ++ head entry.name.toList [' '] [' ']) ++
      '\'' :: (entry.path.toList ++ ['\'', ';'] ++ rest) := by
    rw [Catalog.toList_line]
    simp
  have hback : ∀ {back after : List Char}, '\'' ∉ back →
      entry.line.toList ++ rest = back ++ '\'' :: after →
      back = [' ', ' '] ++ head entry.name.toList [' '] [' '] ∧
        after = entry.path.toList ++ ['\'', ';'] ++ rest := by
    intro back after hquote htext
    rw [hline] at htext
    have hhead := append_cons_inj (by simp [quote_not_mem_head hwritten]) hquote htext
    rw [← hhead, List.append_cancel_left_eq, List.cons.injEq] at htext
    exact ⟨hhead.symm, htext.2.symm⟩
  constructor
  · intro name gap₁ gap₂ inside front back after hother htext heq
    have hquote : '\'' ∉ back := fun hmem => quote_not_mem_head hother (by simp [heq, hmem])
    obtain ⟨rfl, -⟩ := hback hquote htext
    have hends : (front ++ ['\n', ' ', ' ']) ++ head entry.name.toList [' '] [' '] =
        head name gap₁ gap₂ := by
      rw [heq]
      simp
    simpa using eq_nil_of_append_head_eq hwritten hother hends
  · intro front back after hquote htext
    obtain ⟨-, hafter⟩ := hback hquote htext
    obtain ⟨c, others, hinside⟩ := List.exists_cons_of_ne_nil hwritten.path_ne
    rw [hinside] at hafter
    obtain ⟨rfl, -⟩ := List.cons.inj hafter
    exact absurd (by rw [hinside]; rfl) hpath.head?

namespace Catalog

/-- Lines that hold an entry each declare these entries beside what stands around them. -/
theorem declared?_attempts_lines {entries : List CatalogEntry}
    (hentries : ∀ entry ∈ entries, IsIdentifier entry.name ∧ IsRecallable entry.path ∧
      '\\' ∉ entry.path.toList)
    {path : String} (hpath : IsRecallable path) (front tail : List Char) :
    declared? (attempts (front ++ entries.flatMap (fun entry => '\n' :: entry.line.toList) ++
        '\n' :: '\x7d' :: tail)) path =
      (declared? (attempts front) path).or
        ((declared? entries path).or (declared? (attempts ('\x7d' :: tail)) path)) := by
  induction entries generalizing front with
  | nil =>
    rw [List.flatMap_nil, List.append_nil, declared?_attempts_break (isCut_closing hpath tail)]
    rfl
  | cons entry entries ih =>
    rw [List.forall_mem_cons] at hentries
    obtain ⟨⟨hname, hentry, hslash⟩, hothers⟩ := hentries
    have hline : declared? (attempts entry.line.toList) path = declared? [entry] path := by
      rw [toList_line, declared?_attempts_entry (isWritten_line hname hentry.ne hentry.quote)
        (by decide) [] hpath.head?, ofChars_toList hslash, declared?_cons]
      rfl
    have hbreak := declared?_attempts_break (isCut_line hname hentry
      (entries.flatMap (fun entry => '\n' :: entry.line.toList) ++ '\n' :: '\x7d' :: tail)
      path) front
    rw [← List.append_assoc, ih hothers, hline] at hbreak
    rw [← List.singleton_append, declared?_append, Option.or_assoc, ← hbreak]
    simp

/-- After a flush that wrote recallable paths, a recallable path is read with the identifier that
the catalog has for it. -/
theorem get?_written {catalog : Catalog} {source written : String} {front tail : List Char}
    (hcloses : ClosesAt source front tail) (hgrown : (ofSource source).GrownFrom catalog)
    (hpending : catalog.pending.isEmpty = false)
    (hrecallable : ∀ path name, catalog.pending.get? path = some name → IsRecallable path)
    (hwritten : written.toList = front ++ '\n' :: catalog.pendingLines ++ ['\n', '\x7d'] ++ tail)
    {path : String} (hpath : IsRecallable path) :
    (ofSource written).identifiers.get? path = catalog.identifiers.get? path := by
  have hlines : ∀ entry ∈ catalog.pendingByName, IsIdentifier entry.name ∧
      IsRecallable entry.path ∧ '\\' ∉ entry.path.toList := by
    intro entry hentry
    have hget := (mem_pendingByName hgrown.nodup).mp hentry
    exact ⟨hgrown.isIdentifier _ _ hget, hrecallable _ _ hget, hgrown.not_backslash _ _ hget⟩
  have hinserted : written.toList =
      front ++ catalog.pendingByName.flatMap (fun entry => '\n' :: entry.line.toList) ++
        '\n' :: '\x7d' :: tail := by
    rw [hwritten, pendingLines, cons_intercalate (by simpa using pendingByName_ne_nil hpending),
      List.flatMap_map]
    simp
  have hread : ∀ text : String, (ofSource text).identifiers.get? path =
      declared? (attempts text.toList) path := fun text => by
    rw [get?_ofSource, declarations, declared?_allMatches _ hpath.head?]
  have hsource : (ofSource source).identifiers.get? path = (declared? (attempts front) path).or
      (declared? (attempts ('\x7d' :: tail)) path) := by
    rw [hread, hcloses.toList_eq, declared?_attempts_break (isCut_closing hpath tail)]
  rw [hread, hinserted, declared?_attempts_lines hlines hpath, declared?_pendingByName hgrown.nodup]
  cases hget : (ofSource source).identifiers.get? path with
  | some name =>
    -- A known path is not pending, so the lines put in do not come before what stands behind them.
    have hnone : catalog.pending.get? path = none := by
      rw [Option.eq_none_iff_forall_ne_some]
      intro other hother
      rw [((hgrown.pending_iff path other).mp hother).1] at hget
      cases hget
    rw [hnone, Option.none_or, ← hsource, hget, hgrown.keeps path name hget]
  | none =>
    rw [hsource, Option.or_eq_none_iff] at hget
    rw [hget.1, hget.2, Option.none_or, Option.or_none]
    ext name
    rw [hgrown.pending_iff, hsource, hget.1, hget.2]
    simp

end Catalog

end DesignCompiler.Asset
