import DesignCompiler.Proofs.Stylesheet.Layout
import DesignCompiler.Proofs.Text.Scanning

/-!
# Texts with comments

What is left of a text without its comments is its code: the characters outside comments and the
line breaks, those inside comments included. A text written as code with comments in between is
read as that code.
-/

namespace DesignCompiler.Stylesheet

open Text

/-! ## Block comments on a line -/

theorem withoutBlockComments_of_open {line before inside : List Char}
    (hstart : cut? commentStart line = some (before, inside))
    (hend : cut? commentEnd inside = none) : withoutBlockComments line = (before, true) := by
  rw [withoutBlockComments]
  split
  · rename_i hnone
    rw [hstart] at hnone
    cases hnone
  · rename_i hsome
    rw [hstart] at hsome
    cases hsome
    split
    · rfl
    · rename_i hclosed
      rw [hend] at hclosed
      cases hclosed

theorem withoutBlockComments_of_closed {line before inside body after : List Char}
    (hstart : cut? commentStart line = some (before, inside))
    (hend : cut? commentEnd inside = some (body, after)) :
    withoutBlockComments line = withoutBlockComments (before ++ after) := by
  rw [withoutBlockComments]
  split
  · rename_i hnone
    rw [hstart] at hnone
    cases hnone
  · rename_i hsome
    rw [hstart] at hsome
    cases hsome
    split
    · rename_i hopen
      rw [hend] at hopen
      cases hopen
    · rename_i hclosed
      rw [hend] at hclosed
      cases hclosed
      rfl

private theorem cut?_commentStart_cons {c : Char} {line : List Char}
    (hsafe : c = '/' → line.head? ≠ some '*') :
    cut? commentStart (c :: line) =
      (cut? commentStart line).map fun (before, inside) => (c :: before, inside) := by
  have hdrop : dropStart? commentStart (c :: line) = none := by
    rw [← Option.not_isSome_iff_eq_none, isSome_dropStart?_iff]
    intro hprefix
    obtain ⟨hc, rest, hline⟩ := List.cons_prefix_cons.mp hprefix
    exact hsafe hc.symm (by rw [← hline]; rfl)
  rw [cut?, hdrop]

/-- A character stays on a line if it begins no comment, neither at once nor when the comments
    after it are gone: `hbefore` says so for each text that the search comes by. -/
private theorem withoutBlockComments_cons_of_safe {c : Char} {line : List Char}
    (hsafe : ∀ rest, withoutBlockComments rest = withoutBlockComments line →
      c = '/' → rest.head? ≠ some '*') :
    withoutBlockComments (c :: line) =
      (c :: (withoutBlockComments line).1, (withoutBlockComments line).2) := by
  fun_induction withoutBlockComments line with
  | case1 line hstart =>
    have hline : withoutBlockComments line = (line, false) :=
      withoutBlockComments_of_not_infix (cut?_eq_none_iff.mp hstart)
    apply withoutBlockComments_of_not_infix
    rw [← cut?_eq_none_iff, cut?_commentStart_cons (hsafe line hline), hstart]
    rfl
  | case2 line before inside hstart hend =>
    have hline := withoutBlockComments_of_open hstart hend
    have hcut : cut? commentStart (c :: line) = some (c :: before, inside) := by
      rw [cut?_commentStart_cons (hsafe line hline), hstart]
      rfl
    exact withoutBlockComments_of_open hcut hend
  | case3 line before inside hstart removed after hend ih =>
    have hline := withoutBlockComments_of_closed hstart hend
    have hcut : cut? commentStart (c :: line) = some (c :: before, inside) := by
      rw [cut?_commentStart_cons (hsafe line hline), hstart]
      rfl
    rw [withoutBlockComments_of_closed hcut hend]
    exact ih hsafe

/-- A character other than a slash begins no comment. -/
private theorem withoutBlockComments_cons_of_ne {c : Char} (hc : c ≠ '/') (line : List Char) :
    withoutBlockComments (c :: line) =
      (c :: (withoutBlockComments line).1, (withoutBlockComments line).2) :=
  withoutBlockComments_cons_of_safe fun _ _ h => absurd h hc

/-- A slash begins a comment only if a star is read after it. -/
private theorem withoutBlockComments_cons {c : Char} {line : List Char}
    (hstar : c = '/' → (withoutBlockComments line).1.head? ≠ some '*') :
    withoutBlockComments (c :: line) =
      (c :: (withoutBlockComments line).1, (withoutBlockComments line).2) := by
  apply withoutBlockComments_cons_of_safe
  intro rest hrest hc hhead
  obtain ⟨tail, rfl⟩ : ∃ tail, rest = '*' :: tail := by
    cases rest with
    | nil => cases hhead
    | cons d tail => exact ⟨tail, by rw [Option.some.inj hhead]⟩
  apply hstar hc
  rw [← hrest, withoutBlockComments_cons_of_ne (by decide)]
  rfl

/-- A mark of two different characters is found where it first stands as a whole. -/
private theorem cut?_pair {a b : Char} (hne : b ≠ a) {body : List Char} (hbody : ¬ [a, b] <:+: body)
    (text : List Char) : cut? [a, b] (body ++ ([a, b] ++ text)) = some (body, text) := by
  have hfirst : ¬ [a, b] <:+: body ++ [a] := by
    rw [List.infix_concat_iff, not_or]
    refine ⟨fun hsuffix => hne ?_, hbody⟩
    have hlast := hsuffix.getLast (List.cons_ne_nil _ _)
    rw [List.getLast_concat] at hlast
    simpa using hlast
  exact (cut?_eq_some_iff (List.cons_ne_nil _ _)).mpr ⟨(List.append_assoc ..).symm, hfirst⟩

/-- A block comment begins where its opening mark first stands. -/
theorem cut?_commentStart {line : List Char} (hline : ¬ commentStart <:+: line)
    (text : List Char) : cut? commentStart (line ++ (commentStart ++ text)) = some (line, text) :=
  cut?_pair (by decide) hline text

/-- A block comment ends where its closing mark first stands. -/
theorem cut?_commentEnd {body : List Char} (hbody : ¬ commentEnd <:+: body)
    (text : List Char) : cut? commentEnd (body ++ (commentEnd ++ text)) = some (body, text) :=
  cut?_pair (by decide) hbody text

/-- A block comment on the line goes. -/
private theorem withoutBlockComments_block {body : List Char} (hbody : ¬ commentEnd <:+: body)
    (line : List Char) :
    withoutBlockComments (commentStart ++ (body ++ (commentEnd ++ line))) =
      withoutBlockComments line := by
  have hstart : cut? commentStart (commentStart ++ (body ++ (commentEnd ++ line))) =
      some ([], body ++ (commentEnd ++ line)) := by
    show cut? commentStart ('/' :: '*' :: (body ++ (commentEnd ++ line))) = _
    rw [cut?]
    rfl
  exact withoutBlockComments_of_closed hstart (cut?_commentEnd hbody line)

/-! ## Texts without their comments -/

/-- What is left of lines when their comments are removed, comments being open at the start of the
    first line or not. -/
def uncommentedLines (inComment : Bool) : List (List Char) → List (List Char)
  | [] => []
  | line :: rest =>
    match if inComment then (cut? commentEnd line).map Prod.snd else some line with
    | none => [] :: uncommentedLines true rest
    | some visible =>
      beforeLineComment .outside false (withoutBlockComments visible).1 ::
        uncommentedLines (withoutBlockComments visible).2 rest

/-- What is left of a text when its comments are removed. The text may go on in the middle of a
    line, in the given quote and right after a colon or not. -/
def uncommented (quote : Quote) (afterColon : Bool) (text : List Char) : List Char :=
  match splitOn (· == '\n') text with
  | [] => []
  | line :: rest =>
    beforeLineComment quote afterColon (withoutBlockComments line).1 ++
      (uncommentedLines (withoutBlockComments line).2 rest).flatMap ('\n' :: ·)

variable {quote : Quote} {afterColon : Bool}

theorem uncommented_of_splitOn {text line : List Char} {rest : List (List Char)}
    (hsplit : splitOn (· == '\n') text = line :: rest) :
    uncommented quote afterColon text =
      beforeLineComment quote afterColon (withoutBlockComments line).1 ++
        (uncommentedLines (withoutBlockComments line).2 rest).flatMap ('\n' :: ·) := by
  rw [uncommented, hsplit]

/-- The character that is read first when the block comments on the first line are gone. -/
def keptHead? (text : List Char) : Option Char :=
  match splitOn (· == '\n') text with
  | [] => none
  | line :: _ => (withoutBlockComments line).1.head?

theorem keptHead?_of_splitOn {text line : List Char} {rest : List (List Char)}
    (hsplit : splitOn (· == '\n') text = line :: rest) :
    keptHead? text = (withoutBlockComments line).1.head? := by
  rw [keptHead?, hsplit]

theorem withoutBlockComments_nil : withoutBlockComments [] = ([], false) :=
  withoutBlockComments_of_not_infix (by simp [commentStart])

theorem keptHead?_newline (text : List Char) : keptHead? ('\n' :: text) = none := by
  rw [keptHead?_of_splitOn (splitOn_cons_of_separates (by rfl)), withoutBlockComments_nil]
  rfl

theorem uncommented_nil : uncommented quote afterColon [] = [] := by
  have hsplit : splitOn (· == '\n') [] = [[]] := rfl
  rw [uncommented_of_splitOn hsplit, withoutBlockComments_nil]
  rfl

/-- The next line is read afresh. -/
theorem uncommented_newline (text : List Char) :
    uncommented quote afterColon ('\n' :: text) = '\n' :: uncommented .outside false text := by
  obtain ⟨line, rest, hsplit⟩ := exists_splitOn_eq_cons (· == '\n') text
  rw [uncommented_of_splitOn (splitOn_cons_of_separates (by rfl)), uncommented_of_splitOn hsplit,
    hsplit, withoutBlockComments_nil]
  rfl

/-! ### Characters of code -/

section Character

variable {c : Char} {text : List Char} (hbreak : c ≠ '\n')
  (hstar : c = '/' → keptHead? text ≠ some '*')

include hbreak hstar

theorem keptHead?_cons : keptHead? (c :: text) = some c := by
  obtain ⟨line, rest, hsplit⟩ := exists_splitOn_eq_cons (· == '\n') text
  rw [keptHead?_of_splitOn hsplit] at hstar
  rw [keptHead?_of_splitOn (splitOn_cons_of_not_separates (by simpa using hbreak) hsplit),
    withoutBlockComments_cons hstar]
  rfl

/-- A character that begins no comment stays. -/
theorem uncommented_cons (hslash : c = '/' → quote = .outside → afterColon = false →
      keptHead? text ≠ some '/') :
    uncommented quote afterColon (c :: text) =
      c :: uncommented (quote.after c) (c == ':') text := by
  obtain ⟨line, rest, hsplit⟩ := exists_splitOn_eq_cons (· == '\n') text
  rw [keptHead?_of_splitOn hsplit] at hstar hslash
  have hline : ¬ (decide (quote = .outside) && !afterColon && c == '/' &&
      (withoutBlockComments line).1.head? == some '/') = true := by
    simp only [Bool.and_eq_true, decide_eq_true_eq, Bool.not_eq_true', beq_iff_eq]
    rintro ⟨⟨⟨hquote, hcolon⟩, hc⟩, hnext⟩
    exact hslash hc hquote hcolon hnext
  rw [uncommented_of_splitOn (splitOn_cons_of_not_separates (by simpa using hbreak) hsplit),
    withoutBlockComments_cons hstar, uncommented_of_splitOn hsplit, beforeLineComment, if_neg hline]
  rfl

end Character

/-! ### Comments -/

section Block

variable {body : List Char} (hbody : ¬ commentEnd <:+: body) (text : List Char)

private theorem splitOn_block (hline : '\n' ∉ body) {text line : List Char}
    {rest : List (List Char)} (hsplit : splitOn (· == '\n') text = line :: rest) :
    splitOn (· == '\n') (commentStart ++ (body ++ (commentEnd ++ text))) =
      (commentStart ++ (body ++ (commentEnd ++ line))) :: rest := by
  have hfront : '\n' ∉ commentStart ++ (body ++ commentEnd) := by
    simp [commentStart, commentEnd, hline]
  simpa only [List.append_assoc] using splitOn_append_of_not_mem hfront hsplit

include hbody

/-- A block comment on one line leaves nothing. -/
theorem uncommented_block (hline : '\n' ∉ body) :
    uncommented quote afterColon (commentStart ++ (body ++ (commentEnd ++ text))) =
      uncommented quote afterColon text := by
  obtain ⟨line, rest, hsplit⟩ := exists_splitOn_eq_cons (· == '\n') text
  rw [uncommented_of_splitOn (splitOn_block hline hsplit), uncommented_of_splitOn hsplit,
    withoutBlockComments_block hbody]

theorem keptHead?_block (hline : '\n' ∉ body) :
    keptHead? (commentStart ++ (body ++ (commentEnd ++ text))) = keptHead? text := by
  obtain ⟨line, rest, hsplit⟩ := exists_splitOn_eq_cons (· == '\n') text
  rw [keptHead?_of_splitOn (splitOn_block hline hsplit), keptHead?_of_splitOn hsplit,
    withoutBlockComments_block hbody]

omit hbody in
/-- Inside a block comment only line breaks are left, and the rest of the line that it ends on. Of
    the line begun, `front` is read already. -/
private theorem uncommentedLines_comment (front : List Char) (hfront : '\n' ∉ front)
    (hinside : ¬ commentEnd <:+: front ++ body) :
    (uncommentedLines true (splitOn (· == '\n') (front ++ (body ++ (commentEnd ++ text))))).flatMap
        ('\n' :: ·) =
      '\n' :: (body.filter (· == '\n') ++ uncommented .outside false text) := by
  induction body generalizing front with
  | nil =>
    obtain ⟨line, rest, hsplit⟩ := exists_splitOn_eq_cons (· == '\n') text
    have hend : '\n' ∉ front ++ commentEnd := by simp [commentEnd, hfront]
    rw [List.append_nil] at hinside
    rw [List.nil_append, ← List.append_assoc, splitOn_append_of_not_mem hend hsplit,
      uncommentedLines, if_pos rfl, List.append_assoc, cut?_commentEnd hinside,
      uncommented_of_splitOn hsplit]
    rfl
  | cons c body ih =>
    by_cases hc : c = '\n'
    · subst hc
      have hline : ¬ commentEnd <:+: front := fun h =>
        hinside (h.trans (List.prefix_append _ _).isInfix)
      have hnext : ¬ commentEnd <:+: [] ++ body := fun h =>
        hinside (h.trans ((List.suffix_cons _ _).trans (List.suffix_append _ _)).isInfix)
      rw [List.cons_append, splitOn_append_mark hfront, uncommentedLines, if_pos rfl,
        cut?_eq_none_iff.mpr hline]
      exact congrArg ('\n' :: ·) (ih [] List.not_mem_nil hnext)
    · have h := ih (front ++ [c]) (by simp [hfront, Ne.symm hc]) (by simpa using hinside)
      rw [List.filter_cons_of_neg (by simpa using hc)]
      simpa using h

/-- The line on which a block comment over several lines begins, and the rest of its text. -/
private theorem exists_splitOn_lines (hbreak : '\n' ∈ body) :
    ∃ front back, body = front ++ '\n' :: back ∧ '\n' ∉ front ∧ ¬ commentEnd <:+: back ∧
      withoutBlockComments (commentStart ++ front) = ([], true) ∧
      splitOn (· == '\n') (commentStart ++ (body ++ (commentEnd ++ text))) =
        (commentStart ++ front) :: splitOn (· == '\n') (back ++ (commentEnd ++ text)) := by
  obtain ⟨front, back, rfl, hfront⟩ := List.eq_append_cons_of_mem hbreak
  have hline : ¬ commentEnd <:+: front := fun h => hbody (h.trans (List.prefix_append _ _).isInfix)
  have hback : ¬ commentEnd <:+: back := fun h =>
    hbody (h.trans ((List.suffix_cons _ _).trans (List.suffix_append _ _)).isInfix)
  have hopen : '\n' ∉ commentStart ++ front := by simp [commentStart, hfront]
  refine ⟨front, back, rfl, hfront, hback, ?_, ?_⟩
  · exact withoutBlockComments_of_open rfl (cut?_eq_none_iff.mpr hline)
  · simpa using splitOn_append_mark hopen (back ++ (commentEnd ++ text))

/-- A block comment over several lines leaves the line breaks in it. -/
theorem uncommented_lines (hbreak : '\n' ∈ body) :
    uncommented quote afterColon (commentStart ++ (body ++ (commentEnd ++ text))) =
      body.filter (· == '\n') ++ uncommented .outside false text := by
  obtain ⟨front, back, rfl, hfront, hback, hkept, hsplit⟩ := exists_splitOn_lines hbody text hbreak
  have hnone : front.filter (· == '\n') = [] := by
    rw [List.filter_eq_nil_iff]
    intro c hc hnewline
    exact hfront (beq_iff_eq.mp hnewline ▸ hc)
  have hrest := uncommentedLines_comment text [] List.not_mem_nil hback
  rw [List.nil_append] at hrest
  rw [uncommented_of_splitOn hsplit, hkept, hrest, List.filter_append, hnone]
  rfl

theorem keptHead?_lines (hbreak : '\n' ∈ body) :
    keptHead? (commentStart ++ (body ++ (commentEnd ++ text))) = none := by
  obtain ⟨front, back, -, -, -, hkept, hsplit⟩ := exists_splitOn_lines hbody text hbreak
  rw [keptHead?_of_splitOn hsplit, hkept]
  rfl

end Block

/-- A line comment leaves the line break at its end. -/
theorem uncommented_lineComment {body : List Char} (hline : '\n' ∉ body)
    (hbody : ¬ commentStart <:+: '/' :: body) (text : List Char) :
    uncommented .outside false ('/' :: '/' :: (body ++ '\n' :: text)) =
      '\n' :: uncommented .outside false text := by
  have hfront : '\n' ∉ '/' :: '/' :: body := by simp [hline]
  have hkept : withoutBlockComments ('/' :: '/' :: body) = ('/' :: '/' :: body, false) := by
    apply withoutBlockComments_of_not_infix
    rw [List.infix_cons_iff, not_or]
    exact ⟨fun h => by simp [commentStart] at h, hbody⟩
  obtain ⟨line, rest, hsplit⟩ := exists_splitOn_eq_cons (· == '\n') text
  rw [← List.cons_append, ← List.cons_append,
    uncommented_of_splitOn (splitOn_append_mark hfront text), hkept, uncommented_of_splitOn hsplit,
    hsplit]
  rfl

/-! ## Commented code -/

/-- A text is code with comments in it; `quote` is the quote that it begins in and `previous` the
    character of code before it. No two characters of the code are a mark of a comment, except for
    `//` inside quotes or right after a colon. The line breaks of a comment belong to the code, so
    they stand outside quotes. -/
inductive Commented : Quote → Char → List Char → List Char → Prop where
  | nil {quote : Quote} {previous : Char} : Commented quote previous [] []
  | code {quote : Quote} {previous c : Char} {code text : List Char} :
      c ≠ '\n' → (c = '/' → code.head? ≠ some '*') →
      (c = '/' → quote = .outside → previous ≠ ':' → code.head? ≠ some '/') →
      Commented (quote.after c) c code text → Commented quote previous (c :: code) (c :: text)
  | newline {previous : Char} {code text : List Char} :
      Commented .outside '\n' code text →
      Commented .outside previous ('\n' :: code) ('\n' :: text)
  | block {quote : Quote} {previous : Char} {body code text : List Char} :
      ¬ commentEnd <:+: body → '\n' ∉ body → Commented quote previous code text →
      Commented quote previous code (commentStart ++ (body ++ (commentEnd ++ text)))
  | lines {previous : Char} {body code text : List Char} :
      ¬ commentEnd <:+: body → '\n' ∈ body → Commented .outside '\n' code text →
      Commented .outside previous (body.filter (· == '\n') ++ code)
        (commentStart ++ (body ++ (commentEnd ++ text)))
  | line {previous : Char} {body code text : List Char} :
      previous ∉ [':', '/'] → '\n' ∉ body → ¬ commentStart <:+: '/' :: body →
      Commented .outside '\n' code text →
      Commented .outside previous ('\n' :: code) ('/' :: '/' :: (body ++ '\n' :: text))

/-- The characters that comments and quotes begin with. -/
def openingMarks : List Char := ['/', '\'', '"']

/-- Code without slashes and quotes is written as it is. -/
theorem Commented.of_all (previous : Char) {code : List Char}
    (hcode : code.all (!openingMarks.contains ·) = true) :
    Commented .outside previous code code := by
  induction code generalizing previous with
  | nil => exact .nil
  | cons c code ih =>
    rw [List.all_cons, Bool.and_eq_true] at hcode
    have hc : c ≠ '/' ∧ c ≠ '\'' ∧ c ≠ '"' := by simpa [openingMarks] using hcode.1
    by_cases hbreak : c = '\n'
    · subst hbreak
      exact .newline (ih '\n' hcode.2)
    · have hquote : Quote.after .outside c = .outside := by simp [Quote.after, hc.2.1, hc.2.2]
      refine .code hbreak (fun h => absurd h hc.1) (fun h => absurd h hc.1) ?_
      rw [hquote]
      exact ih c hcode.2

/-- A line without comments is code without comments. -/
theorem commented_self {quote : Quote} {previous : Char} {code : List Char} (hline : '\n' ∉ code)
    (hstart : ¬ commentStart <:+: code)
    (hsafe : ∀ before after, code = before ++ '/' :: '/' :: after →
      before.foldl Quote.after quote = .outside → before.getLast?.getD previous = ':') :
    Commented quote previous code code := by
  induction code generalizing quote previous with
  | nil => exact .nil
  | cons c code ih =>
    rw [List.mem_cons, not_or] at hline
    rw [List.infix_cons_iff, not_or] at hstart
    refine .code (Ne.symm hline.1) ?_ ?_ (ih hline.2 hstart.2 fun before after heq hquote => ?_)
    · rintro rfl hstar
      obtain ⟨rest, rfl⟩ := List.head?_eq_some_iff.mp hstar
      exact hstart.1 ⟨rest, rfl⟩
    · rintro rfl hquote hcolon hslash
      obtain ⟨rest, rfl⟩ := List.head?_eq_some_iff.mp hslash
      exact hcolon (hsafe [] rest rfl hquote)
    · have h := hsafe (c :: before) after (by rw [heq]; rfl) hquote
      rwa [List.getLast?_cons, Option.getD_some] at h

/-- The marks that make a comment of the slash before them. -/
def slashPartners : List Char := ['*', '/']

variable {previous : Char} {code text rest : List Char}

/-- What is read next after a slash and would make a comment of it is code. -/
private theorem Commented.head?_of_slash (h : Commented quote previous code text)
    (hrest : code.getLast?.getD previous = '/' → ∀ c ∈ slashPartners, keptHead? rest ≠ some c)
    (hslash : previous = '/') :
    ∀ c ∈ slashPartners, keptHead? (text ++ rest) = some c → code.head? = some c := by
  induction h with
  | nil => exact fun c hc hhead => absurd hhead (hrest hslash c hc)
  | @code quote previous d code text hbreak hstar hslashes _ ih =>
    rw [List.getLast?_cons] at hrest
    intro c hc hhead
    rw [List.cons_append, keptHead?_cons hbreak] at hhead
    · exact hhead
    · exact fun hd hnext => hstar hd (ih hrest hd '*' (by decide) hnext)
  | newline =>
    intro c hc hhead
    rw [List.cons_append, keptHead?_newline] at hhead
    cases hhead
  | block hbody hline _ ih =>
    simpa only [List.append_assoc, keptHead?_block hbody _ hline] using ih hrest hslash
  | lines hbody hbreak =>
    intro c hc hhead
    simp only [List.append_assoc, keptHead?_lines hbody _ hbreak] at hhead
    cases hhead
  | line hprevious =>
    rw [hslash] at hprevious
    exact absurd (by decide) hprevious

private theorem foldl_after_filter_newline (body : List Char) :
    (body.filter (· == '\n')).foldl Quote.after .outside = .outside := by
  have hblank : allBlank (body.filter (· == '\n')) = true := by
    rw [allBlank_iff]
    intro c hc
    rw [beq_iff_eq.mp (List.mem_filter.mp hc).2]
    rfl
  exact (@passes_of_allBlank .outside 0 _ hblank).foldl_after

private theorem getLast?_filter_newline {body : List Char} (hbreak : '\n' ∈ body) :
    (body.filter (· == '\n')).getLast? = some '\n' := by
  rw [List.filter_beq, List.getLast?_replicate, if_neg]
  exact Nat.ne_of_gt (List.count_pos_iff.mpr hbreak)

/-- Commented code is read as the code. -/
theorem Commented.uncommented_append (h : Commented quote previous code text)
    (hrest : code.getLast?.getD previous = '/' → ∀ c ∈ slashPartners, keptHead? rest ≠ some c) :
    uncommented quote (previous == ':') (text ++ rest) =
      code ++ uncommented (code.foldl Quote.after quote) (code.getLast?.getD previous == ':')
        rest := by
  induction h with
  | nil => rfl
  | @code quote previous c code text hbreak hstar hslashes hcode ih =>
    rw [List.getLast?_cons, Option.getD_some] at hrest ⊢
    have hnext : c = '/' → ∀ d ∈ slashPartners, keptHead? (text ++ rest) = some d →
        code.head? = some d := hcode.head?_of_slash hrest
    rw [List.cons_append, uncommented_cons hbreak, ih hrest]
    · rfl
    · exact fun hc h => hstar hc (hnext hc '*' (by decide) h)
    · exact fun hc hquote hcolon h =>
        hslashes hc hquote (by simpa using hcolon) (hnext hc '/' (by decide) h)
  | newline _ ih =>
    rw [List.getLast?_cons, Option.getD_some] at hrest ⊢
    rw [List.cons_append, uncommented_newline]
    exact congrArg ('\n' :: ·) (ih hrest)
  | block hbody hline _ ih =>
    simpa only [List.append_assoc, uncommented_block hbody _ hline] using ih hrest
  | @lines previous body code text hbody hbreak _ ih =>
    have hlast : (body.filter (· == '\n') ++ code).getLast?.getD previous =
        code.getLast?.getD '\n' := by
      rw [List.getLast?_append, getLast?_filter_newline hbreak]
      cases code.getLast? <;> rfl
    rw [hlast] at hrest ⊢
    simp only [List.append_assoc, uncommented_lines hbody _ hbreak, List.foldl_append,
      foldl_after_filter_newline]
    exact congrArg _ (ih hrest)
  | @line previous body code text hprevious hline hbody _ ih =>
    rw [List.getLast?_cons, Option.getD_some] at hrest ⊢
    have hcolon : (previous == ':') = false := by
      simp only [List.mem_cons, not_or] at hprevious
      simpa using hprevious.1
    simp only [List.cons_append, List.append_assoc, hcolon, uncommented_lineComment hline hbody]
    exact congrArg ('\n' :: ·) (ih hrest)

/-! ### Ends of commented code -/

theorem Commented.eq_nil (h : Commented quote previous code []) : code = [] := by
  generalize htext : [] = text at h
  cases h with
  | nil => rfl
  | code => cases htext
  | newline => cases htext
  | block => cases htext
  | lines => cases htext
  | line => cases htext

private theorem getLast?_of_append {front back : List Char} {c d : Char}
    (hfront : front.getLast? = some d) (hne : d ≠ c) (hlast : (front ++ back).getLast? = some c) :
    back.getLast? = some c := by
  rw [List.getLast?_append, hfront] at hlast
  cases hback : back.getLast? with
  | none =>
    rw [hback] at hlast
    exact absurd (Option.some.inj hlast) hne
  | some e =>
    rw [hback] at hlast
    exact hlast

/-- Comments end with other characters than a carriage return. -/
theorem Commented.getLast?_of_return (h : Commented quote previous code text)
    (hlast : text.getLast? = some '\r') : code.getLast? = some '\r' := by
  induction h with
  | nil => cases hlast
  | @code quote previous c code text _ _ _ hcode ih =>
    rcases List.eq_nil_or_concat text with rfl | ⟨front, d, rfl⟩
    · rwa [hcode.eq_nil]
    · rw [List.concat_eq_append] at hlast ih
      rw [← List.cons_append, List.getLast?_concat] at hlast
      rw [List.getLast?_cons, ih (by rw [List.getLast?_concat, hlast])]
      rfl
  | newline _ ih =>
    rw [List.getLast?_cons, ih (@getLast?_of_append ['\n'] _ _ '\n' rfl (by decide) hlast)]
    rfl
  | @block quote previous body code text _ _ _ ih =>
    rw [← List.append_assoc, ← List.append_assoc] at hlast
    exact ih (getLast?_of_append (d := '/') (by simp [commentEnd]) (by decide) hlast)
  | @lines previous body code text _ _ _ ih =>
    rw [← List.append_assoc, ← List.append_assoc] at hlast
    rw [List.getLast?_append,
      ih (getLast?_of_append (d := '/') (by simp [commentEnd]) (by decide) hlast)]
    rfl
  | @line previous body code text _ _ _ _ ih =>
    rw [List.append_cons, ← List.cons_append, ← List.cons_append] at hlast
    have hfront : ('/' :: '/' :: (body ++ ['\n'])).getLast? = some '\n' := by
      rw [← List.cons_append, ← List.cons_append, List.getLast?_concat]
    rw [List.getLast?_cons, ih (getLast?_of_append hfront (by decide) hlast)]
    rfl

/-! ## Lines of code -/

private theorem mem_of_mem_beforeLineComment {c : Char} {line : List Char} :
    c ∈ beforeLineComment quote afterColon line → c ∈ line := by
  induction line generalizing quote afterColon with
  | nil => exact id
  | cons d line ih =>
    rw [beforeLineComment]
    split
    · exact fun hc => absurd hc List.not_mem_nil
    · intro hc
      obtain rfl | hrest := List.mem_cons.mp hc
      · exact List.mem_cons_self
      · exact List.mem_cons_of_mem d (ih hrest)

private theorem mem_of_mem_withoutBlockComments {c : Char} {line : List Char} :
    c ∈ (withoutBlockComments line).1 → c ∈ line := by
  fun_induction withoutBlockComments line with
  | case1 => exact id
  | case2 line before inside hstart =>
    intro hc
    rw [eq_append_of_cut? hstart]
    exact List.mem_append_left _ (List.mem_append_left _ hc)
  | case3 line before inside hstart removed after hend ih =>
    intro hc
    rw [eq_append_of_cut? hstart, eq_append_of_cut? hend]
    have := ih hc
    simp only [List.mem_append] at this ⊢
    tauto

/-- Taking comments out of a line brings no line break into it. -/
private theorem not_mem_of_mem_uncommentedLines {inComment : Bool} {lines : List (List Char)}
    (hlines : ∀ line ∈ lines, '\n' ∉ line) :
    ∀ piece ∈ uncommentedLines inComment lines, '\n' ∉ piece := by
  induction lines generalizing inComment with
  | nil => exact fun piece hpiece => absurd hpiece List.not_mem_nil
  | cons line rest ih =>
    rw [List.forall_mem_cons] at hlines
    rw [uncommentedLines]
    split
    · exact List.forall_mem_cons.mpr ⟨List.not_mem_nil, ih hlines.2⟩
    · rename_i visible hvisible
      refine List.forall_mem_cons.mpr ⟨fun hmem => hlines.1 ?_, ih hlines.2⟩
      have hin := mem_of_mem_withoutBlockComments (mem_of_mem_beforeLineComment hmem)
      cases inComment with
      | false => exact Option.some.inj hvisible ▸ hin
      | true =>
        obtain ⟨⟨before, after⟩, hcut, rfl⟩ := Option.map_eq_some_iff.mp hvisible
        rw [eq_append_of_cut? hcut]
        exact List.mem_append_right _ hin

/-- The lines of the text without its comments. -/
theorem splitOn_uncommented (text : List Char) :
    splitOn (· == '\n') (uncommented .outside false text) =
      uncommentedLines false (splitOn (· == '\n') text) := by
  have hlines : ∀ line ∈ splitOn (· == '\n') text, '\n' ∉ line :=
    fun line hline => not_mem_of_mem_splitOn hline
  have hpieces := @not_mem_of_mem_uncommentedLines false _ hlines
  obtain ⟨line, rest, hsplit⟩ := exists_splitOn_eq_cons (· == '\n') text
  rw [hsplit] at hpieces
  rw [uncommented_of_splitOn hsplit, hsplit]
  obtain ⟨hfirst, hothers⟩ := List.forall_mem_cons.mp hpieces
  exact splitOn_append_flatMap hfirst hothers

/-- The blanks at the ends of lines and the blank lines, which the lines of code lack, hold no
    segments. -/
private theorem flatMap_codeLines (inComment : Bool) (lines : List (List Char)) :
    (codeLines inComment lines).flatMap (fun line => cleanSegments (segments line)) =
      (uncommentedLines inComment lines).flatMap fun line => cleanSegments (segments line) := by
  induction lines generalizing inComment with
  | nil => rfl
  | cons line rest ih =>
    simp only [codeLines, uncommentedLines, stripComments]
    cases if inComment then (cut? commentEnd line).map Prod.snd else some line with
    | none => exact ih true
    | some visible =>
      rw [List.flatMap_append, flatMap_trimmed_code, ih, List.flatMap_cons]

/-- The machine is driven by the segments of the text without its comments. -/
theorem sourceSegments_eq (source : List Char) :
    sourceSegments source =
      (splitOn (· == '\n') (uncommented .outside false (unixLines source))).flatMap
        fun line => cleanSegments (segments line) := by
  rw [sourceSegments, flatMap_codeLines, splitOn_uncommented]

end DesignCompiler.Stylesheet
