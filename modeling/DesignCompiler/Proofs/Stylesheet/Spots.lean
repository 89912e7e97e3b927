import DesignCompiler.Proofs.Stylesheet.Reader
import Mathlib.Data.List.Induction

/-!
# Spots in a sheet

Wherever a text ends, what follows it is read as on the line at that spot: what is left of the line
begun without its block comments, or the body of the block comment that is open there.
-/

namespace DesignCompiler.Stylesheet

open Text

/-! ## Lines -/

/-- Inside a block comment the rest of a text is read as if the comment began on the line. -/
theorem flatMap_uncommentedLines_true (rest : List Char) :
    (uncommentedLines true (splitOn (· == '\n') rest)).flatMap ('\n' :: ·) =
      '\n' :: uncommented .outside false (commentStart ++ rest) := by
  obtain ⟨line, others, hsplit⟩ := exists_splitOn_eq_cons (· == '\n') rest
  have hstart := @cut?_commentStart [] (by simp [commentStart]) line
  rw [List.nil_append] at hstart
  rw [uncommented_of_splitOn (splitOn_append_of_not_mem (by decide) hsplit), hsplit,
    uncommentedLines, if_pos rfl]
  cases hend : cut? commentEnd line with
  | none =>
    rw [withoutBlockComments_of_open hstart hend]
    rfl
  | some cut =>
    rw [withoutBlockComments_of_closed hstart hend]
    rfl

section Line

variable {line : List Char} (hline : '\n' ∉ line) (hstart : ¬ commentStart <:+: line)

include hline hstart

/-- A line without block comments is read up to a line comment on it, and what comes after it from
    the line break on. -/
theorem uncommented_line {rest : List Char} (hrest : ∀ c ∈ rest.head?, c = '\n') :
    uncommented .outside false (line ++ rest) =
      beforeLineComment .outside false line ++ uncommented .outside false rest := by
  cases rest with
  | nil =>
    have hsplit : splitOn (· == '\n') (line ++ []) = [line ++ []] :=
      splitOn_append_of_not_mem hline rfl
    rw [uncommented_of_splitOn hsplit, uncommented_nil, List.append_nil,
      withoutBlockComments_of_not_infix hstart]
    rfl
  | cons c rest =>
    obtain rfl := hrest c rfl
    obtain ⟨next, others, hsplit⟩ := exists_splitOn_eq_cons (· == '\n') rest
    rw [uncommented_of_splitOn (splitOn_append_mark hline rest), uncommented_newline,
      uncommented_of_splitOn hsplit, withoutBlockComments_of_not_infix hstart, hsplit]
    rfl

/-- A block comment that is closed on the line leaves nothing. -/
theorem uncommented_closed {body : List Char} (hbody : '\n' ∉ body)
    (hend : ¬ commentEnd <:+: body) (rest : List Char) :
    uncommented .outside false (line ++ (commentStart ++ (body ++ (commentEnd ++ rest)))) =
      uncommented .outside false (line ++ rest) := by
  obtain ⟨next, others, hsplit⟩ := exists_splitOn_eq_cons (· == '\n') rest
  have hfront : '\n' ∉ line ++ (commentStart ++ (body ++ commentEnd)) := by
    simp [commentStart, commentEnd, hline, hbody]
  have hcommented := splitOn_append_of_not_mem hfront hsplit
  simp only [List.append_assoc] at hcommented
  rw [uncommented_of_splitOn hcommented,
    uncommented_of_splitOn (splitOn_append_of_not_mem hline hsplit),
    withoutBlockComments_of_closed (cut?_commentStart hstart _) (cut?_commentEnd hend next)]

/-- A block comment that is open at the end of the line goes on from the beginning of the next. -/
theorem uncommented_open {body : List Char} (hbody : '\n' ∉ body) (hend : ¬ commentEnd <:+: body)
    (rest : List Char) :
    uncommented .outside false (line ++ (commentStart ++ (body ++ '\n' :: rest))) =
      beforeLineComment .outside false line ++
        '\n' :: uncommented .outside false (commentStart ++ rest) := by
  have hfront : '\n' ∉ line ++ (commentStart ++ body) := by simp [commentStart, hline, hbody]
  have hsplit := splitOn_append_mark hfront rest
  simp only [List.append_assoc] at hsplit
  rw [uncommented_of_splitOn hsplit, withoutBlockComments_of_open (cut?_commentStart hstart body)
    (cut?_eq_none_iff.mpr hend), flatMap_uncommentedLines_true]

end Line

/-! ## Spots -/

/-- Where a text ends: on a line, of which something is left without its block comments, or in the
    body of a block comment after that. -/
inductive Spot where
  | line (kept : List Char)
  | comment (kept body : List Char)
  deriving DecidableEq

namespace Spot

/-- The spot after a character. What is left around a block comment may be the mark of another. -/
def step : Spot → Char → Spot
  | .line kept, c =>
    if c = '\n' then .line []
    else if c = '*' ∧ kept.getLast? = some '/' then .comment kept.dropLast []
    else .line (kept ++ [c])
  | .comment kept body, c =>
    if c = '\n' then .comment [] []
    else if c = '/' ∧ body.getLast? = some '*' then .line kept
    else .comment kept (body ++ [c])

/-- The spot after a text. -/
def past (spot : Spot) (text : List Char) : Spot := text.foldl step spot

theorem past_cons (spot : Spot) (c : Char) (text : List Char) :
    spot.past (c :: text) = (spot.step c).past text := rfl

theorem past_append (spot : Spot) (front back : List Char) :
    spot.past (front ++ back) = (spot.past front).past back := List.foldl_append

/-- What there is of the line at a spot. -/
def text : Spot → List Char
  | .line kept => kept
  | .comment kept body => kept ++ (commentStart ++ body)

/-- A spot on a single line, where block comments are left out from the first one on. -/
inductive IsValid : Spot → Prop where
  | line {kept : List Char} : '\n' ∉ kept → ¬ commentStart <:+: kept → IsValid (.line kept)
  | comment {kept body : List Char} : '\n' ∉ kept → ¬ commentStart <:+: kept → '\n' ∉ body →
      ¬ commentEnd <:+: body → IsValid (.comment kept body)

theorem isValid_line_iff {kept : List Char} :
    IsValid (.line kept) ↔ '\n' ∉ kept ∧ ¬ commentStart <:+: kept := by
  constructor
  · rintro ⟨hline, hstart⟩
    exact ⟨hline, hstart⟩
  · exact fun h => .line h.1 h.2

theorem isValid_start : IsValid (.line []) := .line List.not_mem_nil (by simp [commentStart])

/-- A mark of two characters comes up only with its second one. -/
private theorem not_infix_concat {a b c : Char} {text : List Char} (htext : ¬ [a, b] <:+: text)
    (hmark : ¬ (c = b ∧ text.getLast? = some a)) : ¬ [a, b] <:+: text ++ [c] := by
  rw [List.infix_concat_iff, not_or]
  refine ⟨fun hsuffix => hmark ?_, htext⟩
  obtain ⟨front, hfront⟩ := hsuffix
  have hconcat : (front ++ [a]) ++ [b] = text ++ [c] := by rw [← hfront, List.append_assoc]; rfl
  obtain ⟨rfl, hlast⟩ := List.append_inj' hconcat rfl
  exact ⟨(List.singleton_inj.mp hlast).symm, List.getLast?_concat⟩

/-- On a line nothing is lost between a spot and the next one but block comments. -/
theorem IsValid.step_line {spot : Spot} (h : spot.IsValid) {c : Char} (hc : c ≠ '\n') :
    (spot.step c).IsValid ∧ ∀ rest, uncommented .outside false (spot.text ++ c :: rest) =
      uncommented .outside false ((spot.step c).text ++ rest) := by
  have hadd : ∀ {text : List Char}, '\n' ∉ text → '\n' ∉ text ++ [c] := by
    intro text htext
    simp [htext, Ne.symm hc]
  cases h with
  | @line kept hline hstart =>
    rw [step, if_neg hc]
    split
    · rename_i hopens
      obtain ⟨rfl, hlast⟩ := hopens
      obtain ⟨front, rfl⟩ := List.getLast?_eq_some_iff.mp hlast
      rw [List.dropLast_concat]
      refine ⟨.comment (by simpa using hline) (fun h => hstart ?_) List.not_mem_nil
        (by simp [commentEnd]), fun rest => by simp [text, commentStart]⟩
      exact h.trans (List.prefix_append _ _).isInfix
    · rename_i hplain
      refine ⟨.line (hadd hline) (not_infix_concat hstart hplain), fun rest => by simp [text]⟩
  | @comment kept body hline hstart hbody hend =>
    rw [step, if_neg hc]
    split
    · rename_i hcloses
      obtain ⟨rfl, hlast⟩ := hcloses
      obtain ⟨front, rfl⟩ := List.getLast?_eq_some_iff.mp hlast
      refine ⟨.line hline hstart, fun rest => ?_⟩
      have hfront : '\n' ∉ front := fun h => hbody (List.mem_append_left _ h)
      have hfrontEnd : ¬ commentEnd <:+: front := fun h =>
        hend (h.trans (List.prefix_append _ _).isInfix)
      simpa [text, commentEnd] using uncommented_closed hline hstart hfront hfrontEnd rest
    · rename_i hplain
      refine ⟨.comment hline hstart (hadd hbody) (not_infix_concat hend hplain),
        fun rest => by simp [text]⟩

/-- A line break leads to a fresh line, or to the body of the block comment that is open. -/
theorem IsValid.step_newline {spot : Spot} (h : spot.IsValid) :
    (spot.step '\n').IsValid ∧ ∃ code, ∀ rest,
      uncommented .outside false (spot.text ++ '\n' :: rest) =
        code ++ '\n' :: uncommented .outside false ((spot.step '\n').text ++ rest) := by
  cases h with
  | @line kept hline hstart =>
    refine ⟨isValid_start, beforeLineComment .outside false kept, fun rest => ?_⟩
    rw [text, uncommented_line hline hstart (by simp), uncommented_newline]
    rfl
  | @comment kept body hline hstart hbody hend =>
    refine ⟨.comment List.not_mem_nil (by simp [commentStart]) List.not_mem_nil
      (by simp [commentEnd]), beforeLineComment .outside false kept, fun rest => ?_⟩
    simp only [text, List.append_assoc]
    rw [uncommented_open hline hstart hbody hend]
    rfl

/-- A text on the line. -/
theorem IsValid.past_line {spot : Spot} (h : spot.IsValid) {more : List Char}
    (hmore : '\n' ∉ more) :
    (spot.past more).IsValid ∧ ∀ rest, uncommented .outside false (spot.text ++ (more ++ rest)) =
      uncommented .outside false ((spot.past more).text ++ rest) := by
  induction more generalizing spot with
  | nil => exact ⟨h, fun rest => rfl⟩
  | cons c more ih =>
    rw [List.mem_cons, not_or] at hmore
    obtain ⟨hstep, heq⟩ := h.step_line (Ne.symm hmore.1)
    obtain ⟨hpast, hmoreEq⟩ := ih hstep hmore.2
    exact ⟨hpast, fun rest => by rw [List.cons_append, heq, hmoreEq, past_cons]⟩

/-- After a text what follows is read as on the line at its spot. The machine has taken in the
    lines before. -/
theorem exists_read (before : List Char) :
    (past (.line []) before).IsValid ∧ ∃ machine : Flattener, ∀ rest,
      Reader.read {} (uncommented .outside false (before ++ rest)) =
        Reader.read { machine }
          (uncommented .outside false ((past (.line []) before).text ++ rest)) := by
  -- From the end, since all of a text but its last character decides where that one is read.
  induction before using List.reverseRecOn with
  | nil => exact ⟨isValid_start, {}, fun rest => rfl⟩
  | append_singleton before c ih =>
    obtain ⟨hvalid, machine, hread⟩ := ih
    have hpast : past (.line []) (before ++ [c]) = (past (.line []) before).step c :=
      past_append _ _ _
    simp only [hpast, List.append_assoc, List.singleton_append, hread]
    by_cases hc : c = '\n'
    · subst hc
      obtain ⟨hstep, code, hcode⟩ := hvalid.step_newline
      refine ⟨hstep, (Reader.read { machine } code).endLine, fun rest => ?_⟩
      rw [hcode, Reader.read_append, Reader.read_cons, Reader.step_newline]
    · obtain ⟨hstep, hcode⟩ := hvalid.step_line hc
      exact ⟨hstep, machine, fun rest => by rw [hcode]⟩

end Spot

end DesignCompiler.Stylesheet
