import DesignCompiler.Text.Blank
import DesignCompiler.Text.Search
import Mathlib.Data.List.DropRight
import Mathlib.Data.List.Induction
import Mathlib.Data.List.TakeWhile

/-!
# Blank ends

Trimming takes blanks off both ends of a text and nothing else, so blanks added at either end make
no difference to a trimmed text.
-/

namespace DesignCompiler.Text

theorem allBlank_iff {text : List Char} : allBlank text = true ↔ ∀ c ∈ text, isBlank c = true := by
  simp [allBlank]

theorem allBlank_append {front back : List Char} :
    allBlank (front ++ back) = (allBlank front && allBlank back) := by
  simp [allBlank]

@[simp]
theorem allBlank_reverse {text : List Char} : allBlank text.reverse = allBlank text := by
  simp [allBlank]

/-- A blank is none of the marks that the scanners know. -/
theorem ne_of_isBlank {c : Char} (hblank : isBlank c = true) (mark : Char)
    (hmark : isBlank mark = false := by decide) : c ≠ mark := by
  rintro rfl
  rw [hblank] at hmark
  cases hmark

theorem not_mem_of_allBlank {blanks : List Char} (hblanks : allBlank blanks = true) {mark : Char}
    (hmark : isBlank mark = false := by decide) : mark ∉ blanks := fun hmem =>
  ne_of_isBlank (allBlank_iff.mp hblanks mark hmem) mark hmark rfl

theorem trimStart_append_of_allBlank {blanks text : List Char} (hblanks : allBlank blanks = true) :
    trimStart (blanks ++ text) = trimStart text :=
  List.dropWhile_append_of_pos (allBlank_iff.mp hblanks)

theorem trimStart_of_head {c : Char} {text : List Char} (hhead : isBlank c = false) :
    trimStart (c :: text) = c :: text := by
  simp [trimStart, dropStart, hhead]

theorem trimStart_eq_nil_iff {text : List Char} : trimStart text = [] ↔ allBlank text = true := by
  rw [allBlank_iff]
  exact List.dropWhile_eq_nil_iff

theorem trimEnd_eq_reverse (text : List Char) :
    trimEnd text = (trimStart text.reverse).reverse := rfl

theorem trimEnd_append_of_allBlank {text blanks : List Char} (hblanks : allBlank blanks = true) :
    trimEnd (text ++ blanks) = trimEnd text := by
  rw [trimEnd_eq_reverse, List.reverse_append,
    trimStart_append_of_allBlank (by simpa using hblanks)]
  rfl

theorem trim_eq_trimEnd (text : List Char) : trim text = trimEnd (trimStart text) := rfl

theorem trim_append_of_allBlank_left {blanks text : List Char} (hblanks : allBlank blanks = true) :
    trim (blanks ++ text) = trim text := by
  rw [trim_eq_trimEnd, trimStart_append_of_allBlank hblanks, trim_eq_trimEnd]

theorem trim_eq_nil_iff {text : List Char} : trim text = [] ↔ allBlank text = true := by
  rw [trim_eq_trimEnd, trimEnd_eq_reverse, List.reverse_eq_nil_iff, trimStart_eq_nil_iff,
    allBlank_reverse]
  constructor
  · intro hrest
    rw [← trimStart_eq_nil_iff]
    cases hstart : trimStart text with
    | nil => rfl
    | cons c rest =>
      have hhead := List.head?_dropWhile_not isBlank text
      rw [show text.dropWhile isBlank = c :: rest from hstart] at hhead
      rw [hstart] at hrest
      simp [allBlank, show isBlank c = false from hhead] at hrest
  · intro hblank
    simp [trimStart_eq_nil_iff.mpr hblank, allBlank]

theorem trimStart_append_of_not_allBlank {text back : List Char} (htext : allBlank text = false) :
    trimStart (text ++ back) = trimStart text ++ back := by
  have hne : (text.dropWhile isBlank).isEmpty = false := by
    rw [List.isEmpty_eq_false_iff]
    exact mt trimStart_eq_nil_iff.mp (by simp [htext])
  simp only [trimStart, dropStart, List.dropWhile_append, hne, Bool.false_eq_true, if_false]

/-- A mark that is not blank stops the trimming from the front. -/
theorem trimStart_append_cons {c : Char} {front back : List Char} (hc : isBlank c = false) :
    trimStart (front ++ c :: back) = trimStart front ++ c :: back := by
  by_cases hfront : allBlank front = true
  · rw [trimStart_append_of_allBlank hfront, trimStart_of_head hc, trimStart_eq_nil_iff.mpr hfront,
      List.nil_append]
  · exact trimStart_append_of_not_allBlank (by simpa using hfront)

theorem mem_of_mem_trimStart {c : Char} {text : List Char} (hc : c ∈ trimStart text) : c ∈ text :=
  (List.dropWhile_sublist isBlank).subset hc

theorem mem_of_mem_dropEnds {drop : Char → Bool} {c : Char} {text : List Char}
    (hc : c ∈ dropEnds drop text) : c ∈ text := by
  rw [dropEnds, dropEnd, List.mem_reverse] at hc
  have hfront := (List.dropWhile_sublist drop).subset hc
  rw [List.mem_reverse] at hfront
  exact (List.dropWhile_sublist drop).subset hfront

/-- What follows a text is not looked at before the first character that stays. -/
theorem head?_trimStart_append_of_allBlank {text blanks : List Char}
    (hblanks : allBlank blanks = true) :
    (trimStart (text ++ blanks)).head? = (trimStart text).head? := by
  by_cases htext : allBlank text = true
  · rw [trimStart_append_of_allBlank htext, trimStart_eq_nil_iff.mpr hblanks,
      trimStart_eq_nil_iff.mpr htext]
  · rw [trimStart_append_of_not_allBlank (by simpa using htext)]
    cases hstart : trimStart text with
    | nil => exact absurd (trimStart_eq_nil_iff.mp hstart) htext
    | cons c rest => rfl

/-- The last character that is not blank is the same with blanks in front of the text. -/
theorem getLast?_trimEnd_append_of_allBlank {blanks text : List Char}
    (hblanks : allBlank blanks = true) :
    (trimEnd (blanks ++ text)).getLast? = (trimEnd text).getLast? := by
  rw [trimEnd_eq_reverse, trimEnd_eq_reverse, List.getLast?_reverse, List.getLast?_reverse,
    List.reverse_append, head?_trimStart_append_of_allBlank (by simpa using hblanks)]

/-- The last character that is not blank is the last one of any longer text. -/
theorem getLast?_trimEnd_of_suffix {back text : List Char} {c : Char} (hsuffix : back <:+ text)
    (hback : (trimEnd back).getLast? = some c) : (trimEnd text).getLast? = some c := by
  obtain ⟨front, rfl⟩ := hsuffix
  rw [trimEnd_eq_reverse, List.getLast?_reverse] at hback ⊢
  have hne : allBlank back.reverse = false := by
    rw [← Bool.not_eq_true, ← trimStart_eq_nil_iff]
    intro hnil
    rw [hnil] at hback
    cases hback
  rw [List.reverse_append, trimStart_append_of_not_allBlank hne, List.head?_append, hback]
  rfl

theorem trim_append_of_allBlank_right {text blanks : List Char}
    (hblanks : allBlank blanks = true) : trim (text ++ blanks) = trim text := by
  by_cases htext : allBlank text = true
  · rw [trim_eq_nil_iff.mpr htext, trim_eq_nil_iff, allBlank_append, htext, hblanks]
    rfl
  · rw [trim_eq_trimEnd, trimStart_append_of_not_allBlank (by simpa using htext),
      trimEnd_append_of_allBlank hblanks, trim_eq_trimEnd]

theorem trimEnd_of_getLast {c : Char} {text : List Char} (hlast : isBlank c = false) :
    trimEnd (text ++ [c]) = text ++ [c] := by
  rw [trimEnd_eq_reverse, List.reverse_append, List.reverse_singleton, List.singleton_append,
    trimStart_of_head hlast]
  simp

/-- A mark at the end stops the trimming there. -/
theorem trim_concat {c : Char} {text : List Char} (hlast : isBlank c = false) :
    trim (text ++ [c]) = trimStart text ++ [c] := by
  rw [trim_eq_trimEnd]
  by_cases htext : allBlank text = true
  · rw [trimStart_append_of_allBlank htext, trimStart_eq_nil_iff.mpr htext]
    rw [trimStart_of_head hlast]
    exact @trimEnd_of_getLast c [] hlast
  · rw [trimStart_append_of_not_allBlank (by simpa using htext), trimEnd_of_getLast hlast]

/-- A mark that is not blank stops the trimming from behind. -/
theorem trimEnd_append_cons {c : Char} {front back : List Char} (hc : isBlank c = false) :
    trimEnd (front ++ c :: back) = front ++ c :: trimEnd back := by
  by_cases hback : allBlank back = true
  · rw [List.append_cons, trimEnd_append_of_allBlank hback, trimEnd_of_getLast hc,
      trimEnd_eq_reverse, trimStart_eq_nil_iff.mpr (by simpa using hback)]
    simp
  · rw [trimEnd_eq_reverse, List.reverse_append, List.reverse_cons, List.append_assoc,
      trimStart_append_of_not_allBlank (by simpa using hback), trimEnd_eq_reverse]
    simp

/-- What trimming takes off the front of a text is blank. -/
theorem exists_eq_append_trimStart (text : List Char) :
    ∃ front, text = front ++ trimStart text ∧ allBlank front = true :=
  ⟨text.takeWhile isBlank, List.takeWhile_append_dropWhile.symm,
    allBlank_iff.mpr fun _ hc => List.mem_takeWhile_imp hc⟩

/-- What trimming takes off the end of a text is blank. -/
theorem exists_trimStart_eq_append (text : List Char) :
    ∃ back, trimStart text = trim text ++ back ∧ allBlank back = true := by
  obtain ⟨front, hfront, hblank⟩ := exists_eq_append_trimStart (trimStart text).reverse
  refine ⟨front.reverse, ?_, by simpa using hblank⟩
  rw [trim_eq_trimEnd, trimEnd_eq_reverse, ← List.reverse_append]
  exact List.reverse_eq_iff.mp hfront

/-- A text is its trimmed form between blanks. -/
theorem exists_eq_append_trim (text : List Char) :
    ∃ front back, text = front ++ trim text ++ back ∧
      allBlank front = true ∧ allBlank back = true := by
  obtain ⟨front, hfront, hfrontBlank⟩ := exists_eq_append_trimStart text
  obtain ⟨back, hback, hbackBlank⟩ := exists_trimStart_eq_append text
  refine ⟨front, back, ?_, hfrontBlank, hbackBlank⟩
  rw [List.append_assoc, ← hback]
  exact hfront

theorem trim_trimStart (text : List Char) : trim (trimStart text) = trim text := by
  obtain ⟨front, hfront, hblank⟩ := exists_eq_append_trimStart text
  conv_rhs => rw [hfront, trim_append_of_allBlank_left hblank]

/-- What trimming the end takes off a text is blank. -/
theorem exists_eq_trimEnd_append (text : List Char) :
    ∃ back, text = trimEnd text ++ back ∧ allBlank back = true := by
  obtain ⟨back, hback, hblank⟩ := exists_eq_append_trimStart text.reverse
  refine ⟨back.reverse, ?_, by simpa using hblank⟩
  rw [trimEnd_eq_reverse, ← List.reverse_append, ← hback, List.reverse_reverse]

theorem trim_trimEnd (text : List Char) : trim (trimEnd text) = trim text := by
  obtain ⟨back, hback, hblank⟩ := exists_eq_trimEnd_append text
  conv_rhs => rw [hback, trim_append_of_allBlank_right hblank]

/-- The front of a text does not matter to how it ends. -/
theorem getLast?_trim (text : List Char) : (trim text).getLast? = (trimEnd text).getLast? := by
  obtain ⟨front, hfront, hblank⟩ := exists_eq_append_trimStart text
  conv_rhs => rw [hfront, getLast?_trimEnd_append_of_allBlank hblank]
  rw [trim_eq_trimEnd]

/-- The ends of a text are none of the characters that are dropped there. -/
theorem ends_dropEnds (drop : Char → Bool) (text : List Char) :
    (∀ c ∈ (dropEnds drop text).head?, drop c = false) ∧
      ∀ c ∈ (dropEnds drop text).getLast?, drop c = false := by
  have hhead : ∀ text : List Char, ∀ c ∈ (text.dropWhile drop).head?, drop c = false := by
    intro text c hc
    have hhead := List.head?_dropWhile_not drop text
    rwa [Option.mem_def.mp hc] at hhead
  constructor
  · intro c hc
    apply hhead text c
    have hstart : dropEnds drop text <+: text.dropWhile drop := List.rdropWhile_prefix _ _
    obtain ⟨back, hback⟩ := hstart
    rw [← hback, List.head?_append, Option.mem_def.mp hc]
    rfl
  · intro c hc
    rw [dropEnds, dropEnd, List.getLast?_reverse] at hc
    exact hhead _ c hc

/-- A text that neither begins nor ends with such characters keeps its ends. -/
theorem dropEnds_eq_self {drop : Char → Bool} {text : List Char}
    (hhead : ∀ c ∈ text.head?, drop c = false) (hlast : ∀ c ∈ text.getLast?, drop c = false) :
    dropEnds drop text = text := by
  have hstart : text.dropWhile drop = text := by
    cases text with
    | nil => rfl
    | cons c rest => exact List.dropWhile_cons_of_neg (by simp [hhead c rfl])
  have hend : text.reverse.dropWhile drop = text.reverse := by
    cases text using List.reverseRecOn with
    | nil => rfl
    | append_singleton rest c =>
      rw [List.reverse_append, List.reverse_singleton, List.singleton_append]
      exact List.dropWhile_cons_of_neg (by simp [hlast c (by simp)])
  rw [dropEnds, dropStart, hstart, dropEnd, hend, List.reverse_reverse]

/-- A text that neither begins nor ends with a blank is trimmed already. -/
def IsTrimmed (text : List Char) : Prop :=
  (∀ c ∈ text.head?, isBlank c = false) ∧ ∀ c ∈ text.getLast?, isBlank c = false

theorem IsTrimmed.trimEnd_eq {text : List Char} (htrimmed : IsTrimmed text) :
    trimEnd text = text := by
  cases text using List.reverseRecOn with
  | nil => rfl
  | append_singleton rest c => exact trimEnd_of_getLast (htrimmed.2 c (by simp))

theorem IsTrimmed.trim_eq {text : List Char} (htrimmed : IsTrimmed text) : trim text = text :=
  dropEnds_eq_self htrimmed.1 htrimmed.2

theorem isTrimmed_trim (text : List Char) : IsTrimmed (trim text) := ends_dropEnds isBlank text

/-- A text that does not begin with a blank is trimmed once its end is. -/
theorem isTrimmed_trimEnd {text : List Char} (hhead : ∀ c ∈ text.head?, isBlank c = false) :
    IsTrimmed (trimEnd text) := by
  have hstart : trimStart text = text := by
    cases text with
    | nil => rfl
    | cons c rest => exact trimStart_of_head (hhead c rfl)
  rw [← hstart, ← trim_eq_trimEnd]
  exact isTrimmed_trim text

@[simp]
theorem trim_trim (text : List Char) : trim (trim text) = trim text := (isTrimmed_trim text).trim_eq

/-- A mark in a text stops the trimming from both ends. -/
theorem trim_append_cons {c : Char} {front back : List Char} (hc : isBlank c = false) :
    trim (front ++ c :: back) = trimStart front ++ c :: trimEnd back := by
  rw [trim_eq_trimEnd, trimStart_append_cons hc, trimEnd_append_cons hc]

theorem trim_cons {c : Char} {text : List Char} (hc : isBlank c = false) :
    trim (c :: text) = c :: trimEnd text := @trim_append_cons c [] text hc

/-- A trimmed text stops the trimming from both ends. -/
theorem IsTrimmed.trim_append {front core back : List Char} (htrimmed : IsTrimmed core)
    (hne : core ≠ []) : trim (front ++ core ++ back) = trimStart front ++ core ++ trimEnd back := by
  obtain ⟨c, tail, rfl⟩ := List.exists_cons_of_ne_nil hne
  obtain ⟨init, d, hlast⟩ := (c :: tail).eq_nil_or_concat.resolve_left hne
  have hc : isBlank c = false := htrimmed.1 c rfl
  have hd : isBlank d = false := htrimmed.2 d (by simp [hlast])
  have hstart : trimEnd (c :: (tail ++ back)) = c :: trimEnd (tail ++ back) :=
    @trimEnd_append_cons c [] _ hc
  calc trim (front ++ c :: tail ++ back)
      = trimStart front ++ trimEnd (c :: (tail ++ back)) := by
        rw [List.append_assoc, List.cons_append, trim_append_cons hc, hstart]
    _ = trimStart front ++ trimEnd (init ++ d :: back) := by
        rw [← List.cons_append, hlast]
        simp
    _ = trimStart front ++ (c :: tail) ++ trimEnd back := by
        rw [trimEnd_append_cons hd, hlast]
        simp

/-- Trimming the end of a text beforehand makes no difference. -/
theorem trim_append_trim {front back : List Char} {c : Char} (hc : isBlank c = false) :
    trim (front ++ trim (c :: back)) = trim (front ++ c :: back) := by
  obtain ⟨blanks, hblanks, hblank⟩ := exists_trimStart_eq_append (c :: back)
  rw [trimStart_of_head hc] at hblanks
  conv_rhs => rw [hblanks, ← List.append_assoc, trim_append_of_allBlank_right hblank]

/-- Two texts joined by a blank are trimmed at their outer ends. -/
theorem trim_joined {front back : List Char} {c d : Char} (hc : isBlank c = false)
    (hd : isBlank d = false) :
    trim (front ++ [c] ++ ' ' :: d :: back) = trim (front ++ [c]) ++ ' ' :: trim (d :: back) := by
  have hjoined : front ++ [c] ++ ' ' :: d :: back = front ++ c :: ([' '] ++ d :: back) := by simp
  rw [hjoined, trim_append_cons hc, trimEnd_append_cons hd, trim_concat hc, trim_cons hd]
  simp

/-- It makes no difference whether two texts are trimmed before they are joined by a blank. -/
theorem trim_joined_trim {front back : List Char} {d : Char}
    (hfront : ∀ c ∈ front.getLast?, isBlank c = false) (hd : isBlank d = false) :
    trim (trim front ++ ' ' :: trim (d :: back)) = trim (front ++ ' ' :: d :: back) := by
  cases front using List.reverseRecOn with
  | nil => exact @trim_append_trim [' '] back d hd
  | append_singleton front c =>
    have hc : isBlank c = false := hfront c (by simp)
    calc trim (trim (front ++ [c]) ++ ' ' :: trim (d :: back))
        = trim (trim (front ++ [c])) ++ ' ' :: trim (trim (d :: back)) := by
          rw [trim_concat hc, trim_cons hd, trim_joined hc hd]
      _ = trim (front ++ [c] ++ ' ' :: d :: back) := by
          rw [trim_trim, trim_trim, trim_joined hc hd]

/-- Of three texts joined by blanks it makes no difference which two are joined first. -/
theorem trim_joined_assoc {front middle back : List Char} {c d : Char} (hc : isBlank c = false)
    (hd : isBlank d = false) :
    trim (front ++ ' ' :: trim (middle ++ [c] ++ ' ' :: d :: back)) =
      trim (trim (front ++ ' ' :: trim (middle ++ [c])) ++ ' ' :: trim (d :: back)) := by
  have hlast : ∀ e ∈ (front ++ ' ' :: trim (middle ++ [c])).getLast?, isBlank e = false := by
    intro e he
    rw [trim_concat hc, ← List.cons_append, ← List.append_assoc, List.getLast?_concat] at he
    exact Option.some.inj he ▸ hc
  calc trim (front ++ ' ' :: trim (middle ++ [c] ++ ' ' :: d :: back))
      = trim (front ++ ' ' :: trim (middle ++ [c]) ++ [' '] ++ trim (d :: back)) := by
        rw [trim_joined hc hd]
        simp
    _ = trim (front ++ ' ' :: trim (middle ++ [c]) ++ ' ' :: d :: back) := by
        rw [trim_append_trim hd]
        simp
    _ = trim (trim (front ++ ' ' :: trim (middle ++ [c])) ++ ' ' :: trim (d :: back)) :=
        (trim_joined_trim hlast hd).symm

end DesignCompiler.Text
