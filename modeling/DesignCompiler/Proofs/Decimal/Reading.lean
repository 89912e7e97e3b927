import DesignCompiler.Proofs.Decimal.Value
import DesignCompiler.Proofs.Text.Classes
import Mathlib.Computability.Language
import Mathlib.Data.List.TakeWhile

/-!
# Reading numbers

The texts of numbers make up a regular language. Of the starts of a text that lie in it the reader
takes the longest one, although the point and the power of ten may each turn out to be none.
-/

namespace DesignCompiler.Decimal

open Text

/-! ## The texts of numbers -/

/-- The two signs. -/
def signs : Language Char := {['+'], ['-']}

/-- Runs of ASCII digits, at least one. -/
def digitRuns : Language Char := {text | text ≠ [] ∧ ∀ c ∈ text, isAsciiDigit c = true}

/-- Digits with a point behind, between or before them, or without one. -/
def mantissaTexts : Language Char :=
  digitRuns * (1 + {['.']} * (1 + digitRuns)) + {['.']} * digitRuns

/-- Powers of ten: the marker, a sign or none, and digits. -/
def powerTexts : Language Char := {['e'], ['E']} * (1 + signs) * digitRuns

/-- Decimal numbers, with a sign or none and a power of ten or none. -/
def numberTexts : Language Char := (1 + signs) * mantissaTexts * (1 + powerTexts)

/-- Whole numbers, with a sign or none. -/
def integerTexts : Language Char := (1 + signs) * digitRuns

/-- The longest start of a text in a language. -/
structure IsLongestStart (language : Language Char) (start text : List Char) : Prop where
  mem : start ∈ language
  begins : start <+: text
  longest : ∀ other ∈ language, other <+: text → other <+: start

theorem IsLongestStart.unique {language : Language Char} {start other text : List Char}
    (hstart : IsLongestStart language start text) (hother : IsLongestStart language other text) :
    start = other := by
  have hle := hother.longest start hstart.mem hstart.begins
  have hge := hstart.longest other hother.mem hother.begins
  exact hle.eq_of_length (Nat.le_antisymm hle.length_le hge.length_le)

theorem mem_optionalSign_iff {sign : List Char} :
    sign ∈ 1 + signs ↔ sign ∈ [[], ['+'], ['-']] := by
  simp only [List.mem_cons, List.not_mem_nil, or_false]
  rfl

/-! ## Numerals that can be written -/

/-- A power of ten as it is written. -/
structure Exponent.IsWellFormed (e : Exponent) : Prop where
  marker : e.marker = 'e' ∨ e.marker = 'E'
  sign_mem : e.sign ∈ [[], ['+'], ['-']]
  digits_mem : e.digits ∈ digitRuns

/-- A numeral as it is written. -/
structure Numeral.IsWellFormed (n : Numeral) : Prop where
  sign_mem : n.sign ∈ [[], ['+'], ['-']]
  whole : ∀ c ∈ n.whole, isAsciiDigit c = true
  fraction : ∀ c ∈ n.fraction, isAsciiDigit c = true
  digits_ne_nil : n.whole ++ n.fraction ≠ []
  fraction_eq_nil : n.hasPoint = false → n.fraction = []
  exponent : ∀ e ∈ n.exponent, e.IsWellFormed

theorem mem_powerTexts_iff {text : List Char} :
    text ∈ powerTexts ↔ ∃ e : Exponent, e.IsWellFormed ∧ e.written = text := by
  simp only [powerTexts, Language.mem_mul, mem_optionalSign_iff]
  constructor
  · rintro ⟨_, ⟨_, rfl | rfl, sign, hsign, rfl⟩, digits, hdigits, rfl⟩
    · exact ⟨⟨'e', sign, digits⟩, ⟨.inl rfl, hsign, hdigits⟩, rfl⟩
    · exact ⟨⟨'E', sign, digits⟩, ⟨.inr rfl, hsign, hdigits⟩, rfl⟩
  · rintro ⟨⟨marker, sign, digits⟩, ⟨hmarker, hsign, hdigits⟩, rfl⟩
    obtain rfl | rfl := hmarker
    · exact ⟨_, ⟨['e'], .inl rfl, sign, hsign, rfl⟩, digits, hdigits, rfl⟩
    · exact ⟨_, ⟨['E'], .inr rfl, sign, hsign, rfl⟩, digits, hdigits, rfl⟩

theorem mem_mantissaTexts_iff {text : List Char} :
    text ∈ mantissaTexts ↔ ∃ (whole fraction : List Char) (hasPoint : Bool),
      (∀ c ∈ whole, isAsciiDigit c = true) ∧ (∀ c ∈ fraction, isAsciiDigit c = true) ∧
        whole ++ fraction ≠ [] ∧ (hasPoint = false → fraction = []) ∧
        whole ++ (if hasPoint then ['.'] else []) ++ fraction = text := by
  simp only [mantissaTexts, Language.mem_add, Language.mem_mul, Language.mem_one]
  constructor
  · rintro (⟨whole, ⟨hne, hwhole⟩, _, rfl | ⟨_, rfl, _, rfl | ⟨-, hfraction⟩, rfl⟩, rfl⟩ |
      ⟨_, rfl, fraction, ⟨hne, hfraction⟩, rfl⟩)
    · exact ⟨whole, [], false, hwhole, by simp, by simpa using hne, fun _ => rfl, by simp⟩
    · exact ⟨whole, [], true, hwhole, by simp, by simpa using hne, fun _ => rfl, by simp⟩
    · exact ⟨whole, _, true, hwhole, hfraction, by simp [hne], by simp, by simp⟩
    · exact ⟨[], fraction, true, by simp, hfraction, by simpa using hne, by simp, by simp⟩
  · rintro ⟨whole, fraction, hasPoint, hwhole, hfraction, hne, hpoint, rfl⟩
    have hfractions : fraction = [] ∨ fraction ∈ digitRuns :=
      or_iff_not_imp_left.mpr fun hfractionNe => ⟨hfractionNe, hfraction⟩
    by_cases hwholeNe : whole = []
    · subst hwholeNe
      have hfractionNe : fraction ≠ [] := by simpa using hne
      obtain rfl : hasPoint = true := by simpa [hfractionNe] using hpoint
      exact .inr ⟨['.'], rfl, fraction, ⟨hfractionNe, hfraction⟩, by simp⟩
    · refine .inl ⟨whole, ⟨hwholeNe, hwhole⟩, (if hasPoint then ['.'] else []) ++ fraction, ?_,
        by simp⟩
      cases hasPoint with
      | false => exact .inl (by simp [hpoint rfl])
      | true => exact .inr ⟨['.'], rfl, fraction, hfractions, by simp⟩

/-- The texts of numbers are those of numerals. -/
theorem mem_numberTexts_iff {text : List Char} :
    text ∈ numberTexts ↔ ∃ n : Numeral, n.IsWellFormed ∧ n.written = text := by
  have hpower : ∀ {back : List Char}, back ∈ 1 + powerTexts ↔
      ∃ exponent : Option Exponent, (∀ e ∈ exponent, e.IsWellFormed) ∧
        (exponent.map Exponent.written).getD [] = back := by
    intro back
    rw [Language.mem_add, Language.mem_one, mem_powerTexts_iff]
    constructor
    · rintro (rfl | ⟨e, he, rfl⟩)
      · exact ⟨none, by simp, rfl⟩
      · exact ⟨some e, by simpa using he, rfl⟩
    · rintro ⟨_ | e, he, rfl⟩
      · exact .inl rfl
      · exact .inr ⟨e, he e rfl, rfl⟩
  simp only [numberTexts, Language.mem_mul, mem_optionalSign_iff, mem_mantissaTexts_iff, hpower]
  constructor
  · rintro ⟨_, ⟨sign, hsign, _, ⟨whole, fraction, hasPoint, hwhole, hfraction, hne, hpoint, rfl⟩,
      rfl⟩, _, ⟨exponent, hexponent, rfl⟩, rfl⟩
    exact ⟨⟨sign, whole, hasPoint, fraction, exponent⟩,
      ⟨hsign, hwhole, hfraction, hne, hpoint, hexponent⟩, by simp [Numeral.written]⟩
  · rintro ⟨n, hn, rfl⟩
    exact ⟨_, ⟨n.sign, hn.sign_mem, _, ⟨n.whole, n.fraction, n.hasPoint, hn.whole, hn.fraction,
      hn.digits_ne_nil, hn.fraction_eq_nil, rfl⟩, rfl⟩, _, ⟨n.exponent, hn.exponent, rfl⟩,
      by simp [Numeral.written]⟩

/-! ## What is read -/

theorem exists_readSign (text : List Char) :
    ∃ sign rest,
      readSign text = (sign, rest) ∧ sign ∈ [[], ['+'], ['-']] ∧ text = sign ++ rest := by
  unfold readSign
  split
  · rename_i c rest
    split
    · rename_i hc
      rw [Bool.or_eq_true, beq_iff_eq, beq_iff_eq] at hc
      exact ⟨[c], rest, rfl, by simpa using hc, rfl⟩
    · exact ⟨[], c :: rest, rfl, by simp, rfl⟩
  · exact ⟨[], [], rfl, by simp, rfl⟩

theorem exists_readFraction (hasWhole : Bool) (text : List Char) :
    ∃ hasPoint fraction rest, readFraction hasWhole text = (hasPoint, fraction, rest) ∧
      (∀ c ∈ fraction, isAsciiDigit c = true) ∧ (hasPoint = false → fraction = []) ∧
      text = (if hasPoint then ['.'] else []) ++ fraction ++ rest := by
  unfold readFraction
  split
  · rename_i rest
    rw [List.span_eq_takeWhile_dropWhile]
    dsimp only
    split
    · split
      · exact ⟨true, [], rest, rfl, by simp, by simp, rfl⟩
      · exact ⟨false, [], _, rfl, by simp, by simp, rfl⟩
    · exact ⟨true, _, _, rfl, fun c hc => List.mem_takeWhile_imp hc, by simp, by simp⟩
  · exact ⟨false, [], text, rfl, by simp, by simp, rfl⟩

theorem exists_readExponent (text : List Char) :
    ∃ exponent rest, readExponent text = (exponent, rest) ∧ (∀ e ∈ exponent, e.IsWellFormed) ∧
      text = (exponent.map Exponent.written).getD [] ++ rest := by
  unfold readExponent
  split
  · exact ⟨none, [], rfl, by simp, rfl⟩
  · rename_i marker rest
    split
    · rename_i hmarker
      rw [Bool.or_eq_true, beq_iff_eq, beq_iff_eq] at hmarker
      obtain ⟨sign, afterSign, hsign, hmem, rfl⟩ := exists_readSign rest
      simp only [hsign, List.span_eq_takeWhile_dropWhile]
      split
      · exact ⟨none, _, rfl, by simp, rfl⟩
      · rename_i hne
        rw [List.isEmpty_iff] at hne
        refine ⟨some _, _, rfl, ?_, by simp [Exponent.written]⟩
        rintro _ ⟨⟩
        exact ⟨hmarker, hmem, hne, fun c hc => List.mem_takeWhile_imp hc⟩
    · exact ⟨none, _, rfl, by simp, rfl⟩

/-- What is read is a numeral, and the rest follows it. -/
theorem Numeral.isWellFormed_of_leading? {text rest : List Char} {n : Numeral}
    (hread : Numeral.leading? text = some (n, rest)) :
    n.IsWellFormed ∧ text = n.written ++ rest := by
  obtain ⟨sign, afterSign, hsign, hsignMem, rfl⟩ := exists_readSign text
  obtain ⟨hasPoint, fraction, afterFraction, hpoint, hfraction, hnone, hafterWhole⟩ :=
    exists_readFraction (!(afterSign.takeWhile isAsciiDigit).isEmpty)
      (afterSign.dropWhile isAsciiDigit)
  obtain ⟨exponent, back, hexponent, hpower, rfl⟩ := exists_readExponent afterFraction
  simp only [Numeral.leading?, hsign, List.span_eq_takeWhile_dropWhile, hpoint, hexponent] at hread
  split at hread
  · cases hread
  · rename_i hdigits
    obtain ⟨rfl, rfl⟩ := Prod.mk.inj (Option.some.inj hread)
    refine ⟨⟨hsignMem, fun c hc => List.mem_takeWhile_imp hc, hfraction, ?_, hnone, hpower⟩, ?_⟩
    · simpa [List.append_eq_nil_iff] using hdigits
    · conv_lhs =>
        rw [← @List.takeWhile_append_dropWhile _ isAsciiDigit afterSign, hafterWhole]
      simp [Numeral.written]

/-! ## Nothing more could be read -/

theorem isAsciiDigit_of_mem_head? {digits back : List Char} (hdigits : digits ∈ digitRuns)
    {c : Char} (hc : c ∈ (digits ++ back).head?) : isAsciiDigit c = true := by
  obtain ⟨hne, hall⟩ := hdigits
  rw [List.head?_append_of_ne_nil _ hne] at hc
  exact hall c (List.mem_of_mem_head? hc)

theorem span_append {digits : List Char} (hdigits : ∀ c ∈ digits, isAsciiDigit c = true)
    (back : List Char) :
    (digits ++ back).span isAsciiDigit =
      (digits ++ back.takeWhile isAsciiDigit, back.dropWhile isAsciiDigit) := by
  rw [List.span_eq_takeWhile_dropWhile, List.takeWhile_append_of_pos hdigits,
    List.dropWhile_append_of_pos hdigits]

theorem readSign_append {sign text : List Char} (hsign : sign ∈ [[], ['+'], ['-']])
    (htext : ∀ c ∈ text.head?, isAsciiDigit c = true ∨ c = '.') :
    readSign (sign ++ text) = (sign, text) := by
  simp only [List.mem_cons, List.not_mem_nil, or_false] at hsign
  obtain rfl | rfl | rfl := hsign
  · cases text with
    | nil => rfl
    | cons c rest =>
      have hc : c ≠ '+' ∧ c ≠ '-' := by
        obtain hdigit | rfl := htext c rfl
        · exact ⟨ne_of_isAsciiDigit hdigit '+', ne_of_isAsciiDigit hdigit '-'⟩
        · decide
      simp [readSign, hc]
  · rfl
  · rfl

theorem readSign_digits {sign digits : List Char} (hsign : sign ∈ [[], ['+'], ['-']])
    (hdigits : digits ∈ digitRuns) (back : List Char) :
    readSign (sign ++ (digits ++ back)) = (sign, digits ++ back) :=
  readSign_append hsign fun _ hc => .inl (isAsciiDigit_of_mem_head? hdigits hc)

/-- Behind a point all digits are read. -/
theorem readFraction_point {hasWhole : Bool} {fraction : List Char}
    (hfraction : ∀ c ∈ fraction, isAsciiDigit c = true) (hdigits : hasWhole = true ∨ fraction ≠ [])
    (back : List Char) :
    readFraction hasWhole ('.' :: (fraction ++ back)) =
      (true, fraction ++ back.takeWhile isAsciiDigit, back.dropWhile isAsciiDigit) := by
  simp only [readFraction, span_append hfraction]
  split
  · rename_i hnone
    rw [List.isEmpty_iff, List.append_eq_nil_iff] at hnone
    obtain ⟨rfl, hback⟩ := hnone
    have hkept : back.dropWhile isAsciiDigit = back := by
      conv_rhs =>
        rw [← @List.takeWhile_append_dropWhile _ isAsciiDigit back, hback, List.nil_append]
    rw [if_pos (hdigits.resolve_right (by simp)), hback, hkept]
    rfl
  · rfl

/-- A power of ten is read with all digits that follow. -/
theorem readExponent_written {e : Exponent} (he : e.IsWellFormed) (back : List Char) :
    readExponent (e.written ++ back) =
      (some { e with digits := e.digits ++ back.takeWhile isAsciiDigit },
        back.dropWhile isAsciiDigit) := by
  obtain ⟨hne, hdigits⟩ := he.digits_mem
  have hsign := readSign_digits he.sign_mem he.digits_mem back
  have hmarker : (e.marker == 'e' || e.marker == 'E') = true := by simpa using he.marker
  simp only [Exponent.written, List.cons_append, List.append_assoc, readExponent, hmarker, if_true,
    hsign, span_append hdigits]
  simp [hne]

/-- Neither digits nor a point begin a power of ten. -/
theorem Exponent.IsWellFormed.not_read_before {e : Exponent} (he : e.IsWellFormed)
    (back : List Char) :
    (e.written ++ back).takeWhile isAsciiDigit = [] ∧
      (e.written ++ back).dropWhile isAsciiDigit = e.written ++ back ∧
      ∀ hasWhole, readFraction hasWhole (e.written ++ back) = (false, [], e.written ++ back) := by
  obtain ⟨marker, sign, digits⟩ := e
  obtain rfl | rfl := he.marker
  · exact ⟨rfl, rfl, fun _ => rfl⟩
  · exact ⟨rfl, rfl, fun _ => rfl⟩

namespace Numeral

/-- Digits with a point are read with all digits that follow. -/
theorem leading?_point {sign whole fraction : List Char} (hsign : sign ∈ [[], ['+'], ['-']])
    (hwhole : ∀ c ∈ whole, isAsciiDigit c = true)
    (hfraction : ∀ c ∈ fraction, isAsciiDigit c = true)
    (hne : whole ++ fraction ≠ []) (tail : List Char) :
    leading? (sign ++ (whole ++ '.' :: (fraction ++ tail))) =
      some (⟨sign, whole, true, fraction ++ tail.takeWhile isAsciiDigit,
        (readExponent (tail.dropWhile isAsciiDigit)).1⟩,
        (readExponent (tail.dropWhile isAsciiDigit)).2) := by
  have hread : readSign (sign ++ (whole ++ '.' :: (fraction ++ tail))) =
      (sign, whole ++ '.' :: (fraction ++ tail)) := by
    refine readSign_append hsign fun c hc => ?_
    cases whole with
    | nil => exact .inr (Option.some.inj hc).symm
    | cons d whole => exact .inl (hwhole c (List.mem_of_mem_head? hc))
  have hdigits : (!whole.isEmpty) = true ∨ fraction ≠ [] := by
    cases whole with
    | nil => exact .inr hne
    | cons d whole => exact .inl rfl
  have hspan : (whole ++ '.' :: (fraction ++ tail)).span isAsciiDigit =
      (whole, '.' :: (fraction ++ tail)) := by
    simpa [isAsciiDigit] using span_append hwhole ('.' :: (fraction ++ tail))
  have hsome : (whole.isEmpty && (fraction ++ tail.takeWhile isAsciiDigit).isEmpty) = false := by
    rw [← Bool.not_eq_true, Bool.and_eq_true, List.isEmpty_iff, List.isEmpty_iff]
    rintro ⟨rfl, hnone⟩
    exact hne (List.append_eq_nil_iff.mp hnone).1
  simp only [leading?, hread, hspan, readFraction_point hfraction hdigits tail, hsome,
    Bool.false_eq_true, if_false]

/-- Digits are read with all digits that follow, and then a point or none. -/
theorem leading?_whole {sign whole : List Char} (hsign : sign ∈ [[], ['+'], ['-']])
    (hwhole : whole ∈ digitRuns) (tail : List Char) :
    leading? (sign ++ (whole ++ tail)) =
      let (hasPoint, fraction, after) := readFraction true (tail.dropWhile isAsciiDigit)
      some (⟨sign, whole ++ tail.takeWhile isAsciiDigit, hasPoint, fraction,
        (readExponent after).1⟩, (readExponent after).2) := by
  have hread := readSign_digits hsign hwhole tail
  obtain ⟨hne, hdigits⟩ := hwhole
  have hsome : (whole ++ tail.takeWhile isAsciiDigit).isEmpty = false := by simp [hne]
  simp only [leading?, hread, span_append hdigits, hsome, Bool.not_false, Bool.false_and,
    Bool.false_eq_true, if_false]

theorem suffix_readExponent (text : List Char) : (readExponent text).2 <:+ text := by
  obtain ⟨exponent, rest, hread, -, htext⟩ := exists_readExponent text
  rw [hread]
  exact ⟨_, htext.symm⟩

theorem suffix_readFraction (hasWhole : Bool) (text : List Char) :
    (readFraction hasWhole text).2.2 <:+ text := by
  obtain ⟨hasPoint, fraction, rest, hread, -, -, htext⟩ := exists_readFraction hasWhole text
  rw [hread]
  exact ⟨_, htext.symm⟩

/-- A numeral is read from a text that begins with it, and what is left is left of the rest. -/
theorem IsWellFormed.exists_leading? {n : Numeral} (hn : n.IsWellFormed) (back : List Char) :
    ∃ m rest, leading? (n.written ++ back) = some (m, rest) ∧ rest <:+ back ∧
      (back = [] → m = n) := by
  obtain ⟨sign, whole, hasPoint, fraction, exponent⟩ := n
  obtain ⟨hsign, hwhole, hfraction, hne, hpoint, hexponent⟩ := hn
  dsimp only at *
  have hrest : back.dropWhile isAsciiDigit <:+ back := List.dropWhile_suffix _
  cases hasPoint with
  | true =>
    have hwritten : written ⟨sign, whole, true, fraction, exponent⟩ ++ back =
        sign ++ (whole ++ '.' ::
          (fraction ++ ((exponent.map Exponent.written).getD [] ++ back))) := by
      simp [written]
    rw [hwritten, leading?_point hsign hwhole hfraction hne]
    cases exponent with
    | none =>
      refine ⟨_, _, rfl, (suffix_readExponent _).trans hrest, ?_⟩
      rintro rfl
      simp [readExponent]
    | some e =>
      obtain ⟨hnone, hkept, -⟩ := (hexponent e rfl).not_read_before back
      rw [Option.map_some, Option.getD_some, hnone, hkept, readExponent_written (hexponent e rfl)]
      refine ⟨_, _, rfl, hrest, ?_⟩
      rintro rfl
      simp
  | false =>
    obtain rfl := hpoint rfl
    have hdigits : whole ∈ digitRuns := ⟨by simpa using hne, hwhole⟩
    have hwritten : written ⟨sign, whole, false, [], exponent⟩ ++ back =
        sign ++ (whole ++ ((exponent.map Exponent.written).getD [] ++ back)) := by
      simp [written]
    rw [hwritten, leading?_whole hsign hdigits]
    cases exponent with
    | none =>
      refine ⟨_, _, rfl, ?_, ?_⟩
      · exact (suffix_readExponent _).trans ((suffix_readFraction _ _).trans hrest)
      · rintro rfl
        simp [readExponent]
    | some e =>
      obtain ⟨hnone, hkept, hfraction⟩ := (hexponent e rfl).not_read_before back
      rw [Option.map_some, Option.getD_some, hnone, hkept, hfraction]
      dsimp only
      rw [readExponent_written (hexponent e rfl)]
      refine ⟨_, _, rfl, hrest, ?_⟩
      rintro rfl
      simp

/-- What is read is the longest text of a number that the text begins with. -/
theorem isLongestStart_of_leading? {text rest : List Char} {n : Numeral}
    (hread : leading? text = some (n, rest)) : IsLongestStart numberTexts n.written text := by
  obtain ⟨hn, htext⟩ := isWellFormed_of_leading? hread
  refine ⟨mem_numberTexts_iff.mpr ⟨n, hn, rfl⟩, ⟨rest, htext.symm⟩, ?_⟩
  rintro _ hother ⟨back, hback⟩
  obtain ⟨k, hk, rfl⟩ := mem_numberTexts_iff.mp hother
  obtain ⟨m, left, hm, hleft, -⟩ := hk.exists_leading? back
  rw [hback, hread] at hm
  obtain ⟨rfl, rfl⟩ := Prod.mk.inj (Option.some.inj hm)
  refine List.prefix_of_prefix_length_le ⟨back, hback⟩ ⟨rest, htext.symm⟩ ?_
  have hlength := hleft.length_le
  have hsame := congrArg List.length (hback.trans htext)
  rw [List.length_append, List.length_append] at hsame
  omega

/-- Nothing is read if the text begins with no number. -/
theorem leading?_eq_none_iff {text : List Char} :
    leading? text = none ↔ ∀ start ∈ numberTexts, ¬ start <+: text := by
  constructor
  · rintro hnone start hstart ⟨back, hback⟩
    obtain ⟨n, hn, rfl⟩ := mem_numberTexts_iff.mp hstart
    obtain ⟨m, rest, hread, -⟩ := hn.exists_leading? back
    rw [hback, hnone] at hread
    cases hread
  · intro hnone
    cases hread : leading? text with
    | none => rfl
    | some found =>
      have hlongest := isLongestStart_of_leading? hread
      exact absurd hlongest.begins (hnone _ hlongest.mem)

theorem isLongestStart_iff {start text : List Char} :
    IsLongestStart numberTexts start text ↔
      ∃ n rest, leading? text = some (n, rest) ∧ n.written = start := by
  constructor
  · intro hstart
    cases hread : leading? text with
    | none => exact absurd hstart.begins (leading?_eq_none_iff.mp hread start hstart.mem)
    | some found => exact ⟨found.1, found.2, rfl, (isLongestStart_of_leading? hread).unique hstart⟩
  · rintro ⟨n, rest, hread, rfl⟩
    exact isLongestStart_of_leading? hread

/-- The text of a numeral is read as that numeral. -/
theorem IsWellFormed.float?_written {n : Numeral} (hn : n.IsWellFormed) :
    float? n.written = some n.value := by
  obtain ⟨m, rest, hread, hrest, hsame⟩ := hn.exists_leading? []
  obtain rfl := hsame rfl
  obtain rfl := List.suffix_nil.mp hrest
  rw [List.append_nil] at hread
  rw [float?, hread]

end Numeral

/-! ## Whole numbers -/

/-- The integer that a text denotes: its digits in base ten, with its sign. -/
def DenotesInteger (text : List Char) (i : Int) : Prop :=
  ∃ sign digits, sign ∈ [[], ['+'], ['-']] ∧ digits ∈ digitRuns ∧ text = sign ++ digits ∧
    i = (if sign = ['-'] then -1 else 1) *
      (Nat.ofDigits 10 (digits.reverse.map fun c => c.toNat - '0'.toNat) : Nat)

theorem mem_integerTexts_iff {text : List Char} :
    text ∈ integerTexts ↔ ∃ i, DenotesInteger text i := by
  simp only [integerTexts, Language.mem_mul, mem_optionalSign_iff]
  constructor
  · rintro ⟨sign, hsign, digits, hdigits, rfl⟩
    exact ⟨_, sign, digits, hsign, hdigits, rfl, rfl⟩
  · rintro ⟨_, sign, digits, hsign, hdigits, rfl, -⟩
    exact ⟨sign, hsign, digits, hdigits, rfl⟩

/-- A text denotes one integer only. -/
theorem DenotesInteger.unique {text : List Char} {i j : Int} (hi : DenotesInteger text i)
    (hj : DenotesInteger text j) : i = j := by
  obtain ⟨sign, digits, hsign, hdigits, rfl, rfl⟩ := hi
  obtain ⟨sign', digits', hsign', hdigits', hsame, rfl⟩ := hj
  have hread := readSign_digits hsign hdigits []
  have hread' := readSign_digits hsign' hdigits' []
  rw [List.append_nil] at hread hread'
  rw [hsame, hread'] at hread
  obtain ⟨rfl, rfl⟩ := Prod.mk.inj hread
  rfl

/-- A whole number is read with all digits that follow. -/
theorem exists_leadingInteger? {sign digits : List Char} (hsign : sign ∈ [[], ['+'], ['-']])
    (hdigits : digits ∈ digitRuns) (back : List Char) :
    ∃ start i, leadingInteger? (sign ++ (digits ++ back)) = some i ∧ DenotesInteger start i ∧
      IsLongestStart integerTexts start (sign ++ (digits ++ back)) := by
  have hread := readSign_digits hsign hdigits back
  obtain ⟨hne, hall⟩ := hdigits
  have hruns : digits ++ back.takeWhile isAsciiDigit ∈ digitRuns :=
    ⟨by simp [hne], List.forall_mem_append.mpr ⟨hall, fun c hc => List.mem_takeWhile_imp hc⟩⟩
  have hdenotes : DenotesInteger (sign ++ (digits ++ back.takeWhile isAsciiDigit))
      ((if sign = ['-'] then -1 else 1) * natOfDigits (digits ++ back.takeWhile isAsciiDigit)) :=
    ⟨sign, _, hsign, hruns, rfl, by rw [natOfDigits_eq_ofDigits]⟩
  refine ⟨_, _, ?_, hdenotes, mem_integerTexts_iff.mpr ⟨_, hdenotes⟩, ?_, ?_⟩
  · have hsome : (digits ++ back.takeWhile isAsciiDigit).isEmpty = false := by simp [hne]
    simp only [leadingInteger?, hread, List.takeWhile_append_of_pos hall, hsome, Bool.false_eq_true,
      if_false, beq_iff_eq]
    split <;> simp
  · rw [List.prefix_append_right_inj, List.prefix_append_right_inj]
    exact List.takeWhile_prefix _
  · -- Another whole number has the same sign, so its digits are among those that were read.
    rintro _ hother ⟨left, hleft⟩
    obtain ⟨_, sign', digits', hsign', hdigits', rfl, -⟩ := mem_integerTexts_iff.mp hother
    rw [List.append_assoc] at hleft
    have hread' := readSign_digits hsign' hdigits' left
    rw [hleft, hread] at hread'
    obtain ⟨rfl, hsame⟩ := Prod.mk.inj hread'
    have hrun := congrArg (List.takeWhile isAsciiDigit) hsame
    rw [List.takeWhile_append_of_pos hall, List.takeWhile_append_of_pos hdigits'.2] at hrun
    rw [hrun, List.prefix_append_right_inj]
    exact List.prefix_append _ _

/-- The integer read is that of the longest whole number that the text begins with. -/
theorem leadingInteger?_eq_some_iff {text : List Char} {i : Int} :
    leadingInteger? text = some i ↔
      ∃ start, IsLongestStart integerTexts start text ∧ DenotesInteger start i := by
  constructor
  · intro hi
    obtain ⟨sign, afterSign, hsign, hmem, rfl⟩ := exists_readSign text
    have hne : afterSign.takeWhile isAsciiDigit ≠ [] := by
      rintro hnone
      simp [leadingInteger?, hsign, hnone] at hi
    have hruns : afterSign.takeWhile isAsciiDigit ∈ digitRuns :=
      ⟨hne, fun c hc => List.mem_takeWhile_imp hc⟩
    obtain ⟨start, j, hread, hdenotes, hlongest⟩ :=
      exists_leadingInteger? hmem hruns (afterSign.dropWhile isAsciiDigit)
    rw [List.takeWhile_append_dropWhile] at hread hlongest
    rw [hi] at hread
    obtain rfl := Option.some.inj hread
    exact ⟨start, hlongest, hdenotes⟩
  · rintro ⟨start, hstart, hi⟩
    obtain ⟨sign, digits, hsign, hdigits, rfl, -⟩ := id hi
    obtain ⟨back, rfl⟩ := hstart.begins
    obtain ⟨other, j, hread, hj, hother⟩ := exists_leadingInteger? hsign hdigits back
    rw [← List.append_assoc] at hread hother
    rw [hother.unique hstart] at hj
    rw [hread, hj.unique hi]

end DesignCompiler.Decimal
