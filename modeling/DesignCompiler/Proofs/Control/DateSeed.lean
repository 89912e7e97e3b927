import DesignCompiler.Control.Date
import DesignCompiler.Proofs.Decimal.Value
import DesignCompiler.Proofs.Text.Classes
import DesignCompiler.Proofs.Text.Scanning

/-!
# Reading dates back

The seed of a hint is the date that is written in it, whatever stands before the date. What stands
behind it counts in one case: a day of one digit takes up a digit that follows it, across any marks
of days in between.
-/

namespace DesignCompiler.Control

open Text

/-! ## Written dates -/

/-- The separators of numeric dates. -/
def dateSeparators : List Char := ['/', '-', '.']

/-- The marks behind years, months and days. -/
def dateMarks : List Char := ['年', '月', '日']

/-- The calendar has the date. -/
structure Date.IsValid (date : Date) : Prop where
  one_le_month : 1 ≤ date.month
  month_le : date.month ≤ 12
  one_le_day : 1 ≤ date.day
  day_le : date.day ≤ daysInMonth date.year date.month

/-- One or two digits that denote a number. -/
structure WritesPart (digits : List Char) (n : Nat) : Prop where
  value_eq : Decimal.nat? digits = some n
  length_le : digits.length ≤ 2

/-- A year in four digits, and a month in one or two. -/
structure WritesMonth (year month : List Char) (y m : Nat) : Prop where
  year_eq : Decimal.nat? year = some y
  length_year : year.length = 4
  writesMonth : WritesPart month m

/-- A date as it is written: its year, its month and its day. -/
structure WritesDate (year month day : List Char) (date : Date) : Prop
    extends WritesMonth year month date.year date.month where
  writesDay : WritesPart day date.day

/-- The day has one digit, and a further digit follows once the marks of days are left out. -/
def RunsOn (day rest : List Char) : Prop :=
  day.length = 1 ∧ ∃ c ∈ (rest.dropWhile (· == '日')).head?, isDigit c = true

theorem Date.of?_eq_some {date : Date} (hvalid : date.IsValid) :
    Date.of? date.year date.month date.day = some date := by
  simp [Date.of?, hvalid.one_le_month, hvalid.month_le, hvalid.one_le_day, hvalid.day_le]

theorem Date.isValid_first {y m : Nat} (hfirst : 1 ≤ m) (hlast : m ≤ 12) :
    (⟨y, m, 1⟩ : Date).IsValid where
  one_le_month := hfirst
  month_le := hlast
  one_le_day := Nat.le_refl 1
  day_le := by
    show 1 ≤ daysInMonth y m
    unfold daysInMonth
    split <;> split <;> decide

theorem Date.day_of? {date : Date} {y m d : Nat} (hdate : Date.of? y m d = some date) :
    date.day = d := by
  rw [Date.of?] at hdate
  split at hdate
  · cases hdate
    rfl
  · cases hdate

/-! ## Digits -/

theorem isDigit_of_nat? {digits : List Char} {n : Nat} (hvalue : Decimal.nat? digits = some n) :
    ∀ c ∈ digits, isDigit c = true :=
  fun c hc => isDigit_of_isAsciiDigit ((Decimal.nat?_eq_some_iff.mp hvalue).2.1 c hc)

theorem ne_nil_of_nat? {digits : List Char} {n : Nat} (hvalue : Decimal.nat? digits = some n) :
    digits ≠ [] := (Decimal.nat?_eq_some_iff.mp hvalue).1

theorem digitsUpTo_append {most : Nat} {digits rest : List Char}
    (hdigits : ∀ c ∈ digits, isDigit c = true) (hlength : digits.length ≤ most)
    (hends : digits.length = most ∨ ∀ c ∈ rest.head?, isDigit c = false) :
    digitsUpTo most (digits ++ rest) = digits :=
  takeWhile_take_append hdigits hlength hends

theorem fourDigits?_append {year : List Char} (hdigits : ∀ c ∈ year, isDigit c = true)
    (hlength : year.length = 4) (rest : List Char) :
    fourDigits? (year ++ rest) = some (year, rest) := by
  have hdrop : (year ++ rest).drop 4 = rest := List.drop_left' hlength
  rw [fourDigits?, digitsUpTo_append hdigits (Nat.le_of_eq hlength) (.inl hlength), hdrop, hlength]
  rfl

theorem fourDigits?_of_short {text : List Char} (hshort : (text.takeWhile isDigit).length < 4) :
    fourDigits? text = none := by
  have hle : (digitsUpTo 4 text).length ≤ (text.takeWhile isDigit).length := by
    rw [digitsUpTo, ← List.take_takeWhile]
    exact (List.take_prefix _ _).length_le
  have hne : (digitsUpTo 4 text).length ≠ 4 := by omega
  simp [fourDigits?, hne]

theorem twoDigits?_append {digits rest : List Char} {n : Nat} (hpart : WritesPart digits n)
    (hends : digits.length = 2 ∨ ∀ c ∈ rest.head?, isDigit c = false) :
    twoDigits? (digits ++ rest) = some (digits, rest) := by
  have hupTo := digitsUpTo_append (isDigit_of_nat? hpart.value_eq) hpart.length_le hends
  simp [twoDigits?, hupTo, ne_nil_of_nat? hpart.value_eq]

/-- A single digit is read together with a digit behind it. -/
theorem twoDigits?_of_single {a c : Char} (ha : isDigit a = true) (hc : isDigit c = true)
    (rest : List Char) : twoDigits? (a :: c :: rest) = some ([a, c], rest) := by
  simp [twoDigits?, digitsUpTo, ha, hc]

/-! ## Reading at a place -/

/-- A slash is no digit, so a month that stands before one is read as it is. -/
theorem yearMonth?_append {year month rest : List Char} {y m : Nat}
    (hwrites : WritesMonth year month y m) (hrest : ∀ c ∈ rest.head?, isDigit c = false) :
    yearMonth? (year ++ '/' :: (month ++ rest)) = some (year, month, rest) := by
  have hyear := fourDigits?_append (isDigit_of_nat? hwrites.year_eq) hwrites.length_year
    ('/' :: (month ++ rest))
  simp [yearMonth?, hyear, twoDigits?_append hwrites.writesMonth (.inr hrest)]

theorem yearMonth?_of_short {text : List Char} (hshort : (text.takeWhile isDigit).length < 4) :
    yearMonth? text = none := by
  simp [yearMonth?, fourDigits?_of_short hshort]

theorem yearMonth?_of_head {c : Char} (hc : isDigit c = false) (text : List Char) :
    yearMonth? (c :: text) = none :=
  yearMonth?_of_short (by simp [hc])

theorem fullDate?_eq {text year month afterMonth day rest : List Char}
    (hmonth : yearMonth? text = some (year, month, '/' :: afterMonth))
    (hday : twoDigits? afterMonth = some (day, rest)) (previous : Option Char) :
    fullDate? previous text = some ((year, month, day), text.length - rest.length) := by
  simp [fullDate?, hmonth, hday]

/-! ## Slashes -/

/-- What stands for a character in a hint with slashes. -/
def slashed (c : Char) : List Char :=
  if c == '日' then [] else if ['年', '月', '.', '-'].contains c then ['/'] else [c]

theorem slashedHint_eq (hint : List Char) : slashedHint hint = (trim hint).flatMap slashed := rfl

theorem slashed_of_mark {mark : Char} (hmark : mark ∈ ['/', '-', '.', '年', '月']) :
    slashed mark = ['/'] := by
  simp only [List.mem_cons, List.not_mem_nil, or_false] at hmark
  obtain rfl | rfl | rfl | rfl | rfl := hmark <;> rfl

theorem slashed_of_isDigit {c : Char} (hc : isDigit c = true) : slashed c = [c] := by
  have hnone : ['日', '年', '月', '.', '-'].any isDigit = false := by decide
  have hother : ∀ mark ∈ ['日', '年', '月', '.', '-'], c ≠ mark := by
    rintro mark hmark rfl
    exact List.any_eq_false.mp hnone c hmark hc
  simp only [List.forall_mem_cons] at hother
  obtain ⟨hday, hyear, hmonth, hdot, hhyphen, -⟩ := hother
  simp [slashed, hday, hyear, hmonth, hdot, hhyphen]

theorem not_isDigit_of_mem_slashed {c d : Char} (hc : isDigit c = false) (hd : d ∈ slashed c) :
    isDigit d = false := by
  rw [slashed] at hd
  split at hd
  · cases hd
  · split at hd
    · rw [List.mem_singleton.mp hd]
      decide
    · rwa [List.mem_singleton.mp hd]

theorem flatMap_slashed_of_isDigit {digits : List Char} (hdigits : ∀ c ∈ digits, isDigit c = true) :
    digits.flatMap slashed = digits := by
  rw [List.flatMap_congr fun c hc => slashed_of_isDigit (hdigits c hc)]
  simp

/-- A digit comes first in a text with slashes if only marks of days stand before it. -/
theorem exists_head?_flatMap_slashed_iff (rest : List Char) :
    (∃ c ∈ (rest.flatMap slashed).head?, isDigit c = true) ↔
      ∃ c ∈ (rest.dropWhile (· == '日')).head?, isDigit c = true := by
  induction rest with
  | nil => simp
  | cons c rest ih =>
    by_cases hday : c = '日'
    · subst hday
      simpa [slashed] using ih
    · rw [List.flatMap_cons, List.dropWhile_cons_of_neg (by simpa using hday)]
      cases hc : isDigit c with
      | true => simp [slashed_of_isDigit hc, hc]
      | false =>
        obtain ⟨d, hd⟩ : ∃ d, slashed c = [d] := by
          rw [slashed, if_neg (by simpa using hday)]
          split
          · exact ⟨_, rfl⟩
          · exact ⟨_, rfl⟩
        have hnot := not_isDigit_of_mem_slashed (d := d) hc (by simp [hd])
        simp [hd, hnot, hc]

/-- Blanks at the end do not matter to the character behind the marks of days. -/
theorem exists_digit_trimEnd_iff (rest : List Char) :
    (∃ c ∈ ((trimEnd rest).dropWhile (· == '日')).head?, isDigit c = true) ↔
      ∃ c ∈ (rest.dropWhile (· == '日')).head?, isDigit c = true := by
  obtain ⟨blanks, hrest, hblanks⟩ := exists_eq_trimEnd_append rest
  conv_rhs => rw [hrest, List.dropWhile_append]
  split
  · rename_i hmarks
    rw [List.isEmpty_iff] at hmarks
    rw [hmarks]
    -- What comes next is blank, so it is no digit.
    have hblank : ∀ c ∈ (blanks.dropWhile (· == '日')).head?, isDigit c = false := fun c hc => by
      have hmem := (List.dropWhile_sublist (· == '日')).subset (List.mem_of_mem_head? hc)
      exact not_isDigit_of_isBlank (allBlank_iff.mp hblanks c hmem)
    constructor
    · simp
    · rintro ⟨c, hc, hdigit⟩
      rw [hblank c hc] at hdigit
      cases hdigit
  · rename_i hother
    rw [List.isEmpty_iff] at hother
    rw [List.head?_append_of_ne_nil _ hother]

/-- The written date stays as it is between what stands around it. -/
theorem slashedHint_append {front core back : List Char} (hne : core ≠ [])
    (hhead : ∀ c ∈ core.head?, isDigit c = true) (hlast : ∀ c ∈ core.getLast?, isDigit c = true) :
    slashedHint (front ++ core ++ back) =
      (trimStart front).flatMap slashed ++ core.flatMap slashed ++
        (trimEnd back).flatMap slashed := by
  have htrimmed : IsTrimmed core :=
    ⟨fun c hc => not_isBlank_of_isDigit (hhead c hc),
      fun c hc => not_isBlank_of_isDigit (hlast c hc)⟩
  rw [slashedHint_eq, htrimmed.trim_append hne, List.flatMap_append, List.flatMap_append]

/-- There are no digits in front of the date with slashes if there were none before. -/
theorem not_isDigit_of_mem_front {front : List Char} (hfront : ∀ c ∈ front, isDigit c = false) :
    ∀ c ∈ (trimStart front).flatMap slashed, isDigit c = false := by
  intro d hd
  obtain ⟨c, hc, hslashed⟩ := List.mem_flatMap.mp hd
  exact not_isDigit_of_mem_slashed (hfront c (mem_of_mem_trimStart hc)) hslashed

/-! ## Days -/

theorem dayIn?_append {front : List Char} (hfront : ∀ c ∈ front, isDigit c = false)
    (text : List Char) : dayIn? (front ++ text) = dayIn? text := by
  have hpassed := @firstMatch?_append_of_none _ fullDate? (fun _ _ _ => rfl) front text
    fun passed c back hback => by
      have hc := hfront c (by simp [hback])
      rw [List.cons_append, fullDate?, yearMonth?_of_head hc]
      rfl
  rw [dayIn?, hpassed, dayIn?]
  cases firstMatch? fullDate? text <;> rfl

/-- The date of a year, a month and a day in digits. -/
def dateOf? (year month day : List Char) : Option Date := do
  Date.of? (← Decimal.nat? year) (← Decimal.nat? month) (← Decimal.nat? day)

theorem dayIn?_eq {text year month afterMonth day rest : List Char}
    (hmonth : yearMonth? text = some (year, month, '/' :: afterMonth))
    (hday : twoDigits? afterMonth = some (day, rest)) : dayIn? text = dateOf? year month day := by
  have hne : text ≠ [] := by
    rintro rfl
    cases hmonth
  rw [dayIn?, firstMatch?_of_some hne (fullDate?_eq hmonth hday none)]
  rfl

theorem WritesDate.dateOf?_eq {year month day : List Char} {date : Date}
    (hwrites : WritesDate year month day date) (hvalid : date.IsValid) :
    dateOf? year month day = some date := by
  rw [dateOf?, hwrites.year_eq, hwrites.writesMonth.value_eq, hwrites.writesDay.value_eq]
  exact Date.of?_eq_some hvalid

/-- A day that takes up a further digit is another one. -/
theorem WritesDate.dateOf?_ne {year month : List Char} {a c : Char} {date : Date}
    (hwrites : WritesDate year month [a] date) (hvalid : date.IsValid) :
    dateOf? year month [a, c] ≠ some date := by
  rw [dateOf?, hwrites.year_eq, hwrites.writesMonth.value_eq]
  simp only [Option.bind_eq_bind, Option.bind_some]
  intro hread
  obtain ⟨d, hd, hdate⟩ := Option.bind_eq_some_iff.mp hread
  have hday := Date.day_of? hdate
  have hsingle := (Decimal.nat?_eq_some_iff.mp hwrites.writesDay.value_eq).2.2.symm
  have hpair := (Decimal.nat?_eq_some_iff.mp hd).2.2.symm
  have hpositive := hvalid.one_le_day
  simp only [Decimal.natOfDigits, List.foldl_cons, List.foldl_nil] at hsingle hpair
  omega

/-- A date that is followed by text is the date up to the end of its day. -/
theorem dayIn?_date_iff {year month day rest : List Char} {date : Date}
    (hwrites : WritesDate year month day date) (hvalid : date.IsValid) :
    dayIn? (year ++ '/' :: (month ++ '/' :: (day ++ rest))) = some date ↔
      ¬ (day.length = 1 ∧ ∃ c ∈ rest.head?, isDigit c = true) := by
  have hmonth : yearMonth? (year ++ '/' :: (month ++ '/' :: (day ++ rest))) =
      some (year, month, '/' :: (day ++ rest)) :=
    yearMonth?_append hwrites.toWritesMonth fun c hc => by cases hc; decide
  by_cases hruns : day.length = 1 ∧ ∃ c ∈ rest.head?, isDigit c = true
  · obtain ⟨hlength, c, hc, hdigit⟩ := hruns
    obtain ⟨a, rfl⟩ := List.length_eq_one_iff.mp hlength
    obtain ⟨back, rfl⟩ := List.head?_eq_some_iff.mp hc
    have ha := isDigit_of_nat? hwrites.writesDay.value_eq a List.mem_cons_self
    rw [dayIn?_eq hmonth (twoDigits?_of_single ha hdigit back)]
    exact iff_of_false (hwrites.dateOf?_ne hvalid) (not_not_intro ⟨rfl, c, rfl, hdigit⟩)
  · have hends : day.length = 2 ∨ ∀ c ∈ rest.head?, isDigit c = false := by
      have hpositive := List.length_pos_of_ne_nil (ne_nil_of_nat? hwrites.writesDay.value_eq)
      have hle := hwrites.writesDay.length_le
      by_cases hlength : day.length = 1
      · right
        intro c hc
        rw [← Bool.not_eq_true]
        exact fun hdigit => hruns ⟨hlength, c, hc, hdigit⟩
      · left
        omega
    rw [dayIn?_eq hmonth (twoDigits?_append hwrites.writesDay hends)]
    exact iff_of_true (hwrites.dateOf?_eq hvalid) hruns

theorem ofHint?_eq_day_iff {hint : List Char} {date : Date} :
    DateSeed.ofHint? hint = some (.day date) ↔ dayIn? (slashedHint hint) = some date := by
  rw [DateSeed.ofHint?]
  cases dayIn? (slashedHint hint) with
  | some found => simp
  | none =>
    cases monthIn? (slashedHint hint) with
    | some found => simp
    | none => cases yearIn? (slashedHint hint) <;> simp

/-! ## Months -/

theorem monthIn?_append {front : List Char} (hfront : ∀ c ∈ front, isDigit c = false)
    (text : List Char) : monthIn? (front ++ text) = monthIn? text := by
  have hpassed := @firstMatch?_append_of_none _ monthDate? (fun _ _ _ => rfl) front text
    fun passed c back hback => by
      have hc := hfront c (by simp [hback])
      rw [List.cons_append, monthDate?, yearMonth?_of_head hc]
      rfl
  rw [monthIn?, hpassed, monthIn?]
  cases firstMatch? monthDate? text <;> rfl

theorem monthIn?_of_writesMonth {year month tail : List Char} {y m : Nat}
    (hwrites : WritesMonth year month y m) (hfirst : 1 ≤ m) (hlast : m ≤ 12)
    (htail : ∀ c ∈ tail.head?, isDigit c = false) :
    monthIn? (year ++ '/' :: (month ++ tail)) = some ⟨y, m, 1⟩ := by
  have hmatch : monthDate? none (year ++ '/' :: (month ++ tail)) =
      some ((year, month), (year ++ '/' :: (month ++ tail)).length - tail.length) := by
    simp [monthDate?, yearMonth?_append hwrites htail]
  rw [monthIn?, firstMatch?_of_some (by simp) hmatch]
  simp only [Option.bind_eq_bind, Option.bind_some, hwrites.year_eq, hwrites.writesMonth.value_eq]
  exact Date.of?_eq_some (Date.isValid_first hfirst hlast)

/-- Only at its start does a text with a year in front begin with four digits, if little enough
    follows the year. -/
theorem eq_or_short_of_suffix {year rest back : List Char} {c : Char}
    (hdigits : ∀ d ∈ year, isDigit d = true) (hlength : year.length = 4) (hc : isDigit c = false)
    (hrest : rest.length < 4) (hback : back <:+ year ++ c :: rest) :
    back = year ++ c :: rest ∨ (back.takeWhile isDigit).length < 4 := by
  obtain ⟨passed, hpassed⟩ := hback
  obtain ⟨front, rfl, rfl⟩ | ⟨front, -, hfront⟩ := List.append_eq_append_iff.mp hpassed
  · cases passed with
    | nil => exact .inl rfl
    | cons d passed =>
      right
      have hfront : ∀ d ∈ front, isDigit d = true := fun e he =>
        hdigits e (List.mem_append_right (d :: passed) he)
      rw [takeWhile_append_of_head? hfront (by simpa using hc)]
      rw [List.length_append, List.length_cons] at hlength
      omega
  · right
    cases front with
    | nil =>
      rw [List.nil_append] at hfront
      simp [← hfront, hc]
    | cons d front =>
      rw [List.cons_append, List.cons.injEq] at hfront
      have hle := congrArg List.length hfront.2
      have htake := (List.takeWhile_sublist isDigit (l := back)).length_le
      rw [List.length_append] at hle
      omega

/-- A slash at most goes on with no digit. -/
theorem not_isDigit_of_mem_head? {tail : List Char} (htail : tail = [] ∨ tail = ['/']) :
    ∀ c ∈ tail.head?, isDigit c = false := by
  intro c hc
  obtain rfl | rfl := htail
  · cases hc
  · cases hc
    decide

/-- No day is read where nothing but a slash follows the month. -/
theorem dayIn?_of_writesMonth {year month tail : List Char} {y m : Nat}
    (hwrites : WritesMonth year month y m) (htail : tail = [] ∨ tail = ['/']) :
    dayIn? (year ++ '/' :: (month ++ tail)) = none := by
  have hshort : (month ++ tail).length < 4 := by
    have hle := hwrites.writesMonth.length_le
    obtain rfl | rfl := htail <;> simp <;> omega
  have hhead := not_isDigit_of_mem_head? htail
  have hnone : ∀ back, back <:+ year ++ '/' :: (month ++ tail) → fullDate? none back = none := by
    intro back hback
    obtain rfl | hless := eq_or_short_of_suffix (isDigit_of_nat? hwrites.year_eq)
      hwrites.length_year (by decide) hshort hback
    · rw [fullDate?, yearMonth?_append hwrites hhead]
      obtain rfl | rfl := htail <;> rfl
    · rw [fullDate?, yearMonth?_of_short hless]
      rfl
  rw [dayIn?, firstMatch?_eq_none (fun _ _ _ => rfl) hnone]
  rfl

/-! ## Seeds -/

theorem ofHint?_eq_month {hint : List Char} {date : Date} (hday : dayIn? (slashedHint hint) = none)
    (hmonth : monthIn? (slashedHint hint) = some date) :
    DateSeed.ofHint? hint = some (.month date) := by
  simp [DateSeed.ofHint?, hday, hmonth]

/-- The hint with slashes around a text that begins and ends with a digit. -/
theorem slashedHint_written {first last : List Char} {y n : Nat}
    (hfirst : Decimal.nat? first = some y) (hlast : Decimal.nat? last = some n)
    (front middle back : List Char) :
    slashedHint (front ++ (first ++ middle ++ last) ++ back) =
      (trimStart front).flatMap slashed ++
        (first ++ middle.flatMap slashed ++ last ++ (trimEnd back).flatMap slashed) := by
  have hfirstDigit := isDigit_of_nat? hfirst
  have hlastDigit := isDigit_of_nat? hlast
  have hne := ne_nil_of_nat? hfirst
  have hne' := ne_nil_of_nat? hlast
  rw [slashedHint_append (by simp [hne])]
  · simp [flatMap_slashed_of_isDigit hfirstDigit, flatMap_slashed_of_isDigit hlastDigit]
  · intro c hc
    rw [List.append_assoc, List.head?_append_of_ne_nil _ hne] at hc
    exact hfirstDigit c (List.mem_of_mem_head? hc)
  · intro c hc
    rw [List.getLast?_append_of_ne_nil _ hne'] at hc
    exact hlastDigit c (List.mem_of_mem_getLast? hc)

/-- A hint with a date in it has the seed of that date, unless its day runs on into what follows. -/
theorem ofHint?_day_iff {front year month day rest : List Char} {date : Date} {s t : Char}
    (hfront : ∀ c ∈ front, isDigit c = false) (hwrites : WritesDate year month day date)
    (hvalid : date.IsValid) (hs : slashed s = ['/']) (ht : slashed t = ['/']) :
    DateSeed.ofHint? (front ++ year ++ s :: month ++ t :: day ++ rest) = some (.day date) ↔
      ¬ RunsOn day rest := by
  have hmonth := isDigit_of_nat? hwrites.writesMonth.value_eq
  have hhint := slashedHint_written hwrites.year_eq hwrites.writesDay.value_eq
    front (s :: month ++ [t]) rest
  simp only [List.flatMap_append, List.flatMap_cons, List.flatMap_nil, hs, ht,
    flatMap_slashed_of_isDigit hmonth, List.append_assoc, List.cons_append,
    List.nil_append] at hhint
  rw [ofHint?_eq_day_iff]
  simp only [List.append_assoc, List.cons_append]
  rw [hhint, dayIn?_append (not_isDigit_of_mem_front hfront), dayIn?_date_iff hwrites hvalid,
    exists_head?_flatMap_slashed_iff, exists_digit_trimEnd_iff]
  rfl

/-- A hint that ends with a year and a month has the seed of that month. -/
theorem ofHint?_month {front year month back : List Char} {y m : Nat} {s : Char}
    (hfront : ∀ c ∈ front, isDigit c = false) (hwrites : WritesMonth year month y m)
    (hfirst : 1 ≤ m) (hlast : m ≤ 12) (hs : slashed s = ['/'])
    (hback : (trimEnd back).flatMap slashed = [] ∨ (trimEnd back).flatMap slashed = ['/']) :
    DateSeed.ofHint? (front ++ year ++ s :: month ++ back) = some (.month ⟨y, m, 1⟩) := by
  have hhint := slashedHint_written hwrites.year_eq hwrites.writesMonth.value_eq front [s] back
  simp only [List.flatMap_cons, List.flatMap_nil, hs, List.append_assoc, List.cons_append,
    List.nil_append] at hhint
  have hhead := not_isDigit_of_mem_head? hback
  simp only [List.append_assoc, List.cons_append]
  apply ofHint?_eq_month
  · rw [hhint, dayIn?_append (not_isDigit_of_mem_front hfront), dayIn?_of_writesMonth hwrites hback]
  · rw [hhint, monthIn?_append (not_isDigit_of_mem_front hfront),
      monthIn?_of_writesMonth hwrites hfirst hlast hhead]

theorem not_runsOn {day rest : List Char}
    (hrest : ∀ c ∈ rest.head?, isDigit c = false ∧ c ∉ dateMarks) : ¬ RunsOn day rest := by
  rintro ⟨-, c, hc, hdigit⟩
  cases rest with
  | nil => simp at hc
  | cons d rest =>
    obtain ⟨hd, hmark⟩ := hrest d rfl
    have hday : d ≠ '日' := by
      rintro rfl
      exact hmark (by decide)
    rw [List.dropWhile_cons_of_neg (by simpa using hday)] at hc
    cases hc
    rw [hd] at hdigit
    cases hdigit

/-- The seed of a hint is the date written in it, after anything that holds no digit: a numeric date
    before anything that begins with neither a digit nor a mark, and a date with marks before
    anything that its day does not run on into. A month at the end is the seed as well. -/
theorem ofHint?_written {front : List Char} (hfront : ∀ c ∈ front, isDigit c = false) :
    (∀ (year month day rest : List Char) (date : Date),
      WritesDate year month day date → date.IsValid →
      (∀ s ∈ dateSeparators, (∀ c ∈ rest.head?, isDigit c = false ∧ c ∉ dateMarks) →
        DateSeed.ofHint? (front ++ year ++ s :: month ++ s :: day ++ rest) = some (.day date)) ∧
      (DateSeed.ofHint? (front ++ year ++ '年' :: month ++ '月' :: day ++ '日' :: rest) =
          some (.day date) ↔ ¬ RunsOn day rest)) ∧
    ∀ (year month : List Char) (y m : Nat), WritesMonth year month y m → 1 ≤ m → m ≤ 12 →
      (∀ s ∈ dateSeparators,
        DateSeed.ofHint? (front ++ year ++ s :: month) = some (.month ⟨y, m, 1⟩)) ∧
      DateSeed.ofHint? (front ++ year ++ '年' :: month ++ ['月']) = some (.month ⟨y, m, 1⟩) := by
  have hseparator : ∀ s ∈ dateSeparators, slashed s = ['/'] := fun s hs =>
    slashed_of_mark (List.mem_append_left ['年', '月'] hs)
  constructor
  · intro year month day rest date hwrites hvalid
    refine ⟨fun s hs hrest => ?_, ?_⟩
    · exact (ofHint?_day_iff hfront hwrites hvalid (hseparator s hs) (hseparator s hs)).mpr
        (not_runsOn hrest)
    · rw [ofHint?_day_iff hfront hwrites hvalid (by decide) (by decide), RunsOn, RunsOn,
        List.dropWhile_cons_of_pos (by decide)]
  · intro year month y m hwrites hfirst hlast
    refine ⟨fun s hs => ?_, ?_⟩
    · have hseed := @ofHint?_month front year month [] y m s hfront hwrites hfirst hlast
        (hseparator s hs) (.inl rfl)
      rwa [List.append_nil] at hseed
    · exact ofHint?_month hfront hwrites hfirst hlast (by decide) (.inr (by decide))

/-- A meeting with the time behind its date, in both notations, and its month alone. -/
theorem ofHint?_written_meeting :
    WritesDate "2024".toList ['5'] ['1', '7'] ⟨2024, 5, 17⟩ ∧
      ¬ RunsOn ['1', '7'] "10:00".toList ∧
      DateSeed.ofHint? "会議 2024-5-17 10:00".toList = some (.day ⟨2024, 5, 17⟩) ∧
      DateSeed.ofHint? "会議 2024年5月17日10:00".toList = some (.day ⟨2024, 5, 17⟩) ∧
      DateSeed.ofHint? "会議 2024年5月".toList = some (.month ⟨2024, 5, 1⟩) := by
  have hnone : "会議 ".toList.any isDigit = false := by decide
  have hfront : ∀ c ∈ "会議 ".toList, isDigit c = false := fun c hc => by
    simpa using List.any_eq_false.mp hnone c hc
  have hrest : ∀ c ∈ " 10:00".toList.head?, isDigit c = false ∧ c ∉ dateMarks := fun c hc => by
    obtain rfl : ' ' = c := by simpa using hc
    decide
  have hwrites : WritesDate "2024".toList ['5'] ['1', '7'] ⟨2024, 5, 17⟩ :=
    ⟨⟨by decide, by decide, ⟨by decide, by decide⟩⟩, ⟨by decide, by decide⟩⟩
  have hvalid : (⟨2024, 5, 17⟩ : Date).IsValid :=
    ⟨by decide, by decide, by decide, by decide⟩
  have hends : ¬ RunsOn ['1', '7'] "10:00".toList := fun hruns => by
    cases hruns.1
  obtain ⟨hdates, hmonths⟩ := ofHint?_written hfront
  refine ⟨hwrites, hends, ?_, ?_, ?_⟩
  · exact (hdates _ _ _ " 10:00".toList _ hwrites hvalid).1 '-' (by decide) hrest
  · exact (hdates _ _ _ "10:00".toList _ hwrites hvalid).2.mpr hends
  · exact (hmonths _ _ _ _ hwrites.toWritesMonth (by decide) (by decide)).2

/-- The first of a month runs on into the time behind it. -/
theorem ofHint?_runs_on :
    WritesDate "2024".toList ['5'] ['1'] ⟨2024, 5, 1⟩ ∧ (⟨2024, 5, 1⟩ : Date).IsValid ∧
      DateSeed.ofHint? "2024年5月1日12:30".toList = some (.day ⟨2024, 5, 11⟩) ∧
      DateSeed.ofHint? "2024年5月1日12:30".toList ≠ some (.day ⟨2024, 5, 1⟩) := by
  refine ⟨⟨⟨by decide, by decide, ⟨by decide, by decide⟩⟩, ⟨by decide, by decide⟩⟩,
    ⟨by decide, by decide, by decide, by decide⟩, ?_, ?_⟩
  · rw [ofHint?_eq_day_iff]
    decide
  · rw [ne_eq, ofHint?_eq_day_iff]
    decide

end DesignCompiler.Control
