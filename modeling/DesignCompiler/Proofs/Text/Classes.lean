import DesignCompiler.Text.Blank
import DesignCompiler.Text.Class
import DesignCompiler.Text.Lowercase

/-!
# Relations between the classes of characters

Digits are word characters, and no word character is blank. Lower case changes letters only.
-/

namespace DesignCompiler.Text

private theorem not_isWord_at_blanks :
    ∀ range ∈ blankRanges, ∀ offset < range.2 + 1 - range.1,
      isWord (Char.ofNat (range.1 + offset)) = false := by decide +kernel

theorem not_isWord_of_isBlank {c : Char} (hc : isBlank c = true) : isWord c = false := by
  obtain ⟨range, hrange, hbounds⟩ := List.any_eq_true.mp hc
  simp only [Bool.and_eq_true, decide_eq_true_eq] at hbounds
  have hword := not_isWord_at_blanks range hrange (c.toNat - range.1) (by omega)
  rwa [Nat.add_sub_cancel' hbounds.1, Char.ofNat_toNat] at hword

theorem isWord_of_isDigit {c : Char} (hc : isDigit c = true) : isWord c = true := by
  rw [isDigit] at hc
  rw [isWord]
  split at hc
  · rename_i hascii
    simp [hascii, isAsciiAlphanumeric, hc]
  · rename_i hascii
    rw [Bool.and_eq_true] at hc
    simp [hascii, hc]

theorem not_isBlank_of_isWord {c : Char} (hc : isWord c = true) : isBlank c = false := by
  rw [← Bool.not_eq_true]
  intro hblank
  have hword := not_isWord_of_isBlank hblank
  rw [hc] at hword
  cases hword

theorem toNat_lt_of_isAsciiAlphanumeric {c : Char} (hc : isAsciiAlphanumeric c = true) :
    c.toNat < 0x80 := by
  simp only [isAsciiAlphanumeric, isAsciiLetter, isAsciiDigit, Bool.or_eq_true, Bool.and_eq_true,
    decide_eq_true_eq] at hc
  obtain (hsmall | hcapital) | hdigit := hc
  · exact Nat.lt_of_le_of_lt hsmall.2 (by decide)
  · exact Nat.lt_of_le_of_lt hcapital.2 (by decide)
  · exact Nat.lt_of_le_of_lt hdigit.2 (by decide)

/-- An ASCII letter, a digit and an underscore are word characters. -/
theorem isWord_of_asciiWord {c : Char} (hc : (isAsciiAlphanumeric c || c == '_') = true) :
    isWord c = true := by
  have hascii : c.toNat < 0x80 := by
    obtain halphanumeric | hunderscore := (Bool.or_eq_true _ _).mp hc
    · exact toNat_lt_of_isAsciiAlphanumeric halphanumeric
    · rw [beq_iff_eq.mp hunderscore]
      decide
  rw [isWord, if_pos hascii, hc]

theorem not_isBlank_of_isDigit {c : Char} (hc : isDigit c = true) : isBlank c = false :=
  not_isBlank_of_isWord (isWord_of_isDigit hc)

theorem not_isDigit_of_isBlank {c : Char} (hc : isBlank c = true) : isDigit c = false := by
  rw [← Bool.not_eq_true]
  intro hdigit
  rw [not_isBlank_of_isDigit hdigit] at hc
  cases hc

/-- A digit is none of the marks that stand between numbers and in them. -/
theorem ne_of_isAsciiDigit {c : Char} (hc : isAsciiDigit c = true) (mark : Char)
    (hmark : isAsciiDigit mark = false := by decide) : c ≠ mark := by
  rintro rfl
  rw [hc] at hmark
  cases hmark

theorem isDigit_of_isAsciiDigit {c : Char} (hc : isAsciiDigit c = true) : isDigit c = true := by
  have hbound := hc
  rw [isAsciiDigit, Bool.and_eq_true, decide_eq_true_eq, decide_eq_true_eq] at hbound
  have hascii : c.toNat ≤ '9'.toNat := hbound.2
  rw [isDigit, if_pos (Nat.lt_of_le_of_lt hascii (by decide)), hc]

theorem toNat_lt_of_isHexDigit {c : Char} (hc : isHexDigit c = true) : c.toNat < 0x80 := by
  simp only [isHexDigit, isAsciiDigit, Bool.or_eq_true, Bool.and_eq_true, decide_eq_true_eq] at hc
  obtain (hdigit | hsmall) | hcapital := hc
  · exact Nat.lt_of_le_of_lt hdigit.2 (by decide)
  · exact Nat.lt_of_le_of_lt hsmall.2 (by decide)
  · exact Nat.lt_of_le_of_lt hcapital.2 (by decide)

/-- What holds of the members of a class in ASCII holds of all of them if there are no others. -/
theorem forall_of_ascii {p : Char → Bool} {P : Char → Prop}
    (hascii : ∀ {c : Char}, p c = true → c.toNat < 0x80)
    (hcodes : ∀ code < 0x80, p (Char.ofNat code) = true → P (Char.ofNat code)) {c : Char}
    (hc : p c = true) : P c := by
  have hcode := hcodes c.toNat (hascii hc)
  rw [Char.ofNat_toNat] at hcode
  exact hcode hc

theorem forall_isHexDigit {P : Char → Prop}
    (hcodes : ∀ code < 0x80, isHexDigit (Char.ofNat code) = true → P (Char.ofNat code)) {c : Char}
    (hc : isHexDigit c = true) : P c :=
  forall_of_ascii toNat_lt_of_isHexDigit hcodes hc

theorem forall_isAsciiAlphanumeric {P : Char → Prop}
    (hcodes : ∀ code < 0x80, isAsciiAlphanumeric (Char.ofNat code) = true → P (Char.ofNat code))
    {c : Char} (hc : isAsciiAlphanumeric c = true) : P c :=
  forall_of_ascii toNat_lt_of_isAsciiAlphanumeric hcodes hc

theorem isWord_of_isHexDigit {c : Char} (hc : isHexDigit c = true) : isWord c = true :=
  forall_isHexDigit (P := fun c => isWord c = true) (by decide +kernel) hc

theorem not_isBlank_of_isHexDigit {c : Char} (hc : isHexDigit c = true) : isBlank c = false :=
  not_isBlank_of_isWord (isWord_of_isHexDigit hc)

theorem not_isHexDigit_of_isBlank {c : Char} (hc : isBlank c = true) : isHexDigit c = false := by
  rw [← Bool.not_eq_true]
  intro hdigit
  rw [not_isBlank_of_isHexDigit hdigit] at hc
  cases hc

/-! ## Letter cases -/

/-- Lower case changes capitals only. -/
theorem toLower_cases {P : Char → Char → Prop} (hsame : ∀ c : Char, c.toLower = c → P c c)
    (hcapital : ∀ offset < 26, P (Char.ofNat (65 + offset)) (Char.ofNat (65 + offset)).toLower)
    (c : Char) : P c c.toLower := by
  by_cases hc : c.val ≥ 'A'.val ∧ c.val ≤ 'Z'.val
  · have hlow : 65 ≤ c.toNat := hc.1
    have hhigh : c.toNat ≤ 90 := hc.2
    have hletter := hcapital (c.toNat - 65) (by omega)
    rwa [Nat.add_sub_cancel' hlow, Char.ofNat_toNat] at hletter
  · have hkept : c.toLower = c := dif_neg hc
    rw [hkept]
    exact hsame c hkept

/-- Lower case makes letters of letters only, and changes nothing else. -/
theorem toLower_eq_iff {c mark : Char} (hmark : mark.isAlpha = false) :
    c.toLower = mark ↔ c = mark := by
  have hletters : ∀ c : Char, c.toLower = c ∨ c.isAlpha = true ∧ c.toLower.isAlpha = true :=
    toLower_cases (P := fun c small => small = c ∨ c.isAlpha = true ∧ small.isAlpha = true)
      (fun _ _ => .inl rfl) (by decide)
  obtain hsame | ⟨hletter, hlower⟩ := hletters c
  · rw [hsame]
  · refine iff_of_false ?_ ?_
    · rintro rfl
      rw [hmark] at hlower
      cases hlower
    · rintro rfl
      rw [hmark] at hletter
      cases hletter

theorem isBlank_toLower : ∀ c : Char, isBlank c.toLower = isBlank c :=
  toLower_cases (P := fun c small => isBlank small = isBlank c) (fun _ _ => rfl) (by decide)

theorem isHexDigit_toLower : ∀ c : Char, isHexDigit c.toLower = isHexDigit c :=
  toLower_cases (P := fun c small => isHexDigit small = isHexDigit c) (fun _ _ => rfl) (by decide)

theorem toLower_toLower : ∀ c : Char, c.toLower.toLower = c.toLower :=
  toLower_cases (P := fun _ small => small.toLower = small) (fun _ hkept => hkept) (by decide)

/-- A letter is what it is in lower case, or the capital of that. -/
theorem eq_toLower_or_toUpper : ∀ c : Char, c = c.toLower ∨ c = c.toLower.toUpper :=
  toLower_cases (P := fun c small => c = small ∨ c = small.toUpper) (fun _ _ => .inl rfl)
    (by decide)

/-- A mark stands in a text in lower case if it did before. -/
theorem mem_lowerAscii_iff {mark : Char} (hmark : mark.isAlpha = false) {text : List Char} :
    mark ∈ lowerAscii text ↔ mark ∈ text := by
  simp [lowerAscii, toLower_eq_iff hmark]

/-- In ASCII no character of a text matters to the lower case of another one. -/
theorem lower_of_ascii {text : List Char} (htext : ∀ c ∈ text, c.toNat < 0x80) :
    lower text = lowerAscii text := by
  have hfrom : ∀ before, lowerFrom before text = lowerAscii text := by
    induction text with
    | nil => exact fun _ => rfl
    | cons c rest ih =>
      intro before
      rw [List.forall_mem_cons] at htext
      have hsigma : c ≠ 'Σ' := by
        rintro rfl
        exact absurd htext.1 (by decide)
      have hdotted : c ≠ 'İ' := by
        rintro rfl
        exact absurd htext.1 (by decide)
      have hlower : lowerChar c = c.toLower := if_pos htext.1
      simp [lowerFrom, lowerAscii, hsigma, hdotted, hlower, ih htext.2]
  exact hfrom []

end DesignCompiler.Text
