import DesignCompiler.Proofs.Decimal.Reading
import DesignCompiler.Style.Length

/-!
# Numbers at the beginning of a value

A value is read as the longest number that it begins with after its blanks, and as none if it begins
with no number. Numbers beyond the doubles, and whole numbers beyond 64 bits, are none either.
-/

namespace DesignCompiler.Style

open Text Decimal

theorem leadingFloat?_eq_some_iff {raw : List Char} {x : Float} :
    leadingFloat? raw = some x ↔
      ∃ start, IsLongestStart numberTexts start (trimStart raw) ∧ float? start = some x ∧
        x.isFinite = true := by
  have hvalue : ∀ {n : Numeral} {rest : List Char},
      Numeral.leading? (trimStart raw) = some (n, rest) → float? n.written = some n.value :=
    fun hread => (Numeral.isWellFormed_of_leading? hread).1.float?_written
  simp only [leadingFloat?, Option.filter_eq_some_iff, Option.map_eq_some_iff,
    Numeral.isLongestStart_iff]
  constructor
  · rintro ⟨⟨⟨n, rest⟩, hread, rfl⟩, hfinite⟩
    exact ⟨n.written, ⟨n, rest, hread, rfl⟩, hvalue hread, hfinite⟩
  · rintro ⟨_, ⟨n, rest, hread, rfl⟩, hx, hfinite⟩
    rw [hvalue hread] at hx
    exact ⟨⟨(n, rest), hread, Option.some.inj hx⟩, hfinite⟩

theorem leadingInt?_eq_some_iff {raw : List Char} {i : Int} :
    leadingInt? raw = some i ↔
      ∃ start, IsLongestStart integerTexts start (trimStart raw) ∧ DenotesInteger start i ∧
        -2 ^ 63 ≤ i ∧ i < 2 ^ 63 := by
  have hfits : fitsInt64 i = true ↔ -2 ^ 63 ≤ i ∧ i < 2 ^ 63 := by
    rw [fitsInt64, Bool.and_eq_true, decide_eq_true_eq, decide_eq_true_eq]
    norm_num
  rw [leadingInt?, Option.filter_eq_some_iff, leadingInteger?_eq_some_iff, hfits]
  constructor
  · rintro ⟨⟨start, hstart, hi⟩, hbounds⟩
    exact ⟨start, hstart, hi, hbounds⟩
  · rintro ⟨start, hstart, hi, hbounds⟩
    exact ⟨⟨start, hstart, hi⟩, hbounds⟩

/-- The numeral read is the longest number that a value begins with after its blanks, and it is
    always one that has a double; the value is read as that double if it is finite, and as none if
    there is no number. The integer of a value is that of the longest whole number that it begins
    with, if it fits 64 bits with a sign. -/
theorem leadingNumber_longest (raw : List Char) :
    (∀ start, IsLongestStart numberTexts start (trimStart raw) ↔
      ∃ n rest, Numeral.leading? (trimStart raw) = some (n, rest) ∧ n.written = start) ∧
    (∀ start ∈ numberTexts, (float? start).isSome = true) ∧
    (∀ x, leadingFloat? raw = some x ↔
      ∃ start, IsLongestStart numberTexts start (trimStart raw) ∧ float? start = some x ∧
        x.isFinite = true) ∧
    ((∀ start ∈ numberTexts, ¬ start <+: trimStart raw) → leadingFloat? raw = none) ∧
    ∀ i, leadingInt? raw = some i ↔
      ∃ start, IsLongestStart integerTexts start (trimStart raw) ∧ DenotesInteger start i ∧
        -2 ^ 63 ≤ i ∧ i < 2 ^ 63 := by
  refine ⟨fun start => Numeral.isLongestStart_iff, fun start hstart => ?_,
    fun x => leadingFloat?_eq_some_iff, fun hnone => ?_, fun i => leadingInt?_eq_some_iff⟩
  · obtain ⟨n, hn, rfl⟩ := mem_numberTexts_iff.mp hstart
    rw [hn.float?_written]
    rfl
  · rw [leadingFloat?, Numeral.leading?_eq_none_iff.mpr hnone]
    rfl

/-- The power of ten ends before the second point, the whole number before the first one; a point
    without digits is no number. -/
theorem leadingNumber_longest_measure :
    IsLongestStart numberTexts "-1.5e+3".toList (trimStart "\t-1.5e+3.2rem".toList) ∧
      (float? "-1.5e+3".toList).isSome = true ∧
      leadingFloat? "\t-1.5e+3.2rem".toList = some (-1500) ∧
      leadingInt? "\t-1.5e+3.2rem".toList = some (-1) ∧ leadingFloat? "-.e5".toList = none := by
  obtain ⟨hread, hparsed, hfloat, -, hint⟩ := leadingNumber_longest "\t-1.5e+3.2rem".toList
  obtain ⟨-, -, -, hnone, -⟩ := leadingNumber_longest "-.e5".toList
  have hlongest := (hread "-1.5e+3".toList).mpr
    ⟨⟨['-'], ['1'], true, ['5'], some ⟨'e', ['+'], ['3']⟩⟩, ".2rem".toList, rfl, rfl⟩
  obtain ⟨start, hstart, hdenotes⟩ := leadingInteger?_eq_some_iff.mp
    (show leadingInteger? (trimStart "\t-1.5e+3.2rem".toList) = some (-1) from rfl)
  exact ⟨hlongest, hparsed _ hlongest.mem, (hfloat _).mpr ⟨_, hlongest, rfl, rfl⟩,
    (hint _).mpr ⟨start, hstart, hdenotes, by decide⟩, hnone (Numeral.leading?_eq_none_iff.mp rfl)⟩

end DesignCompiler.Style
