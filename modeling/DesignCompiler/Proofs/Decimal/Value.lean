import DesignCompiler.Decimal.Numeral
import Mathlib.Algebra.Order.Field.Rat
import Mathlib.Data.List.Induction
import Mathlib.Data.Nat.Digits.Defs
import Mathlib.Data.Rat.Cast.Order
import Mathlib.Tactic.Linarith
import Mathlib.Tactic.Ring

/-!
# Exact values of written numbers

What a numeral denotes before it is rounded. Behind the point a numeral without a power of ten has
less than one, so it denotes a whole number only if the digits there are zeros.
-/

namespace DesignCompiler.Decimal

open Text

/-! ## Runs of digits -/

theorem natOfDigits_concat (digits : List Char) (c : Char) :
    natOfDigits (digits ++ [c]) = 10 * natOfDigits digits + (c.toNat - '0'.toNat) := by
  simp [natOfDigits]

theorem natOfDigits_append (front back : List Char) :
    natOfDigits (front ++ back) = natOfDigits front * 10 ^ back.length + natOfDigits back := by
  induction back using List.reverseRecOn with
  | nil => simp [natOfDigits]
  | append_singleton back c ih =>
    rw [← List.append_assoc, natOfDigits_concat, natOfDigits_concat, ih, List.length_append,
      List.length_singleton, Nat.pow_succ]
    ring

theorem natOfDigits_eq_ofDigits (digits : List Char) :
    natOfDigits digits = Nat.ofDigits 10 (digits.reverse.map fun c => c.toNat - '0'.toNat) := by
  induction digits using List.reverseRecOn with
  | nil => rfl
  | append_singleton digits c ih =>
    rw [natOfDigits_concat, ih, List.reverse_append, List.reverse_singleton, List.singleton_append,
      List.map_cons, Nat.ofDigits_cons]
    omega

theorem natOfDigits_lt {digits : List Char} (hdigits : ∀ c ∈ digits, isAsciiDigit c = true) :
    natOfDigits digits < 10 ^ digits.length := by
  induction digits using List.reverseRecOn with
  | nil => simp [natOfDigits]
  | append_singleton digits c ih =>
    have hlast : c.toNat - '0'.toNat < 10 := by
      have hc := hdigits c (by simp)
      rw [isAsciiDigit, Bool.and_eq_true, decide_eq_true_eq, decide_eq_true_eq] at hc
      have hnine : c.toNat ≤ '9'.toNat := hc.2
      have : '9'.toNat = '0'.toNat + 9 := rfl
      omega
    have hfront := ih fun d hd => hdigits d (by simp [hd])
    rw [natOfDigits_concat, List.length_append, List.length_singleton, Nat.pow_succ]
    omega

theorem nat?_eq_some_iff {digits : List Char} {n : Nat} :
    nat? digits = some n ↔
      digits ≠ [] ∧ (∀ c ∈ digits, isAsciiDigit c = true) ∧ natOfDigits digits = n := by
  simp [nat?, and_assoc]

/-! ## Numerals -/

namespace Numeral

/-- A number with an optional sign and an optional fraction. -/
structure IsPlain (n : Numeral) : Prop where
  sign_mem : n.sign ∈ [[], ['+'], ['-']]
  whole : ∀ c ∈ n.whole, isAsciiDigit c = true
  fraction : ∀ c ∈ n.fraction, isAsciiDigit c = true
  hasPoint_iff : n.hasPoint = true ↔ n.fraction ≠ []
  digits_ne_nil : n.whole ++ n.fraction ≠ []
  exponent_eq : n.exponent = none

theorem IsPlain.eq_of_mem_sign {n : Numeral} (hplain : n.IsPlain) {c : Char} (hc : c ∈ n.sign) :
    c = '+' ∨ c = '-' := by
  have hsigns := hplain.sign_mem
  simp only [List.mem_cons, List.not_mem_nil, or_false] at hsigns
  obtain h | h | h := hsigns
  · simp [h] at hc
  · exact .inl (by simpa [h] using hc)
  · exact .inr (by simpa [h] using hc)

/-- A numeral has digits, signs and a point. -/
theorem IsPlain.not_mem_written {n : Numeral} (hplain : n.IsPlain) {mark : Char}
    (hdigit : isAsciiDigit mark = false) (hmark : mark ∉ ['+', '-', '.']) : mark ∉ n.written := by
  simp only [List.mem_cons, List.not_mem_nil, or_false, not_or] at hmark
  have hdigits : ∀ {digits : List Char}, (∀ c ∈ digits, isAsciiDigit c = true) → mark ∉ digits := by
    intro digits hall hmem
    rw [hall mark hmem] at hdigit
    cases hdigit
  have hsign : mark ∉ n.sign := fun hmem =>
    (hplain.eq_of_mem_sign hmem).elim hmark.1 hmark.2.1
  have hpoint : mark ∉ (if n.hasPoint then ['.'] else []) := by
    split <;> simp [hmark]
  rw [written, hplain.exponent_eq]
  simp [hsign, hpoint, hdigits hplain.whole, hdigits hplain.fraction]

theorem IsPlain.fraction_eq_nil {n : Numeral} (hplain : n.IsPlain) (hpoint : ¬ n.hasPoint = true) :
    n.fraction = [] := by
  rw [← not_not (a := n.fraction = []), ← ne_eq, ← hplain.hasPoint_iff]
  exact hpoint

/-- What a numeral denotes. -/
def exact (n : Numeral) : ℚ :=
  (if n.sign = ['-'] then -1 else 1) * natOfDigits (n.whole ++ n.fraction) *
    10 ^ ((n.exponent.map Exponent.power).getD 0 - n.fraction.length)

/-- A whole number above zero has no sign but plus, and zeros behind the point. -/
theorem IsPlain.exact_eq_iff {n : Numeral} (hplain : n.IsPlain) {d : Nat} (hd : 0 < d) :
    n.exact = d ↔
      n.sign ≠ ['-'] ∧ natOfDigits n.whole = d ∧ natOfDigits n.fraction = 0 := by
  have hpower : (0 : ℚ) < 10 ^ n.fraction.length := by positivity
  have hfraction := natOfDigits_lt hplain.fraction
  have hvalue : n.exact = (if n.sign = ['-'] then -1 else 1) *
      natOfDigits (n.whole ++ n.fraction) / 10 ^ n.fraction.length := by
    rw [exact, hplain.exponent_eq, Option.map_none, Option.getD_none, zero_sub, zpow_neg,
      zpow_natCast, div_eq_mul_inv]
  rw [hvalue, div_eq_iff hpower.ne']
  by_cases hsign : n.sign = ['-']
  · rw [if_pos hsign]
    refine iff_of_false ?_ fun h => h.1 hsign
    have hleft : (-1 : ℚ) * natOfDigits (n.whole ++ n.fraction) ≤ 0 := by
      simp
    have hright : (0 : ℚ) < d * 10 ^ n.fraction.length := by positivity
    linarith
  · rw [if_neg hsign, one_mul, natOfDigits_append]
    have hcast :
        ((natOfDigits n.whole * 10 ^ n.fraction.length + natOfDigits n.fraction : Nat) : ℚ) =
          d * 10 ^ n.fraction.length ↔
        natOfDigits n.whole * 10 ^ n.fraction.length + natOfDigits n.fraction =
          d * 10 ^ n.fraction.length := by
      exact_mod_cast Iff.rfl
    rw [hcast]
    constructor
    · intro hsum
      have hzero : natOfDigits n.fraction = 0 := by
        have hmod := congrArg (· % 10 ^ n.fraction.length) hsum
        simpa [Nat.mod_eq_of_lt hfraction] using hmod
      rw [hzero, Nat.add_zero] at hsum
      exact ⟨hsign, Nat.eq_of_mul_eq_mul_right (Nat.pow_pos (by decide)) hsum, hzero⟩
    · rintro ⟨-, hwhole, hzero⟩
      rw [hwhole, hzero, Nat.add_zero]

end Numeral

end DesignCompiler.Decimal
