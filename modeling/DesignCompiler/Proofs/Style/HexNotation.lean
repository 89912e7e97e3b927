import DesignCompiler.Proofs.Text.Classes
import DesignCompiler.Style.Color
import Mathlib.Data.List.Basic

/-!
# Colors in hexadecimal digits

The canonical form of a color is read back as that color, in either letter case, and nothing else is
read so but one spelling of it: a plus sign may stand for a leading zero. The form of stylesheets
comes down to the canonical one by writing its digits in full and moving alpha to the front.
-/

namespace DesignCompiler.Style

open Text

/-! ## Digits -/

theorem hexDigitValue_hexDigit : ∀ n < 16, hexDigitValue (hexDigit n) = n := by decide

theorem isHexDigit_hexDigit : ∀ n < 16, isHexDigit (hexDigit n) = true := by decide

theorem toLower_hexDigit : ∀ n < 16, (hexDigit n).toLower = hexDigit n := by decide

theorem hexDigitValue_lt {c : Char} (hc : isHexDigit c = true) : hexDigitValue c < 16 :=
  forall_isHexDigit (P := fun c => hexDigitValue c < 16) (by decide) hc

theorem hexDigit_hexDigitValue {c : Char} (hc : isHexDigit c = true) :
    hexDigit (hexDigitValue c) = c.toLower :=
  forall_isHexDigit (P := fun c => hexDigit (hexDigitValue c) = c.toLower) (by decide) hc

/-- A digit in either letter case has the value of the digit that it is in lower case. -/
theorem eq_of_toLower_eq_hexDigit {c : Char} {n : Nat} (hn : n < 16)
    (hc : c.toLower = hexDigit n) : isHexDigit c = true ∧ hexDigitValue c = n := by
  have hdigit : isHexDigit c = true := by
    rw [← isHexDigit_toLower, hc]
    exact isHexDigit_hexDigit n hn
  refine ⟨hdigit, ?_⟩
  have hsame : hexDigit (hexDigitValue c) = hexDigit n := (hexDigit_hexDigitValue hdigit).trans hc
  rw [← hexDigitValue_hexDigit n hn, ← hsame, hexDigitValue_hexDigit _ (hexDigitValue_lt hdigit)]

/-! ## Channels -/

theorem channelHex_channel {high low : Char} (hhigh : isHexDigit high = true)
    (hlow : isHexDigit low = true) :
    channelHex (Rgba.channel high low) = [high.toLower, low.toLower] := by
  have hhighValue := hexDigitValue_lt hhigh
  have hlowValue := hexDigitValue_lt hlow
  have hvalue : (Rgba.channel high low).toNat = 16 * hexDigitValue high + hexDigitValue low := by
    rw [Rgba.channel, UInt8.toNat_ofNat', Nat.mod_eq_of_lt (by omega)]
  have hquotient : (16 * hexDigitValue high + hexDigitValue low) / 16 = hexDigitValue high := by
    omega
  have hremainder : (16 * hexDigitValue high + hexDigitValue low) % 16 = hexDigitValue low := by
    omega
  rw [channelHex, hvalue, hquotient, hremainder, hexDigit_hexDigitValue hhigh,
    hexDigit_hexDigitValue hlow]

/-- A digit of a short form stands for two equal ones. -/
theorem channelHex_shortChannel {digit : Char} (hdigit : isHexDigit digit = true) :
    channelHex (Rgba.shortChannel digit) = [digit.toLower, digit.toLower] := by
  have hsame : Rgba.shortChannel digit = Rgba.channel digit digit := by
    unfold Rgba.shortChannel Rgba.channel
    congr 1
    omega
  rw [hsame, channelHex_channel hdigit hdigit]

/-- The digits of a channel in either letter case denote it. -/
theorem exists_channel_of_lowerAscii {x : UInt8} {text back : List Char}
    (htext : lowerAscii text = channelHex x ++ back) :
    ∃ high low rest, text = high :: low :: rest ∧ isHexDigit high = true ∧ isHexDigit low = true ∧
      Rgba.channel high low = x ∧ lowerAscii rest = back := by
  have hx : x.toNat < 256 := x.toNat_lt
  obtain ⟨high, others, rfl, hhigh, hothers⟩ := List.map_eq_cons_iff.mp htext
  obtain ⟨low, rest, rfl, hlow, hrest⟩ := List.map_eq_cons_iff.mp hothers
  obtain ⟨hhigh, hhighValue⟩ := eq_of_toLower_eq_hexDigit (by omega) hhigh
  obtain ⟨hlow, hlowValue⟩ := eq_of_toLower_eq_hexDigit (by omega) hlow
  refine ⟨high, low, rest, rfl, hhigh, hlow, ?_, hrest⟩
  rw [Rgba.channel, hhighValue, hlowValue, Nat.div_add_mod, UInt8.ofNat_toNat]

namespace Rgba

/-! ## The canonical form -/

/-- A text is the canonical form of a color, in either letter case. -/
def IsCanonical (color : Rgba) (hex : List Char) : Prop :=
  lowerAscii hex = color.canonicalHex.toList

theorem toList_canonicalHex (color : Rgba) :
    color.canonicalHex.toList = '#' :: (channelHex color.a ++ channelHex color.r ++
      channelHex color.g ++ channelHex color.b) := String.toList_ofList

theorem lowerAscii_channelHex (x : UInt8) : lowerAscii (channelHex x) = channelHex x := by
  have hx : x.toNat < 256 := x.toNat_lt
  simp only [lowerAscii, channelHex, List.map_cons, List.map_nil,
    toLower_hexDigit (x.toNat / 16) (by omega), toLower_hexDigit (x.toNat % 16) (by omega)]

theorem isCanonical_canonicalHex (color : Rgba) : color.IsCanonical color.canonicalHex.toList := by
  have happend : ∀ front back, lowerAscii (front ++ back) = lowerAscii front ++ lowerAscii back :=
    fun _ _ => List.map_append
  have hmark : ∀ digits, lowerAscii ('#' :: digits) = '#' :: lowerAscii digits := fun _ => rfl
  simp only [IsCanonical, toList_canonicalHex, hmark, happend, lowerAscii_channelHex]

/-- Eight digits are the four channels, alpha first. -/
theorem ofCanonicalHex?_digits {a a' r r' g g' b b' : Char}
    (hdigits : ∀ c ∈ [a, a', r, r', g, g', b, b'], isHexDigit c = true) :
    ofCanonicalHex? ['#', a, a', r, r', g, g', b, b'] =
      some ⟨channel r r', channel g g', channel b b', channel a a'⟩ := by
  have hvalue : ∀ c ∈ [a, a', r, r', g, g', b, b'], hexDigitValue c < 16 :=
    fun c hc => hexDigitValue_lt (hdigits c hc)
  have hsign : dropStart? ['+'] [a, a', r, r', g, g', b, b'] = none := by
    refine if_neg ?_
    rintro rfl
    exact absurd (hdigits '+' List.mem_cons_self) (by decide)
  have hnumber : unsigned? 16 isHexDigit [a, a', r, r', g, g', b, b'] =
      some (natInBase 16 [a, a', r, r', g, g', b, b']) := by
    rw [unsigned?, hsign, Option.getD_none, List.all_eq_true.mpr hdigits]
    rfl
  simp only [List.forall_mem_cons] at hvalue
  obtain ⟨ha, ha', hr, hr', hg, hg', hb, hb', -⟩ := hvalue
  rw [ofCanonicalHex?]
  simp only [dropStart?, if_true, List.length_cons, List.length_nil, hnumber, Option.map_some,
    beq_self_eq_true, natInBase, List.foldl_cons, List.foldl_nil, Nat.shiftRight_eq_div_pow,
    channel]
  congr 3 <;> omega

/-- A text that is read as a color is the sign and eight digits, but a plus sign may stand for a
    leading zero. -/
theorem exists_digits_of_ofCanonicalHex? {hex : List Char} {color : Rgba}
    (hcolor : ofCanonicalHex? hex = some color) :
    ∃ digits, digits.length = 8 ∧ (∀ c ∈ digits, isHexDigit c = true) ∧
      (hex = '#' :: digits ∨ ∃ rest, digits = '0' :: rest ∧ hex = '#' :: '+' :: rest) := by
  rw [ofCanonicalHex?] at hcolor
  split at hcolor
  · cases hcolor
  rename_i digits hstart
  rw [eq_append_of_dropStart? hstart]
  split at hcolor
  · rename_i hlength
    obtain ⟨number, hnumber, -⟩ := Option.map_eq_some_iff.mp hcolor
    rw [unsigned?, Option.ite_none_right_eq_some, Bool.and_eq_true, List.all_eq_true] at hnumber
    obtain ⟨⟨-, hdigits⟩, -⟩ := hnumber
    rw [beq_iff_eq] at hlength
    cases hsign : dropStart? ['+'] digits with
    | none =>
      rw [hsign] at hdigits
      exact ⟨digits, hlength, hdigits, .inl rfl⟩
    | some rest =>
      rw [hsign] at hdigits
      obtain rfl := eq_append_of_dropStart? hsign
      refine ⟨'0' :: rest, hlength, List.forall_mem_cons.mpr ⟨by decide, hdigits⟩, .inr ?_⟩
      exact ⟨rest, rfl, rfl⟩
  · cases hcolor

/-- A plus sign before seven digits counts as a zero. -/
theorem ofCanonicalHex?_plus {rest : List Char} (hrest : ∀ c ∈ rest, isHexDigit c = true)
    (hlength : rest.length = 7) :
    ofCanonicalHex? ('#' :: '+' :: rest) = ofCanonicalHex? ('#' :: '0' :: rest) := by
  have hzero : ∀ c ∈ '0' :: rest, isHexDigit c = true :=
    List.forall_mem_cons.mpr ⟨by decide, hrest⟩
  have hne : rest ≠ [] := by
    rintro rfl
    cases hlength
  have hplus : unsigned? 16 isHexDigit ('+' :: rest) = some (natInBase 16 rest) := by
    simp [unsigned?, dropStart?, hne, List.all_eq_true.mpr hrest]
  have hdigits : unsigned? 16 isHexDigit ('0' :: rest) = some (natInBase 16 ('0' :: rest)) := by
    simp [unsigned?, dropStart?, List.all_eq_true.mpr hzero]
  have hsame : natInBase 16 ('0' :: rest) = natInBase 16 rest := rfl
  simp only [ofCanonicalHex?, dropStart?, if_true, List.length_cons, hlength, hplus, hdigits, hsame]

/-- The canonical form of a color in either letter case is read as that color. -/
theorem IsCanonical.ofCanonicalHex?_eq {color : Rgba} {hex : List Char}
    (hcanonical : color.IsCanonical hex) : ofCanonicalHex? hex = some color := by
  rw [IsCanonical, toList_canonicalHex, List.append_assoc, List.append_assoc] at hcanonical
  obtain ⟨mark, digits, rfl, hmark, hdigits⟩ := List.map_eq_cons_iff.mp hcanonical
  obtain ⟨a, a', afterAlpha, rfl, ha, ha', halpha, hdigits⟩ := exists_channel_of_lowerAscii hdigits
  obtain ⟨r, r', afterRed, rfl, hr, hr', hred, hdigits⟩ := exists_channel_of_lowerAscii hdigits
  obtain ⟨g, g', afterGreen, rfl, hg, hg', hgreen, hdigits⟩ := exists_channel_of_lowerAscii hdigits
  rw [← List.append_nil (channelHex color.b)] at hdigits
  obtain ⟨b, b', afterBlue, rfl, hb, hb', hblue, hdigits⟩ := exists_channel_of_lowerAscii hdigits
  obtain rfl := List.map_eq_nil_iff.mp hdigits
  obtain rfl := (toLower_eq_iff (by decide)).mp hmark
  rw [ofCanonicalHex?_digits (by simp [ha, ha', hr, hr', hg, hg', hb, hb']), hred, hgreen, hblue,
    halpha]

theorem canonicalHex_injective {color other : Rgba}
    (hsame : color.canonicalHex.toList = other.canonicalHex.toList) : color = other := by
  have hcolor := color.isCanonical_canonicalHex.ofCanonicalHex?_eq
  rw [hsame, other.isCanonical_canonicalHex.ofCanonicalHex?_eq] at hcolor
  exact (Option.some.inj hcolor).symm

theorem isCanonical_digits {a a' r r' g g' b b' : Char}
    (hdigits : ∀ c ∈ [a, a', r, r', g, g', b, b'], isHexDigit c = true) :
    IsCanonical ⟨channel r r', channel g g', channel b b', channel a a'⟩
      ['#', a, a', r, r', g, g', b, b'] := by
  simp only [List.forall_mem_cons] at hdigits
  obtain ⟨ha, ha', hr, hr', hg, hg', hb, hb', -⟩ := hdigits
  rw [IsCanonical, toList_canonicalHex]
  simp only [channelHex_channel ha ha', channelHex_channel hr hr', channelHex_channel hg hg',
    channelHex_channel hb hb']
  rfl

/-- Eight digits are read as the color that they are the canonical form of. -/
theorem isCanonical_of_ofCanonicalHex? {digits : List Char} {color : Rgba}
    (hlength : digits.length = 8) (hdigits : ∀ c ∈ digits, isHexDigit c = true)
    (hcolor : ofCanonicalHex? ('#' :: digits) = some color) :
    color.IsCanonical ('#' :: digits) := by
  match digits, hlength with
  | [a, a', r, r', g, g', b, b'], _ =>
    rw [ofCanonicalHex?_digits hdigits, Option.some.injEq] at hcolor
    rw [← hcolor]
    exact isCanonical_digits hdigits

/-- A text is read as a color if it is its canonical form in either letter case, or that with a plus
    sign for its leading zero. -/
theorem ofCanonicalHex?_eq_some_iff {hex : List Char} {color : Rgba} :
    ofCanonicalHex? hex = some color ↔
      color.IsCanonical hex ∨
        ∃ rest, hex = '#' :: '+' :: rest ∧ color.IsCanonical ('#' :: '0' :: rest) := by
  constructor
  · intro hcolor
    obtain ⟨digits, hlength, hdigits, rfl | ⟨rest, rfl, rfl⟩⟩ :=
      exists_digits_of_ofCanonicalHex? hcolor
    · exact .inl (isCanonical_of_ofCanonicalHex? hlength hdigits hcolor)
    · have hrest := (List.forall_mem_cons.mp hdigits).2
      rw [ofCanonicalHex?_plus hrest (by simpa using hlength)] at hcolor
      exact .inr ⟨rest, rfl, isCanonical_of_ofCanonicalHex? hlength hdigits hcolor⟩
  · rintro (hcanonical | ⟨rest, rfl, hcanonical⟩)
    · exact hcanonical.ofCanonicalHex?_eq
    · have hzero := hcanonical.ofCanonicalHex?_eq
      obtain ⟨digits, hlength, hdigits, heq | ⟨_, -, heq⟩⟩ := exists_digits_of_ofCanonicalHex? hzero
      · obtain rfl := (List.cons.inj heq).2
        rwa [ofCanonicalHex?_plus (List.forall_mem_cons.mp hdigits).2 (by simpa using hlength)]
      · exact absurd heq (by simp)

/-! ## The form of stylesheets -/

/-- Digits in the order of the canonical form: those of a short form are doubled, a missing alpha is
    full, and alpha goes to the front. -/
def canonicalOrder (digits : List Char) : List Char :=
  let long := if digits.length ≤ 4 then digits.flatMap fun digit => [digit, digit] else digits
  let full := if long.length = 6 then long ++ ['f', 'f'] else long
  full.drop 6 ++ full.take 6

/-- The canonical form of an accepted color has the digits that it is accepted with. -/
theorem canonicalHex_of_ofCssHex? {digits : List Char} {color : Rgba}
    (hdigits : ∀ c ∈ digits, isHexDigit c = true)
    (hcolor : ofCssHex? ('#' :: digits) = some color) :
    color.canonicalHex.toList = '#' :: canonicalOrder (lowerAscii digits) := by
  have hopaque : channelHex 255 = ['f', 'f'] := by decide
  rw [ofCssHex?] at hcolor
  simp only [dropStart?, if_true, List.all_eq_true.mpr hdigits] at hcolor
  rw [toList_canonicalHex]
  split at hcolor
  · simp only [List.forall_mem_cons] at hdigits
    obtain ⟨hr, hg, hb, -⟩ := hdigits
    cases hcolor
    simp only [channelHex_shortChannel hr, channelHex_shortChannel hg, channelHex_shortChannel hb,
      hopaque]
    rfl
  · simp only [List.forall_mem_cons] at hdigits
    obtain ⟨hr, hg, hb, ha, -⟩ := hdigits
    cases hcolor
    simp only [channelHex_shortChannel hr, channelHex_shortChannel hg, channelHex_shortChannel hb,
      channelHex_shortChannel ha]
    rfl
  · simp only [List.forall_mem_cons] at hdigits
    obtain ⟨hr, hr', hg, hg', hb, hb', -⟩ := hdigits
    cases hcolor
    simp only [channelHex_channel hr hr', channelHex_channel hg hg', channelHex_channel hb hb',
      hopaque]
    rfl
  · simp only [List.forall_mem_cons] at hdigits
    obtain ⟨hr, hr', hg, hg', hb, hb', ha, ha', -⟩ := hdigits
    cases hcolor
    simp only [channelHex_channel hr hr', channelHex_channel hg hg', channelHex_channel hb hb',
      channelHex_channel ha ha']
    rfl
  · cases hcolor

/-- The digits of a color of stylesheets: three, four, six or eight. -/
structure IsCssDigits (digits : List Char) : Prop where
  isHexDigit_of_mem : ∀ c ∈ digits, isHexDigit c = true
  length_mem : digits.length ∈ [3, 4, 6, 8]

theorem exists_digits_of_ofCssHex? {hex : List Char} {color : Rgba}
    (hcolor : ofCssHex? hex = some color) : ∃ digits, hex = '#' :: digits ∧ IsCssDigits digits := by
  rw [ofCssHex?] at hcolor
  split at hcolor
  · cases hcolor
  rename_i digits hstart
  rw [Option.ite_none_right_eq_some] at hcolor
  obtain ⟨hall, hcolor⟩ := hcolor
  refine ⟨digits, eq_append_of_dropStart? hstart, List.all_eq_true.mp hall, ?_⟩
  split at hcolor
  · exact show 3 ∈ [3, 4, 6, 8] by decide
  · exact show 4 ∈ [3, 4, 6, 8] by decide
  · exact show 6 ∈ [3, 4, 6, 8] by decide
  · exact show 8 ∈ [3, 4, 6, 8] by decide
  · cases hcolor

theorem IsCssDigits.exists_color {digits : List Char} (hdigits : IsCssDigits digits) :
    ∃ color, ofCssHex? ('#' :: digits) = some color := by
  obtain ⟨hall, hlength⟩ := hdigits
  rw [ofCssHex?]
  simp only [dropStart?, if_true, List.all_eq_true.mpr hall]
  simp only [List.mem_cons, List.not_mem_nil, or_false] at hlength
  split
  · exact ⟨_, rfl⟩
  · exact ⟨_, rfl⟩
  · exact ⟨_, rfl⟩
  · exact ⟨_, rfl⟩
  · rename_i not_three not_four not_six not_eight
    obtain hlength | hlength | hlength | hlength := hlength
    · obtain ⟨r, g, b, rfl⟩ := List.length_eq_three.mp hlength
      exact absurd rfl (not_three r g b)
    · obtain ⟨r, g, b, a, rfl⟩ := List.length_eq_four.mp hlength
      exact absurd rfl (not_four r g b a)
    · obtain ⟨r, _, rfl, hfive⟩ := List.length_eq_succ_iff.mp hlength
      obtain ⟨r', _, rfl, hfour⟩ := List.length_eq_succ_iff.mp hfive
      obtain ⟨g, g', b, b', rfl⟩ := List.length_eq_four.mp hfour
      exact absurd rfl (not_six r r' g g' b b')
    · obtain ⟨r, _, rfl, hseven⟩ := List.length_eq_succ_iff.mp hlength
      obtain ⟨r', _, rfl, hsix⟩ := List.length_eq_succ_iff.mp hseven
      obtain ⟨g, _, rfl, hfive⟩ := List.length_eq_succ_iff.mp hsix
      obtain ⟨g', _, rfl, hfour⟩ := List.length_eq_succ_iff.mp hfive
      obtain ⟨b, b', a, a', rfl⟩ := List.length_eq_four.mp hfour
      exact absurd rfl (not_eight r r' g g' b b' a a')

/-- A text is the color of a stylesheet whose canonical form has its digits in canonical order. -/
theorem ofCssHex?_eq_some_iff {hex : List Char} {color : Rgba} :
    ofCssHex? hex = some color ↔
      ∃ digits, hex = '#' :: digits ∧ IsCssDigits digits ∧
        color.canonicalHex.toList = '#' :: canonicalOrder (lowerAscii digits) := by
  constructor
  · intro hcolor
    obtain ⟨digits, rfl, hdigits⟩ := exists_digits_of_ofCssHex? hcolor
    exact ⟨digits, rfl, hdigits, canonicalHex_of_ofCssHex? hdigits.isHexDigit_of_mem hcolor⟩
  · rintro ⟨digits, rfl, hdigits, hcanonical⟩
    obtain ⟨other, hother⟩ := hdigits.exists_color
    obtain rfl : other = color := canonicalHex_injective <| by
      rw [canonicalHex_of_ofCssHex? hdigits.isHexDigit_of_mem hother, hcanonical]
    exact hother

/-! ## Both forms -/

/-- Every color is read back from its canonical form. A text is read as a color exactly if it is the
    canonical form in either letter case, or that with a plus sign for its leading zero; and it is
    the color of a stylesheet exactly if it has three, four, six or eight digits, which in canonical
    order are those of the canonical form. -/
theorem hexNotations_exact (color : Rgba) (hex : List Char) :
    ofCanonicalHex? color.canonicalHex.toList = some color ∧
    (ofCanonicalHex? hex = some color ↔
      color.IsCanonical hex ∨
        ∃ rest, hex = '#' :: '+' :: rest ∧ color.IsCanonical ('#' :: '0' :: rest)) ∧
    (ofCssHex? hex = some color ↔
      ∃ digits, hex = '#' :: digits ∧ IsCssDigits digits ∧
        color.canonicalHex.toList = '#' :: canonicalOrder (lowerAscii digits)) :=
  ⟨color.isCanonical_canonicalHex.ofCanonicalHex?_eq, ofCanonicalHex?_eq_some_iff,
    ofCssHex?_eq_some_iff⟩

/-- A sign is no digit, but it is read as one. -/
theorem ofCanonicalHex?_takes_sign :
    ofCanonicalHex? "#+1234567".toList = some ⟨0x23, 0x45, 0x67, 0x01⟩ ∧
      ¬ IsCanonical ⟨0x23, 0x45, 0x67, 0x01⟩ "#+1234567".toList ∧
      ofCssHex? "#+1234567".toList = none := by
  refine ⟨by decide +kernel, ?_, by decide +kernel⟩
  unfold IsCanonical
  decide +kernel

end Rgba

end DesignCompiler.Style
