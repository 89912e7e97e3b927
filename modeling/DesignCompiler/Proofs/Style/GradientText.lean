import DesignCompiler.Proofs.Decimal.Value
import DesignCompiler.Proofs.Style.EmbeddedColor
import DesignCompiler.Proofs.Style.HexNotation
import DesignCompiler.Style.Gradient
import Mathlib.Data.List.Forall2

/-!
# Linear gradients as they are written

The stops of a gradient are read as its colors, in their order. The direction is read from the
digits that the unit of the angle follows. These leave out the sign, and of a fraction what stands
before the point, so that the direction is the one that is written only if these do not matter.
-/

namespace DesignCompiler.Style

open Text Decimal Rgba

/-! ## Written gradients -/

/-- An angle in degrees between blanks. -/
structure GradientAngle where
  before : List Char
  degrees : Numeral
  unit : List Char
  after : List Char
  allBlank_before : allBlank before = true
  isPlain_degrees : degrees.IsPlain
  lowerAscii_unit : lowerAscii unit = "deg".toList
  allBlank_after : allBlank after = true

/-- A color in hexadecimal digits between blanks, with the share at which it stands or without. -/
structure GradientStop where
  before : List Char
  digits : List Char
  share : Option Numeral
  after : List Char
  allBlank_before : allBlank before = true
  isCssDigits : IsCssDigits digits
  isPlain_share : ∀ n ∈ share, n.IsPlain
  allBlank_after : allBlank after = true

/-- A value with a linear gradient: any text without one, the name of the function in either letter
    case, an angle or none, one stop or more, and any text behind the parenthesis. -/
structure GradientText where
  front : List Char
  name : List Char
  angle : Option GradientAngle
  stops : List GradientStop
  back : List Char
  front_without : ¬ "linear-gradient(".toList <:+: lowerAscii front
  lowerAscii_name : lowerAscii name = "linear-gradient(".toList
  stops_ne_nil : stops ≠ []

def GradientAngle.text (a : GradientAngle) : List Char :=
  a.before ++ a.degrees.written ++ a.unit ++ a.after

/-- What follows the digits of a stop. -/
def GradientStop.tail (s : GradientStop) : List Char :=
  (s.share.map fun n => ' ' :: n.written ++ ['%']).getD [] ++ s.after

def GradientStop.text (s : GradientStop) : List Char := s.before ++ '#' :: s.digits ++ s.tail

/-- The alignments that an angle stands for: downwards at 180 degrees, to the right at 90 degrees,
    along the diagonal at any other. -/
def anchorsOf (degrees : ℚ) : String × String :=
  if degrees = 180 then ("Alignment.topCenter", "Alignment.bottomCenter")
  else if degrees = 90 then ("Alignment.centerLeft", "Alignment.centerRight")
  else ("Alignment.topLeft", "Alignment.bottomRight")

/-- The gradient between two alignments. -/
def LinearGradient.between (anchors : String × String) (colors : List Rgba) : LinearGradient :=
  ⟨anchors.1, anchors.2, colors.map .argb⟩

theorem LinearGradient.between_inj {anchors anchors' : String × String} {colors : List Rgba} :
    between anchors colors = between anchors' colors ↔ anchors = anchors' := by
  simp [between, Prod.ext_iff]

namespace GradientText

variable (g : GradientText)

/-- The arguments, with commas between them. -/
def arguments : List Char :=
  [','].intercalate (g.angle.toList.map GradientAngle.text ++ g.stops.map GradientStop.text)

def text : List Char := g.front ++ g.name ++ g.arguments ++ ')' :: g.back

/-- The alignments of the angle that is written. Without an angle it runs downwards. -/
def anchors : String × String := anchorsOf ((g.angle.map (·.degrees.exact)).getD 180)

end GradientText

/-! ## What is read of an angle -/

/-- The digits that the unit follows: those behind the point, if there is one. -/
def lastDigits (n : Numeral) : List Char := if n.hasPoint then n.fraction else n.whole

/-- The degrees that are read: the number in the last digits, 180 if it does not fit 32 bits. -/
def degreesRead (n : Numeral) : Nat :=
  if natOfDigits (lastDigits n) < UInt32.size then natOfDigits (lastDigits n) else 180

/-- The degrees that are read of a gradient, 180 without an angle. -/
def GradientText.degreesRead (g : GradientText) : Nat :=
  (g.angle.map (Style.degreesRead ·.degrees)).getD 180

/-- The last digits tell the direction: they fit 32 bits; they are a right or a straight angle only
    if they are all of the number, with no minus before them; and if they are zeros behind a point,
    no such angle stands before it. -/
@[mk_iff]
structure TellsDirection (n : Numeral) : Prop where
  lt_size : natOfDigits (lastDigits n) < UInt32.size
  alone : natOfDigits (lastDigits n) ∈ [90, 180] → n.sign ≠ ['-'] ∧ n.hasPoint = false
  whole_not_mem : n.hasPoint = true → natOfDigits n.fraction = 0 → n.sign ≠ ['-'] →
    natOfDigits n.whole ∉ [90, 180]

/-- The number that is read is a right or a straight angle just if the number that is written is the
    same, exactly if the last digits tell the direction. -/
theorem tellsDirection_iff_degreesRead {n : Numeral} (hplain : n.IsPlain) :
    TellsDirection n ↔
      (degreesRead n = 180 ↔ n.exact = 180) ∧ (degreesRead n = 90 ↔ n.exact = 90) := by
  have hstraight : n.exact = 180 ↔
      n.sign ≠ ['-'] ∧ natOfDigits n.whole = 180 ∧ natOfDigits n.fraction = 0 := by
    exact_mod_cast hplain.exact_eq_iff (d := 180) (by decide)
  have hright : n.exact = 90 ↔
      n.sign ≠ ['-'] ∧ natOfDigits n.whole = 90 ∧ natOfDigits n.fraction = 0 := by
    exact_mod_cast hplain.exact_eq_iff (d := 90) (by decide)
  have hsize : UInt32.size = 4294967296 := rfl
  rw [tellsDirection_iff, hstraight, hright, degreesRead, lastDigits, hsize]
  by_cases hpoint : n.hasPoint = true
  · rw [if_pos hpoint, hpoint]
    simp only [List.mem_cons, List.not_mem_nil, or_false]
    by_cases hsign : n.sign = ['-'] <;> grind
  · have hzero : natOfDigits n.fraction = 0 := by
      rw [hplain.fraction_eq_nil hpoint]
      rfl
    rw [if_neg hpoint, hzero]
    simp only [List.mem_cons, List.not_mem_nil, or_false, hpoint]
    by_cases hsign : n.sign = ['-'] <;> grind

/-! ## Characters of the arguments -/

namespace GradientAngle

theorem not_mem_text (a : GradientAngle) {mark : Char} (hblank : isBlank mark = false)
    (hdigit : isAsciiDigit mark = false) (hletter : mark.isAlpha = false)
    (hmark : mark ∉ ['+', '-', '.']) : mark ∉ a.text := by
  have hunit : mark ∉ a.unit := by
    rw [← mem_lowerAscii_iff hletter, a.lowerAscii_unit]
    intro hmem
    have hletters : ∀ c ∈ "deg".toList, c.isAlpha = true := List.all_eq_true.mp (by decide)
    rw [hletters mark hmem] at hletter
    cases hletter
  simp only [text, List.mem_append, not_or]
  exact ⟨⟨⟨not_mem_of_allBlank a.allBlank_before hblank,
    a.isPlain_degrees.not_mem_written hdigit hmark⟩, hunit⟩,
    not_mem_of_allBlank a.allBlank_after hblank⟩

end GradientAngle

namespace GradientStop

variable (s : GradientStop)

theorem not_mem_tail {mark : Char} (hblank : isBlank mark = false)
    (hdigit : isAsciiDigit mark = false) (hmark : mark ∉ ['+', '-', '.', '%']) :
    mark ∉ s.tail := by
  have hspace : mark ≠ ' ' := by
    rintro rfl
    cases hblank
  simp only [List.mem_cons, List.not_mem_nil, or_false, not_or] at hmark
  rw [tail, List.mem_append, not_or]
  refine ⟨?_, not_mem_of_allBlank s.allBlank_after hblank⟩
  cases hshare : s.share with
  | none => simp
  | some n =>
    have hnumber := (s.isPlain_share n hshare).not_mem_written hdigit (by simp [hmark])
    simp [hspace, hnumber, hmark]

theorem not_mem_text {mark : Char} (hblank : isBlank mark = false)
    (hdigit : isHexDigit mark = false) (hmark : mark ∉ ['#', '+', '-', '.', '%']) :
    mark ∉ s.text := by
  rw [List.mem_cons, not_or] at hmark
  have hdecimal : isAsciiDigit mark = false := by
    simp only [isHexDigit, Bool.or_eq_false_iff] at hdigit
    exact hdigit.1.1
  have hdigits : mark ∉ s.digits := by
    intro hmem
    rw [s.isCssDigits.isHexDigit_of_mem mark hmem] at hdigit
    cases hdigit
  simp only [text, List.mem_append, List.mem_cons, not_or]
  exact ⟨⟨not_mem_of_allBlank s.allBlank_before hblank, hmark.1, hdigits⟩,
    s.not_mem_tail hblank hdecimal hmark.2⟩

/-- The digits of a stop end where they end. -/
theorem not_isHexDigit_head?_tail {rest : List Char}
    (hrest : ∀ c ∈ rest.head?, isHexDigit c = false) :
    ∀ c ∈ (s.tail ++ rest).head?, isHexDigit c = false := by
  intro c hc
  cases hshare : s.share with
  | some n =>
    obtain rfl : ' ' = c := by simpa [tail, hshare] using hc
    decide
  | none =>
    have htail : s.tail = s.after := by simp [tail, hshare]
    rw [htail] at hc
    have hblank := s.allBlank_after
    cases hafter : s.after with
    | nil =>
      rw [hafter] at hc
      exact hrest c hc
    | cons d after =>
      rw [hafter] at hc hblank
      obtain rfl : d = c := by simpa using hc
      exact not_isHexDigit_of_isBlank (allBlank_iff.mp hblank d (by simp))

end GradientStop

/-! ## Stops -/

theorem hexStop?_of_ne {c : Char} (hc : c ≠ '#') (rest : List Char) :
    hexStop? none (c :: rest) = none := by
  unfold hexStop?
  split
  · rename_i h
    cases h
    exact absurd rfl hc
  · rfl

theorem hexStop?_digits {digits rest : List Char} (hdigits : IsCssDigits digits)
    (hrest : ∀ c ∈ rest.head?, isHexDigit c = false) :
    hexStop? none ('#' :: digits ++ rest) = some ('#' :: digits, ('#' :: digits).length) := by
  obtain ⟨hall, hlength⟩ := hdigits
  have hmost : digits.length ≤ 8 := by
    simp only [List.mem_cons, List.not_mem_nil, or_false] at hlength
    omega
  have hrun : ((digits ++ rest).take 8).takeWhile isHexDigit = digits :=
    takeWhile_take_append hall hmost (.inr hrest)
  have hfind : ∀ n ∈ [3, 4, 6, 8], [8, 6, 4, 3].find? (· ≤ n) = some n := by decide
  rw [List.cons_append, hexStop?, hrun, hfind _ hlength]
  simp

/-- Text without the mark of a stop is passed over. -/
theorem allMatches_hexStop?_append {front : List Char} (hfront : '#' ∉ front) (rest : List Char) :
    allMatches hexStop? (front ++ rest) = allMatches hexStop? rest := by
  refine allMatches_append_of_none (fun _ _ _ => rfl) fun passed c back hsplit => ?_
  apply hexStop?_of_ne
  rintro rfl
  exact hfront (by simp [hsplit])

theorem GradientStop.allMatches_text_append (s : GradientStop) {rest : List Char}
    (hrest : ∀ c ∈ rest.head?, isHexDigit c = false) :
    allMatches hexStop? (s.text ++ rest) = ('#' :: s.digits) :: allMatches hexStop? rest := by
  have hbefore : '#' ∉ s.before := not_mem_of_allBlank s.allBlank_before
  have htail : '#' ∉ s.tail := s.not_mem_tail (by decide) (by decide) (by decide)
  have htext : s.text ++ rest = s.before ++ ('#' :: s.digits ++ (s.tail ++ rest)) := by simp [text]
  rw [htext, allMatches_hexStop?_append hbefore,
    allMatches_append_of_some (fun _ _ _ => rfl) (by simp)
      (hexStop?_digits s.isCssDigits (s.not_isHexDigit_head?_tail hrest)),
    allMatches_hexStop?_append htail]

theorem allMatches_stops (stops : List GradientStop) :
    allMatches hexStop? (stops.flatMap (',' :: ·.text)) = stops.map ('#' :: ·.digits) := by
  induction stops with
  | nil => rfl
  | cons s stops ih =>
    have hcomma : ∀ c ∈ (stops.flatMap (',' :: ·.text)).head?, isHexDigit c = false := by
      intro c hc
      cases stops with
      | nil => cases hc
      | cons =>
        obtain rfl : ',' = c := by simpa using hc
        decide
    rw [List.flatMap_cons, List.map_cons, ← List.singleton_append, List.append_assoc,
      allMatches_hexStop?_append (by decide), s.allMatches_text_append hcomma, ih]

/-- A stop is read as the color that its digits denote. -/
theorem GradientStop.exists_color (s : GradientStop) (vocabulary : Vocabulary) :
    ∃ color : Rgba, color.canonicalHex.toList = '#' :: canonicalOrder (lowerAscii s.digits) ∧
      parseColor? vocabulary ('#' :: s.digits) = some (.argb color) := by
  obtain ⟨hall, hlength⟩ := s.isCssDigits
  have hlower : IsCssDigits (lowerAscii s.digits) := by
    refine ⟨fun c hc => ?_, by rwa [lowerAscii, List.length_map]⟩
    obtain ⟨d, hd, rfl⟩ := List.mem_map.mp hc
    rw [isHexDigit_toLower, hall d hd]
  obtain ⟨color, hcolor⟩ := hlower.exists_color
  have hsame : lowerAscii (lowerAscii s.digits) = lowerAscii s.digits := by
    simp only [lowerAscii, List.map_map]
    exact List.map_congr_left fun c _ => toLower_toLower c
  refine ⟨color, ?_, by rw [parseColor?_hexDigits hall, hcolor, Option.map_some]⟩
  rw [canonicalHex_of_ofCssHex? hlower.isHexDigit_of_mem hcolor, hsame]

theorem exists_colors (stops : List GradientStop) (vocabulary : Vocabulary) :
    ∃ colors : List Rgba,
      List.Forall₂ (fun s color => color.canonicalHex.toList =
        '#' :: canonicalOrder (lowerAscii s.digits)) stops colors ∧
      (stops.map ('#' :: ·.digits)).filterMap (parseColor? vocabulary) = colors.map .argb := by
  induction stops with
  | nil => exact ⟨[], .nil, rfl⟩
  | cons s stops ih =>
    obtain ⟨color, hcanonical, hcolor⟩ := s.exists_color vocabulary
    obtain ⟨colors, hcolors, hread⟩ := ih
    refine ⟨color :: colors, .cons hcanonical hcolors, ?_⟩
    rw [List.map_cons, List.filterMap_cons_some hcolor, hread, List.map_cons]

/-! ## The angle -/

theorem angle?_of_not_isDigit {c : Char} (hc : isDigit c = false) (rest : List Char) :
    angle? none (c :: rest) = none := by
  simp [angle?, hc]

/-- Digits before a point are not in degrees. -/
theorem angle?_point {digits : List Char} (hdigits : ∀ c ∈ digits, isDigit c = true)
    (rest : List Char) : angle? none (digits ++ '.' :: rest) = none := by
  have hpoint : ∀ c ∈ ('.' :: rest).head?, isDigit c = false := by
    rintro c ⟨⟩
    decide
  rw [angle?, takeWhile_append_of_head? hdigits hpoint, dropWhile_append_of_head? hdigits hpoint,
    trimStart_of_head (by decide), List.take_succ_cons]
  simp [lowerAscii, startsWith]

/-- Digits before the unit are the degrees. -/
theorem angle?_unit {digits unit : List Char} (hne : digits ≠ [])
    (hdigits : ∀ c ∈ digits, isDigit c = true) (hunit : lowerAscii unit = "deg".toList)
    (rest : List Char) :
    angle? none (digits ++ (unit ++ rest)) = some (digits, digits.length) := by
  obtain ⟨d, others, rfl, hd, hothers⟩ := List.map_eq_cons_iff.mp hunit
  have hletter : isDigit d = false ∧ isBlank d = false := by
    obtain h | h := eq_toLower_or_toUpper d <;> rw [h, hd] <;> decide
  have hhead : ∀ c ∈ (d :: others ++ rest).head?, isDigit c = false := by
    rintro c ⟨⟩
    exact hletter.1
  have htake : lowerAscii ((d :: others ++ rest).take 3) = "deg".toList := by
    have hlength : (d :: others).length = 3 := by
      rw [← List.length_map, ← lowerAscii, hunit]
      rfl
    rw [List.take_append_of_le_length hlength.ge, List.take_of_length_le hlength.le, hunit]
  rw [angle?, takeWhile_append_of_head? hdigits hhead, dropWhile_append_of_head? hdigits hhead,
    List.cons_append, trimStart_of_head hletter.2, ← List.cons_append, htake]
  simp [hne, startsWith]

/-- Without a unit there is no angle. -/
theorem angle?_eq_none {text : List Char} (hsmall : 'g' ∉ text) (hcapital : 'G' ∉ text) :
    angle? none text = none := by
  refine if_neg fun h => ?_
  rw [Bool.and_eq_true, startsWith, List.isPrefixOf_iff_prefix] at h
  have hmem : 'g' ∈ lowerAscii ((trimStart (text.dropWhile isDigit)).take 3) :=
    h.2.subset (by decide)
  obtain ⟨c, hc, hlower⟩ := List.mem_map.mp hmem
  have hc : c ∈ text :=
    (List.dropWhile_suffix _).subset (mem_of_mem_trimStart (List.mem_of_mem_take hc))
  obtain h | h := eq_toLower_or_toUpper c
  · exact hsmall (by rwa [h, hlower] at hc)
  · exact hcapital (by rwa [h, hlower] at hc)

/-- What comes before the angle does not matter. -/
theorem gradientAngle_append_of_none {front rest : List Char}
    (hnone : ∀ passed c back, front = passed ++ c :: back →
      angle? none (c :: back ++ rest) = none) :
    gradientAngle (front ++ rest) = gradientAngle rest := by
  rw [gradientAngle, firstMatch?_append_of_none (fun _ _ _ => rfl) hnone, gradientAngle]
  cases firstMatch? angle? rest <;> rfl

theorem written_eq_append_lastDigits {n : Numeral} (hplain : n.IsPlain) :
    n.written =
      n.sign ++ ((if n.hasPoint = true then n.whole ++ ['.'] else []) ++ lastDigits n) := by
  rw [Numeral.written, hplain.exponent_eq, lastDigits]
  by_cases hpoint : n.hasPoint = true
  · simp [hpoint]
  · simp [hpoint, hplain.fraction_eq_nil hpoint]

theorem lastDigits_ne_nil {n : Numeral} (hplain : n.IsPlain) : lastDigits n ≠ [] := by
  rw [lastDigits]
  split
  case isTrue hpoint => exact hplain.hasPoint_iff.mp hpoint
  case isFalse hpoint =>
    have hdigits := hplain.digits_ne_nil
    rwa [hplain.fraction_eq_nil hpoint, List.append_nil] at hdigits

theorem isAsciiDigit_of_mem_lastDigits {n : Numeral} (hplain : n.IsPlain) :
    ∀ c ∈ lastDigits n, isAsciiDigit c = true := by
  rw [lastDigits]
  split
  · exact hplain.fraction
  · exact hplain.whole

theorem gradientAngle_unit {n : Numeral} (hplain : n.IsPlain) {unit : List Char}
    (hunit : lowerAscii unit = "deg".toList) (rest : List Char) :
    gradientAngle (lastDigits n ++ (unit ++ rest)) = degreesRead n := by
  have hdigits := isAsciiDigit_of_mem_lastDigits hplain
  have hne := lastDigits_ne_nil hplain
  have hmatch := angle?_unit hne (fun c hc => isDigit_of_isAsciiDigit (hdigits c hc)) hunit rest
  have hvalue := nat?_eq_some_iff.mpr ⟨hne, hdigits, rfl⟩
  rw [gradientAngle, firstMatch?_of_some (by simp [hne]) hmatch]
  simp only [hvalue, degreesRead, Option.filter_some, decide_eq_true_eq]
  split <;> rfl

/-- Of an angle its last digits are read. -/
theorem GradientAngle.gradientAngle_text_append (a : GradientAngle) (rest : List Char) :
    gradientAngle (a.text ++ rest) = degreesRead a.degrees := by
  have htext : a.text ++ rest = (a.before ++ a.degrees.sign) ++
      ((if a.degrees.hasPoint = true then a.degrees.whole ++ ['.'] else []) ++
        (lastDigits a.degrees ++ (a.unit ++ (a.after ++ rest)))) := by
    simp [text, written_eq_append_lastDigits a.isPlain_degrees]
  rw [htext, gradientAngle_append_of_none, gradientAngle_append_of_none,
    gradientAngle_unit a.isPlain_degrees a.lowerAscii_unit]
  · intro passed c back hsplit
    split at hsplit
    · have hsuffix : c :: back <:+ a.degrees.whole ++ ['.'] := ⟨passed, hsplit.symm⟩
      obtain hnil | ⟨digits, hdigits, hwhole⟩ := List.suffix_concat_iff.mp hsuffix
      · cases hnil
      · rw [hdigits, List.append_assoc, List.singleton_append]
        exact angle?_point (fun d hd => isDigit_of_isAsciiDigit
          (a.isPlain_degrees.whole d (hwhole.subset hd))) _
    · simp at hsplit
  · intro passed c back hsplit
    apply angle?_of_not_isDigit
    have hc : c ∈ a.before ++ a.degrees.sign := by simp [hsplit]
    obtain hblank | hsign := List.mem_append.mp hc
    · exact not_isDigit_of_isBlank (allBlank_iff.mp a.allBlank_before c hblank)
    · obtain rfl | rfl := a.isPlain_degrees.eq_of_mem_sign hsign <;> decide

/-- Without an angle 180 degrees are read. -/
theorem gradientAngle_eq {text : List Char} (hsmall : 'g' ∉ text) (hcapital : 'G' ∉ text) :
    gradientAngle text = 180 := by
  rw [gradientAngle, firstMatch?_eq_none (fun _ _ _ => rfl) fun back hback => ?_]
  exact angle?_eq_none (fun h => hsmall (hback.subset h)) fun h => hcapital (hback.subset h)

/-- The alignments are the same if the same angles are told apart. -/
theorem gradientAnchors_eq_iff (read : Nat) (degrees : ℚ) :
    gradientAnchors read = anchorsOf degrees ↔
      (read = 180 ↔ degrees = 180) ∧ (read = 90 ↔ degrees = 90) := by
  have hnat : read = 180 → read ≠ 90 := by omega
  have hrat : degrees = 180 → degrees ≠ 90 := by
    rintro rfl
    norm_num
  simp only [gradientAnchors, anchorsOf, beq_iff_eq]
  split_ifs <;> simp_all

/-! ## The whole gradient -/

theorem balanced?_append {inside : List Char} (hopen : '(' ∉ inside) (hclose : ')' ∉ inside)
    (rest : List Char) : balanced? 0 (inside ++ ')' :: rest) = some inside := by
  induction inside with
  | nil => rfl
  | cons c inside ih =>
    simp only [List.mem_cons, not_or] at hopen hclose
    rw [List.cons_append, balanced?, if_neg (by simp [Ne.symm hclose.1])]
    simp [Ne.symm hopen.1, Ne.symm hclose.1, ih hopen.2 hclose.2]

namespace GradientText

variable (g : GradientText)

theorem comma_cons_arguments :
    ',' :: g.arguments =
      g.angle.toList.flatMap (',' :: ·.text) ++ g.stops.flatMap (',' :: ·.text) := by
  rw [arguments, cons_intercalate (by simp [g.stops_ne_nil]), List.flatMap_append, List.flatMap_map,
    List.flatMap_map]

theorem not_mem_arguments {mark : Char} (hblank : isBlank mark = false)
    (hdigit : isHexDigit mark = false) (hmark : mark ∉ [',', '#', '+', '-', '.', '%'])
    (hangle : ∀ a ∈ g.angle, mark ∉ a.text) : mark ∉ g.arguments := by
  rw [List.mem_cons, not_or] at hmark
  intro hmem
  have hmem := List.mem_cons_of_mem ',' hmem
  simp only [comma_cons_arguments, List.mem_append, List.mem_flatMap, List.mem_cons, hmark.1,
    false_or, Option.mem_toList] at hmem
  obtain ⟨a, ha, hmem⟩ | ⟨s, -, hmem⟩ := hmem
  · exact hangle a ha hmem
  · exact s.not_mem_text hblank hdigit hmark.2 hmem

theorem gradientArguments?_text : gradientArguments? g.text = some g.arguments := by
  have hmarker : "linear-gradient(".toList = "linear-gradient".toList ++ ['('] := by decide
  have hcut : cut? "linear-gradient(".toList (lowerAscii g.text) =
      some (lowerAscii g.front, lowerAscii (g.arguments ++ ')' :: g.back)) := by
    have hfront := g.front_without
    rw [hmarker] at hfront
    rw [text, List.append_assoc, lowerAscii_append, lowerAscii_append, g.lowerAscii_name, hmarker,
      cut?_append (by decide) hfront]
  have hlength : g.name.length = "linear-gradient(".toList.length := by
    rw [← g.lowerAscii_name, lowerAscii, List.length_map]
  have hdrop : g.text.drop ((lowerAscii g.front).length + "linear-gradient(".toList.length) =
      g.arguments ++ ')' :: g.back := by
    rw [text, List.append_assoc, List.drop_left']
    rw [List.length_append, hlength, lowerAscii, List.length_map]
  have hopen : '(' ∉ g.arguments := g.not_mem_arguments (by decide) (by decide) (by decide)
    fun a _ => a.not_mem_text (by decide) (by decide) (by decide) (by decide)
  have hclose : ')' ∉ g.arguments := g.not_mem_arguments (by decide) (by decide) (by decide)
    fun a _ => a.not_mem_text (by decide) (by decide) (by decide) (by decide)
  rw [gradientArguments?]
  simp only [hcut, Option.bind_some, hdrop, balanced?_append hopen hclose]

theorem allMatches_arguments :
    allMatches hexStop? g.arguments = g.stops.map ('#' :: ·.digits) := by
  have hangle : '#' ∉ g.angle.toList.flatMap (',' :: ·.text) := by
    simp only [List.mem_flatMap, List.mem_cons, not_exists, not_and, not_or]
    exact fun a _ => ⟨by decide, a.not_mem_text (by decide) (by decide) (by decide) (by decide)⟩
  have hcomma : '#' ∉ [','] := by decide
  calc allMatches hexStop? g.arguments
      = allMatches hexStop? ([','] ++ g.arguments) := (allMatches_hexStop?_append hcomma _).symm
    _ = allMatches hexStop? (g.stops.flatMap (',' :: ·.text)) := by
      rw [List.singleton_append, comma_cons_arguments, allMatches_hexStop?_append hangle]
    _ = g.stops.map ('#' :: ·.digits) := allMatches_stops g.stops

theorem gradientAngle_arguments : gradientAngle g.arguments = g.degreesRead := by
  cases hangle : g.angle with
  | none =>
    rw [GradientText.degreesRead, hangle]
    exact gradientAngle_eq
      (g.not_mem_arguments (by decide) (by decide) (by decide) (by simp [hangle]))
      (g.not_mem_arguments (by decide) (by decide) (by decide) (by simp [hangle]))
  | some a =>
    have harguments : ',' :: g.arguments =
        ',' :: (a.text ++ g.stops.flatMap (',' :: ·.text)) := by
      rw [comma_cons_arguments, hangle]
      simp
    rw [GradientText.degreesRead, hangle, (List.cons.inj harguments).2, a.gradientAngle_text_append]
    rfl

theorem gradientAnchors_eq_anchors_iff :
    gradientAnchors g.degreesRead = g.anchors ↔ ∀ a ∈ g.angle, TellsDirection a.degrees := by
  cases hangle : g.angle with
  | none => simp [GradientText.degreesRead, anchors, hangle, gradientAnchors_eq_iff]
  | some a =>
    simp only [GradientText.degreesRead, anchors, hangle, Option.map_some, Option.getD_some,
      gradientAnchors_eq_iff, ← tellsDirection_iff_degreesRead a.isPlain_degrees]
    simp

end GradientText

/-- A gradient with stops in hexadecimal digits is read as just the colors of these, in their order.
    It is read in the direction that is written exactly if the last digits of the angle tell it. -/
theorem parseLinearGradient?_text (vocabulary : Vocabulary) (g : GradientText) :
    ∃ colors : List Rgba,
      List.Forall₂ (fun s color => color.canonicalHex.toList =
        '#' :: canonicalOrder (lowerAscii s.digits)) g.stops colors ∧
      parseLinearGradient? vocabulary g.text =
        some (.between (gradientAnchors g.degreesRead) colors) ∧
      (parseLinearGradient? vocabulary g.text = some (.between g.anchors colors) ↔
        ∀ a ∈ g.angle, TellsDirection a.degrees) := by
  obtain ⟨colors, hcolors, hread⟩ := exists_colors g.stops vocabulary
  have hparse : parseLinearGradient? vocabulary g.text =
      some (.between (gradientAnchors g.degreesRead) colors) := by
    have hstops : gradientColors vocabulary g.text = colors.map .argb := by
      rw [gradientColors, g.gradientArguments?_text]
      simp only [g.allMatches_arguments, hread]
    have hne : colors ≠ [] := by
      rintro rfl
      exact g.stops_ne_nil (List.forall₂_nil_right_iff.mp hcolors)
    obtain ⟨color, others, rfl⟩ := List.exists_cons_of_ne_nil hne
    rw [List.map_cons] at hstops
    rw [parseLinearGradient?, g.gradientArguments?_text, hstops]
    simp only [g.gradientAngle_arguments]
    rfl
  refine ⟨colors, hcolors, hparse, ?_⟩
  rw [hparse, ← g.gradientAnchors_eq_anchors_iff, Option.some.injEq, LinearGradient.between_inj]

private def wholeNumeral (digits : String) : Numeral := ⟨[], digits.toList, false, [], none⟩

private theorem isPlain_wholeNumeral {digits : String}
    (hdigits : digits.toList.all isAsciiDigit = true ∧ digits.toList ≠ []) :
    (wholeNumeral digits).IsPlain :=
  ⟨by simp [wholeNumeral], List.all_eq_true.mp hdigits.1, by simp [wholeNumeral],
    by simp [wholeNumeral], by simpa [wholeNumeral] using hdigits.2, rfl⟩

private theorem isCssDigits_toList {digits : String}
    (hdigits : digits.toList.all isHexDigit = true ∧ digits.toList.length ∈ [3, 4, 6, 8]) :
    IsCssDigits digits.toList :=
  ⟨List.all_eq_true.mp hdigits.1, hdigits.2⟩

/-- Two stops with their shares, between other layers. -/
private def layeredGradient : GradientText where
  front := "url(a.png), ".toList
  name := "Linear-Gradient(".toList
  angle := some ⟨[], wholeNumeral "90", "deg".toList, [], rfl,
    isPlain_wholeNumeral (by decide), rfl, rfl⟩
  stops := [
    ⟨[' '], "FF0000".toList, some (wholeNumeral "0"), [], by decide, isCssDigits_toList (by decide),
      by rintro n ⟨⟩; exact isPlain_wholeNumeral (by decide), rfl⟩,
    ⟨[' '], "00f8".toList, some (wholeNumeral "100"), [], by decide, isCssDigits_toList (by decide),
      by rintro n ⟨⟩; exact isPlain_wholeNumeral (by decide), rfl⟩]
  back := ", none".toList
  front_without := by decide
  lowerAscii_name := by decide
  stops_ne_nil := by simp

private def straightAngle : Numeral := ⟨[], "180".toList, true, "0".toList, none⟩

private theorem isPlain_straightAngle : straightAngle.IsPlain :=
  ⟨by decide, List.all_eq_true.mp (by decide), List.all_eq_true.mp (by decide), by decide,
    by decide, rfl⟩

/-- Two stops without shares, and a straight angle with a fraction. -/
private def straightGradient : GradientText where
  front := []
  name := "linear-gradient(".toList
  angle := some ⟨[], straightAngle, "deg".toList, [], rfl, isPlain_straightAngle, rfl, rfl⟩
  stops := [
    ⟨[' '], "fff".toList, none, [], by decide, isCssDigits_toList (by decide), by simp, rfl⟩,
    ⟨[' '], "000".toList, none, [], by decide, isCssDigits_toList (by decide), by simp, rfl⟩]
  back := []
  front_without := by decide
  lowerAscii_name := by decide
  stops_ne_nil := by simp

/-- A gradient to the right between other layers. -/
theorem parseLinearGradient?_text_layers :
    ∃ red blue : Rgba, red.canonicalHex = "#ffff0000" ∧ blue.canonicalHex = "#880000ff" ∧
      parseLinearGradient? .standard
          "url(a.png), Linear-Gradient(90deg, #FF0000 0%, #00f8 100%), none".toList =
        some ⟨"Alignment.centerLeft", "Alignment.centerRight", [.argb red, .argb blue]⟩ := by
  have htext : layeredGradient.text =
      "url(a.png), Linear-Gradient(90deg, #FF0000 0%, #00f8 100%), none".toList := by decide
  have htells : ∀ a ∈ layeredGradient.angle, TellsDirection a.degrees := by
    rintro a ⟨⟩
    exact ⟨by decide, by decide, by decide⟩
  have hright : (wholeNumeral "90").exact = 90 :=
    ((isPlain_wholeNumeral (by decide)).exact_eq_iff (d := 90) (by decide)).mpr
      ⟨by decide, by decide, by decide⟩
  have hanchors : layeredGradient.anchors = ("Alignment.centerLeft", "Alignment.centerRight") := by
    show anchorsOf (wholeNumeral "90").exact = _
    rw [hright, anchorsOf, if_neg (by norm_num), if_pos rfl]
  obtain ⟨colors, hcolors, -, hread⟩ := parseLinearGradient?_text .standard layeredGradient
  have hparse := hread.mpr htells
  obtain ⟨red, others, hred, hothers, rfl⟩ := List.forall₂_cons_left_iff.mp hcolors
  obtain ⟨blue, rest, hblue, hrest, rfl⟩ := List.forall₂_cons_left_iff.mp hothers
  obtain rfl := List.forall₂_nil_left_iff.mp hrest
  rw [htext, hanchors] at hparse
  refine ⟨red, blue, String.toList_inj.mp (hred.trans (by decide)),
    String.toList_inj.mp (hblue.trans (by decide)), hparse⟩

/-- A straight angle with a fraction is read as none: the gradient runs along the diagonal. -/
theorem parseLinearGradient?_misses_fraction :
    straightGradient.text = "linear-gradient(180.0deg, #fff, #000)".toList ∧
      straightGradient.anchors = ("Alignment.topCenter", "Alignment.bottomCenter") ∧
      (parseLinearGradient? .standard "linear-gradient(180.0deg, #fff, #000)".toList).map
          (fun gradient => (gradient.start, gradient.finish)) =
        some ("Alignment.topLeft", "Alignment.bottomRight") := by
  have hstraight : straightAngle.exact = 180 :=
    (isPlain_straightAngle.exact_eq_iff (d := 180) (by decide)).mpr
      ⟨by decide, by decide, by decide⟩
  refine ⟨by decide, ?_, by decide +kernel⟩
  show anchorsOf straightAngle.exact = _
  rw [hstraight, anchorsOf, if_pos rfl]

end DesignCompiler.Style
