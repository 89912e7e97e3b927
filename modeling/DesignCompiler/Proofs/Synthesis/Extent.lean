import DesignCompiler.Synthesis.Layer
import Mathlib.Data.List.Induction
import Mathlib.Data.Prod.Lex

/-!
# Sizes and ends of placed parts

What a stack asks about its parts, told from the placements and sizes that they declare: which of
them are icons, which one can be the base, and how far they reach together.
-/

namespace DesignCompiler

/-! ## The order of floats -/

section

open Float.Model

/-- Where a number stands among the numbers: by its sign, then its exponent and its mantissa. -/
def orderKey : UnpackedFloat → Option (Int ×ₗ Int ×ₗ Int)
  | .notANumber => none
  | .infinity .negative => some (toLex (-2, toLex (0, 0)))
  | .finite .negative mantissa exponent _ => some (toLex (-1, toLex (-exponent, -mantissa)))
  | .zero _ => some (toLex (0, toLex (0, 0)))
  | .finite .positive mantissa exponent _ => some (toLex (1, toLex (exponent, mantissa)))
  | .infinity .positive => some (toLex (2, toLex (0, 0)))

theorem unpacked_lt_iff (a b : UnpackedFloat) :
    a.lt b = true ↔ ∃ x y, orderKey a = some x ∧ orderKey b = some y ∧ x < y := by
  have hbelow : ∀ (m n : Nat) (d e : Int), (compare d e).then (compare m n) = .lt ↔
      d < e ∨ d = e ∧ m < n := by
    simp [Ordering.then_eq_lt, compare_lt_iff_lt]
  have habove : ∀ (m n : Nat) (d e : Int), (compare d e).then (compare m n) = .gt ↔
      e < d ∨ d = e ∧ n < m := by
    simp [Ordering.then_eq_gt, compare_gt_iff_gt]
  have hsigns : compare UnpackedFloat.Sign.negative UnpackedFloat.Sign.positive = .lt := rfl
  rcases a with ⟨_ | _⟩ | _ | ⟨_ | _⟩ | ⟨_ | _, m, d, _⟩ <;>
    rcases b with ⟨_ | _⟩ | _ | ⟨_ | _⟩ | ⟨_ | _, n, e, _⟩ <;>
    dsimp only [UnpackedFloat.lt, UnpackedFloat.compare, orderKey] <;>
    simp [Prod.Lex.toLex_lt_toLex, hbelow, habove, hsigns]

theorem float_lt_iff {a b : Float} :
    a < b ↔ ∃ x y, orderKey a.toModel.unpack = some x ∧ orderKey b.toModel.unpack = some y ∧
      x < y := by
  rw [← unpacked_lt_iff]
  exact decide_eq_true_iff

theorem float_lt_irrefl (a : Float) : ¬ a < a := by
  rw [float_lt_iff]
  rintro ⟨x, y, hx, hy, hlt⟩
  rw [hx, Option.some.injEq] at hy
  exact hlt.ne hy

theorem float_lt_trans {a b c : Float} (hab : a < b) (hbc : b < c) : a < c := by
  rw [float_lt_iff] at *
  obtain ⟨x, y, hx, hy, hxy⟩ := hab
  obtain ⟨y', z, hy', hz, hyz⟩ := hbc
  rw [hy, Option.some.injEq] at hy'
  exact ⟨x, z, hx, hz, hxy.trans (hy' ▸ hyz)⟩

theorem float_le_of_lt {a b : Float} (hab : a < b) : a ≤ b := by
  have hlt : a.toModel.unpack.lt b.toModel.unpack = true := decide_eq_true_iff.mp hab
  have hcompare : a.toModel.unpack.compare b.toModel.unpack = some .lt := by
    simpa [UnpackedFloat.lt] using hlt
  refine decide_eq_true_iff.mpr (?_ : a.toModel.unpack.le b.toModel.unpack = true)
  rw [UnpackedFloat.le, hcompare]
  rfl

end

/-! ## Icons -/

/-- A dimension is known, and all known ones are at most a bound. -/
structure Size.FitsInto (size : Size) (bound : Float) : Prop where
  known : size.width ≠ none ∨ size.height ≠ none
  width_le : ∀ width ∈ size.width, width ≤ bound
  height_le : ∀ height ∈ size.height, height ≤ bound

theorem Thresholds.isIconSized_iff {thresholds : Thresholds} {size : Size} :
    thresholds.isIconSized size = true ↔ size.FitsInto thresholds.iconMaxExtent := by
  simp only [isIconSized, Size.fitsWithin, Size.isUnknown, Bool.and_eq_true, Bool.not_eq_true',
    Bool.and_eq_false_iff, Option.isNone_eq_false_iff, Option.isSome_iff_ne_none,
    Option.all_eq_true, decide_eq_true_eq]
  constructor
  · rintro ⟨⟨hknown, hwidth⟩, hheight⟩
    exact ⟨hknown, hwidth, hheight⟩
  · rintro ⟨hknown, hwidth, hheight⟩
    exact ⟨⟨hknown, hwidth⟩, hheight⟩

namespace Synthesis

/-! ## Bases -/

/-- A placed part that can be the base of a stack: it starts in the top left corner, is tied to
    neither other side, and is no icon. -/
structure IsStackBase (thresholds : Thresholds) (kid : Part) : Prop where
  anchored : ∃ edges, kid.placement = some edges ∧ (∀ top ∈ edges.top, (top == 0.0) = true) ∧
    (∀ left ∈ edges.left, (left == 0.0) = true) ∧ edges.right = none ∧ edges.bottom = none
  large : ¬ kid.size.FitsInto thresholds.iconMaxExtent

theorem isBase_iff {thresholds : Thresholds} {kid : Part} :
    isBase thresholds kid = true ↔ IsStackBase thresholds kid := by
  simp only [isBase, Option.any_eq_true, Edges.isTopLeftAnchored, Bool.and_eq_true,
    Option.all_eq_true, Option.isNone_iff_eq_none, and_assoc, Bool.not_eq_true', ← Bool.not_eq_true,
    Thresholds.isIconSized_iff]
  constructor
  · rintro ⟨hanchored, hlarge⟩
    exact ⟨hanchored, hlarge⟩
  · rintro ⟨hanchored, hlarge⟩
    exact ⟨hanchored, hlarge⟩

/-! ## Ends -/

/-- How far a placed part reaches to the right: by its offset from the left, else from the right,
    and by its width, as far as they are declared. -/
def rightEnd (kid : Part) : Float :=
  (kid.placement.bind fun edges => edges.left <|> edges.right).getD 0.0 + kid.size.width.getD 0.0

/-- How far a placed part reaches down: by its offset from the top, else from the bottom, and by its
    height. -/
def bottomEnd (kid : Part) : Float :=
  (kid.placement.bind fun edges => edges.top <|> edges.bottom).getD 0.0 + kid.size.height.getD 0.0

/-- One of the ends, or the origin, beyond which none of them lies. -/
structure IsFurthest (ends : List Float) (last : Float) : Prop where
  mem : last ∈ 0.0 :: ends
  not_beyond : ∀ other ∈ 0.0 :: ends, ¬ last < other

/-- The dimension that parts with these ends span: it is known if it is positive and finite. -/
inductive SpansDimension (ends : List Float) : Option Float → Prop where
  | known {last : Float} : IsFurthest ends last → 0.0 < last → last.isFinite = true →
      SpansDimension ends (some last)
  | unknown {last : Float} : IsFurthest ends last → ¬ (0.0 < last ∧ last.isFinite = true) →
      SpansDimension ends none

/-- The height that parts span does not count at the root, which scrolls, nor if it is beyond all
    plausible heights and the size is not that of an icon. -/
inductive DropsHeight (thresholds : Thresholds) (isRoot : Bool) (size : Size) : Prop where
  | scrolls : isRoot = true → DropsHeight thresholds isRoot size
  | tooTall {height : Float} :
      size.height = some height → thresholds.maxPlausibleHeight < height →
      ¬ size.FitsInto thresholds.iconMaxExtent → DropsHeight thresholds isRoot size

/-- The size that parts span together, as far as it counts. -/
inductive Spans (thresholds : Thresholds) (isRoot : Bool) (kids : List Part) : Size → Prop where
  | whole {size : Size} :
      SpansDimension (kids.map rightEnd) size.width →
      SpansDimension (kids.map bottomEnd) size.height →
      ¬ DropsHeight thresholds isRoot size → Spans thresholds isRoot kids size
  | widthOnly {size : Size} :
      SpansDimension (kids.map rightEnd) size.width →
      SpansDimension (kids.map bottomEnd) size.height →
      DropsHeight thresholds isRoot size → Spans thresholds isRoot kids ⟨size.width, none⟩

theorem isFurthest_origin : IsFurthest [] 0.0 :=
  ⟨List.mem_singleton.mpr rfl, List.forall_mem_singleton.mpr (float_lt_irrefl _)⟩

theorem isFurthest_concat {ends : List Float} {last : Float} (hlast : IsFurthest ends last)
    (other : Float) : IsFurthest (ends ++ [other]) (furthest last other) := by
  unfold furthest
  split
  · rename_i hbeyond
    refine ⟨by simp, ?_⟩
    rw [← List.cons_append, List.forall_mem_append, List.forall_mem_singleton]
    exact ⟨fun e he hlt => hlast.not_beyond e he (float_lt_trans hbeyond hlt),
      float_lt_irrefl other⟩
  · rename_i hwithin
    refine ⟨List.mem_append_left _ hlast.mem, ?_⟩
    rw [← List.cons_append, List.forall_mem_append, List.forall_mem_singleton]
    exact ⟨hlast.not_beyond, hwithin⟩

theorem isFurthest_spannedExtents (kids : List Part) :
    IsFurthest (kids.map rightEnd) (spannedExtents kids).1 ∧
      IsFurthest (kids.map bottomEnd) (spannedExtents kids).2 := by
  induction kids using List.reverseRecOn with
  | nil => exact ⟨isFurthest_origin, isFurthest_origin⟩
  | append_singleton kids kid ih =>
    have hright : (edgesOf kid).horizontalStart + kid.size.width.getD 0.0 = rightEnd kid := by
      unfold edgesOf rightEnd
      cases kid.placement <;> rfl
    have hbottom : (edgesOf kid).verticalStart + kid.size.height.getD 0.0 = bottomEnd kid := by
      unfold edgesOf bottomEnd
      cases kid.placement <;> rfl
    have hstep : spannedExtents (kids ++ [kid]) =
        (furthest (spannedExtents kids).1 (rightEnd kid),
          furthest (spannedExtents kids).2 (bottomEnd kid)) := by
      simp only [spannedExtents, List.foldl_append, List.foldl_cons, List.foldl_nil, hright,
        hbottom]
    rw [hstep, List.map_append, List.map_append]
    exact ⟨isFurthest_concat ih.1 _, isFurthest_concat ih.2 _⟩

theorem spansDimension_of_isFurthest {ends : List Float} {last : Float}
    (hlast : IsFurthest ends last) :
    SpansDimension ends ((if last > 0.0 then some last else none).filter Size.isDimension) := by
  by_cases hpositive : 0.0 < last
  · rw [if_pos hpositive]
    cases hfinite : last.isFinite with
    | true =>
      have hdimension : Size.isDimension last = true := by
        simp [Size.isDimension, hfinite, float_le_of_lt hpositive]
      rw [Option.filter_some, if_pos hdimension]
      exact .known hlast hpositive hfinite
    | false =>
      rw [Option.filter_some, if_neg (by simp [Size.isDimension, hfinite])]
      exact .unknown hlast (by simp [hfinite])
  · rw [if_neg hpositive]
    exact .unknown hlast fun h => hpositive h.1

/-- Normalization drops a height that is implausible. -/
theorem normalize_cases (thresholds : Thresholds) (size : Size) :
    (DropsHeight thresholds false size ∧ thresholds.normalize size = size.withoutHeight) ∨
      (¬ DropsHeight thresholds false size ∧ thresholds.normalize size = size) := by
  by_cases hicon : thresholds.isIconSized size = true
  · refine .inr ⟨?_, if_pos hicon⟩
    rintro (hroot | ⟨-, -, hlarge⟩)
    · cases hroot
    · exact hlarge (Thresholds.isIconSized_iff.mp hicon)
  · have hlarge : ¬ size.FitsInto thresholds.iconMaxExtent := fun hfits =>
      hicon (Thresholds.isIconSized_iff.mpr hfits)
    by_cases htall : size.height.any (· > thresholds.maxPlausibleHeight) = true
    · obtain ⟨height, hheight, hbeyond⟩ := (Option.any_eq_true _ _).mp htall
      exact .inl ⟨.tooTall hheight (of_decide_eq_true hbeyond) hlarge,
        (if_neg hicon).trans (if_pos htall)⟩
    · refine .inr ⟨?_, (if_neg hicon).trans (if_neg htall)⟩
      rintro (hroot | ⟨hheight, hbeyond, -⟩)
      · cases hroot
      · exact htall (by simp [hheight, hbeyond])

/-- The size of the box that stands below parts without a base. -/
theorem spans_normalize (thresholds : Thresholds) (isRoot : Bool) (kids : List Part) :
    let normal := thresholds.normalize (estimateStackSize kids)
    Spans thresholds isRoot kids (if isRoot then normal.withoutHeight else normal) := by
  intro normal
  obtain ⟨hright, hbottom⟩ := isFurthest_spannedExtents kids
  have hwidth : SpansDimension (kids.map rightEnd) (estimateStackSize kids).width :=
    spansDimension_of_isFurthest hright
  have hheight : SpansDimension (kids.map bottomEnd) (estimateStackSize kids).height :=
    spansDimension_of_isFurthest hbottom
  cases isRoot with
  | true =>
    have hwithout : normal.withoutHeight = ⟨(estimateStackSize kids).width, none⟩ := by
      obtain ⟨-, hnormal⟩ | ⟨-, hnormal⟩ := normalize_cases thresholds (estimateStackSize kids)
      · simp [normal, hnormal, Size.withoutHeight]
      · simp [normal, hnormal, Size.withoutHeight]
    rw [if_pos rfl, hwithout]
    exact .widthOnly hwidth hheight (.scrolls rfl)
  | false =>
    rw [if_neg Bool.false_ne_true]
    obtain ⟨hdrops, hnormal⟩ | ⟨hkeeps, hnormal⟩ :=
      normalize_cases thresholds (estimateStackSize kids)
    · rw [show normal = _ from hnormal]
      exact .widthOnly hwidth hheight hdrops
    · rw [show normal = _ from hnormal]
      exact .whole hwidth hheight hkeeps

end Synthesis

end DesignCompiler
