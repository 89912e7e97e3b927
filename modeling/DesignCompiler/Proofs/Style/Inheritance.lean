import DesignCompiler.Style.TextStyle

/-!
# Inherited text styles

Text styles are laid over each other facet by facet, so a text style that is inherited through
several elements has each facet from the innermost one that declares it.
-/

namespace DesignCompiler.Style

/-- A facet of a text style, with the type of its values. -/
inductive TextFacet : Type → Type where
  | fontFamily : TextFacet String
  | fontSize : TextFacet Float
  | color : TextFacet Color
  | weight : TextFacet FontWeight
  | height : TextFacet Float
  | letterSpacing : TextFacet Float

namespace TextFacet

/-- The facet as a text style declares it. -/
def of {α : Type} : TextFacet α → TextStyle → Option α
  | .fontFamily => TextStyle.fontFamily
  | .fontSize => TextStyle.fontSize
  | .color => TextStyle.color
  | .weight => TextStyle.weight
  | .height => TextStyle.height
  | .letterSpacing => TextStyle.letterSpacing

variable {α : Type}

theorem of_laidOver (facet : TextFacet α) (own base : TextStyle) :
    facet.of (own.laidOver base) = (facet.of own <|> facet.of base) := by
  cases facet <;> rfl

end TextFacet

namespace TextStyle

/-- The style declares no facet at all. -/
def DeclaresNothing (style : TextStyle) : Prop :=
  ∀ (α : Type) (facet : TextFacet α), facet.of style = none

theorem isEmpty_iff {style : TextStyle} : style.isEmpty = true ↔ style.DeclaresNothing := by
  simp only [isEmpty, Bool.and_eq_true, Option.isNone_iff_eq_none]
  constructor
  · rintro ⟨⟨⟨⟨⟨hfamily, hsize⟩, hcolor⟩, hweight⟩, hheight⟩, hspacing⟩ α facet
    cases facet
    · exact hfamily
    · exact hsize
    · exact hcolor
    · exact hweight
    · exact hheight
    · exact hspacing
  · intro hnothing
    exact ⟨⟨⟨⟨⟨hnothing _ .fontFamily, hnothing _ .fontSize⟩, hnothing _ .color⟩,
      hnothing _ .weight⟩, hnothing _ .height⟩, hnothing _ .letterSpacing⟩

/-- The properties of a class have a text style unless they declare no facet of one. -/
theorem ofProperties?_eq (vocabulary : Vocabulary) (props : PropertyMap) :
    (ofProperties? vocabulary props = none ∧ (declared vocabulary props).DeclaresNothing) ∨
      (ofProperties? vocabulary props = some (declared vocabulary props) ∧
        ¬ (declared vocabulary props).DeclaresNothing) := by
  simp only [ofProperties?, ← isEmpty_iff]
  by_cases hempty : (declared vocabulary props).isEmpty = true
  · exact .inl ⟨if_pos hempty, hempty⟩
  · exact .inr ⟨if_neg hempty, hempty⟩

/-- What a text style is when it is inherited through elements with the declared styles, the
    innermost first. -/
structure IsInherited (declarations : List TextStyle) (style : Option TextStyle) : Prop where
  eq_none_iff : style = none ↔ ∀ own ∈ declarations, own.DeclaresNothing
  facet_eq : ∀ {α : Type} (facet : TextFacet α),
    style.bind facet.of = declarations.findSome? facet.of

theorem isInherited_nil : IsInherited [] none := ⟨by simp, fun _ => rfl⟩

/-- Properties laid over an inherited text style come first. -/
theorem IsInherited.laidOver {declarations : List TextStyle} {base : Option TextStyle}
    (hbase : IsInherited declarations base) (vocabulary : Vocabulary) (props : PropertyMap) :
    IsInherited (declared vocabulary props :: declarations)
      (laidOver? (ofProperties? vocabulary props) base) := by
  obtain ⟨hown, hnothing⟩ | ⟨hown, hsome⟩ := ofProperties?_eq vocabulary props
  · -- Properties without a facet neither add to the style nor answer for one.
    have hstyle : laidOver? none base = base := by cases base <;> rfl
    rw [hown, hstyle]
    refine ⟨by rw [List.forall_mem_cons, ← hbase.eq_none_iff, and_iff_right hnothing], ?_⟩
    intro α facet
    rw [List.findSome?_cons, hnothing α facet, hbase.facet_eq]
  · rw [hown]
    constructor
    · rw [List.forall_mem_cons]
      refine iff_of_false ?_ fun hall => hsome hall.1
      cases base <;> exact Option.some_ne_none _
    · intro α facet
      have hfacet : (laidOver? (some (declared vocabulary props)) base).bind facet.of =
          (facet.of (declared vocabulary props) <|> base.bind facet.of) := by
        cases base with
        | none => simp [laidOver?]
        | some base => exact facet.of_laidOver _ _
      rw [hfacet, List.findSome?_cons, hbase.facet_eq]
      cases facet.of (declared vocabulary props) <;> rfl

end TextStyle

end DesignCompiler.Style
