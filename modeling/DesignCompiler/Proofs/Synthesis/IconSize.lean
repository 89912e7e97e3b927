import DesignCompiler.Proofs.Synthesis.Arrangement
import DesignCompiler.Proofs.Synthesis.ShownText

/-!
# Icon sizes

What is an icon is decided on the size that normalization leaves. A tall and narrow box loses its
height there and counts as an icon from then on; any other box is an icon exactly if its declared
size is that of one. A box that is none keeps its place and its rotation, and stacks place it,
unless it shows an input field, for which its height is dropped once more.
-/

namespace DesignCompiler

/-! ## Sizes -/

namespace Thresholds

/-- The width is known and that of an icon. -/
def IsNarrow (t : Thresholds) (size : Size) : Prop := size.width.any (· ≤ t.iconMaxExtent) = true

/-- The height is implausible and the width that of an icon. -/
structure IsSliver (t : Thresholds) (size : Size) : Prop where
  tall : size.height.any (· > t.maxPlausibleHeight) = true
  narrow : t.IsNarrow size

/-- A box whose height does not count is an icon if it is narrow. -/
theorem isIconSized_withoutHeight (t : Thresholds) (size : Size) :
    t.isIconSized size.withoutHeight = true ↔ t.IsNarrow size := by
  obtain ⟨width, height⟩ := size
  cases width <;> simp [isIconSized, Size.fitsWithin, Size.isUnknown, Size.withoutHeight, IsNarrow]

/-- Normalization leaves the width as it is. -/
theorem width_normalize (t : Thresholds) (size : Size) : (t.normalize size).width = size.width := by
  unfold normalize
  split
  · rfl
  · split <;> rfl

/-- Normalization makes icons of slivers, and of nothing else. -/
theorem isIconSized_normalize (t : Thresholds) (size : Size) :
    t.isIconSized (t.normalize size) = true ↔ t.isIconSized size = true ∨ t.IsSliver size := by
  unfold normalize
  split
  · rename_i hicon
    simp [hicon]
  · rename_i hicon
    split
    · rename_i htall
      rw [isIconSized_withoutHeight, or_iff_right hicon]
      exact ⟨fun hnarrow => ⟨htall, hnarrow⟩, IsSliver.narrow⟩
    · rename_i hlow
      exact (or_iff_left fun hsliver => hlow hsliver.tall).symm

end Thresholds

namespace Synthesis

open Dart Style Markup Asset

/-! ## Elements -/

/-- The size that the stylesheet declares for an element. -/
def Scene.declaredSize (scene : Scene) (element : Element) : Size :=
  (ResolvedStyle.resolve scene.options.vocabulary (scene.properties element)).size

variable {scene : Scene} {isRoot : Bool} {element : Element} {children : List Node}

/-- An input field is somewhere in the widget. -/
def ShowsInput (widget : Expr) : Prop :=
  ∃ sub, Nested sub widget ∧ Control.ownsInputBackground sub = true

/-- An element that is neither an icon nor a sliver keeps its placement. -/
theorem stripsPlacement_eq_false
    (hicon : ¬ scene.options.thresholds.isIconSized (scene.declaredSize element) = true)
    (hsliver : ¬ scene.options.thresholds.IsSliver (scene.declaredSize element)) :
    (scene.subject isRoot element).stripsPlacement = false := by
  rw [Subject.stripsPlacement, Bool.and_eq_false_iff, ← Bool.not_eq_true (Subject.isSmall _)]
  right
  intro hsmall
  obtain h | h := (Thresholds.isIconSized_normalize _ _).mp hsmall
  · exact hicon h
  · exact hsliver h

/-! ## Placement and rotation -/

/-- The part of an element stands where the element is placed, and as it is rotated. -/
structure Stays (subject : Subject) (part : Part) : Prop where
  placement_eq : part.placement = subject.style.position
  exists_widget : ∃ inner, part.widget = subject.style.rotate inner

theorem stays_describe {subject : Subject} {inner : Expr} :
    Stays subject (subject.describe (subject.style.rotate inner)) := ⟨rfl, inner, rfl⟩

theorem stays_compose {options : CompileOptions} {subject : Subject} {semantic : Option Expr}
    {kids : List Part} : Stays subject (compose options subject semantic kids) := ⟨rfl, _, rfl⟩

theorem stays_image {subject : Subject} (hstrips : subject.stripsPlacement = false)
    (widget : Expr) : Stays subject (subject.image widget) := by
  rw [Subject.image, hstrips]
  exact stays_describe

/-- Without the size of an icon a box is composed of its children. -/
theorem box_eq_compose {subject : Subject} (hstrips : subject.stripsPlacement = false)
    (children : List Node) (kids : List Part) :
    scene.box subject children kids = compose scene.options subject none kids := by
  rw [Scene.box, hstrips]
  rfl

/-- Each image of an element is one of these parts. -/
theorem yields_image_of {P : Part → Prop} {subject : Subject}
    (himage : ∀ widget, P (subject.image widget))
    (hnone : P (subject.describe (subject.style.rotate placeholder))) :
    Yields P (scene.image subject) := by
  rw [Scene.image]
  split
  · exact yields_pure (himage _)
  · refine yields_bind (P := fun _ => True) (yields_modifyGet fun _ => trivial) fun asset _ => ?_
    split
    · split
      · exact yields_pure (himage _)
      · exact yields_pure (himage _)
    · split
      · exact yields_pure (himage _)
      · exact yields_pure hnone

/-- The part of an element has what its images, its controls, its rich text and its boxes have. -/
theorem yields_node_of {P : Part → Prop}
    (hdescribe : ∀ inner, P ((scene.subject isRoot element).describe
      ((scene.subject isRoot element).style.rotate inner)))
    (himage : ∀ widget, P ((scene.subject isRoot element).image widget))
    (hcontrol : ∀ widget, P (compose scene.options (scene.subject isRoot element) (some widget) []))
    (hbox : ∀ kids, P (scene.box (scene.subject isRoot element) children kids)) :
    Yields P (scene.node isRoot (.element element children)) := by
  rw [Scene.node]
  split
  · exact yields_pure (hdescribe _)
  · exact yields_pure (hcontrol _)
  · split
    · exact yields_image_of himage (hdescribe _)
    · split
      · refine yields_bind (P := fun _ => True) (fun _ => trivial) fun spans _ => ?_
        exact yields_pure (hdescribe _)
      · refine yields_bind (P := fun _ => True) (fun _ => trivial) fun kids _ => ?_
        exact yields_pure (hbox kids)

theorem stays_node (hstrips : (scene.subject isRoot element).stripsPlacement = false) :
    Yields (Stays (scene.subject isRoot element))
      (scene.node isRoot (.element element children)) := by
  refine yields_node_of (fun _ => stays_describe) (stays_image hstrips) (fun _ => stays_compose) ?_
  intro kids
  rw [box_eq_compose hstrips]
  exact stays_compose

/-! ## The size in a stack -/

/-- The size of a part is that of its element, without the height if it shows an input field. -/
def KeepsSize (subject : Subject) (part : Part) : Prop :=
  part.size = subject.style.size ∨
    part.size = subject.style.size.withoutHeight ∧ ShowsInput part.widget

theorem keepsSize_compose_control {options : CompileOptions} {subject : Subject} {widget : Expr} :
    KeepsSize subject (compose options subject (some widget) []) := by
  cases hinput : Control.ownsInputBackground widget with
  | false => exact .inl (by simp [compose, inputOwned, hinput])
  | true =>
    exact .inr ⟨by simp [compose, inputOwned, hinput], widget, nested_compose_control, hinput⟩

theorem keepsSize_compose {options : CompileOptions} {subject : Subject} {kids : List Part} :
    KeepsSize subject (compose options subject none kids) := by
  cases hinput : inputOwned none (kids.filter (!·.isAbsolute)) with
  | false => exact .inl (by simp [compose, hinput])
  | true =>
    refine .inr ⟨by simp [compose, hinput], ?_⟩
    -- The input field is the only child in the flow, and so no stack reduces it.
    unfold inputOwned at hinput
    split at hinput
    · rename_i heq
      cases heq
    · rename_i only _ hflow
      have honly : only ∈ kids.filter (!·.isAbsolute) := by
        rw [hflow]
        exact List.mem_cons_self
      rw [List.mem_filter, Bool.not_eq_true'] at honly
      have hnot : ¬ only.IsReduced options.thresholds := by
        rintro ⟨habsolute, -⟩
        rw [honly.2] at habsolute
        cases habsolute
      exact ⟨only.widget, nested_compose honly.1 hnot .here, hinput⟩
    · cases hinput

theorem keepsSize_image {subject : Subject} (widget : Expr) :
    KeepsSize subject (subject.image widget) := by
  unfold Subject.image
  split
  · exact .inl rfl
  · exact .inl rfl

theorem keepsSize_node : Yields (KeepsSize (scene.subject isRoot element))
    (scene.node isRoot (.element element children)) := by
  refine yields_node_of (fun _ => .inl rfl) keepsSize_image
    (fun _ => keepsSize_compose_control) fun kids => ?_
  unfold Scene.box
  cases (if (scene.subject isRoot element).stripsPlacement then
    Scene.simplifiedIcon? (scene.subject isRoot element) children kids else none) with
  | some icon => exact .inl rfl
  | none => exact keepsSize_compose

/-- A stack takes a part for an icon if its element is one or a sliver, or if it is narrow and shows
    an input field. -/
theorem KeepsSize.of_isIconSized {part : Part}
    (hkeeps : KeepsSize (scene.subject isRoot element) part)
    (hicon : scene.options.thresholds.isIconSized part.size = true) :
    scene.options.thresholds.isIconSized (scene.declaredSize element) = true ∨
      scene.options.thresholds.IsSliver (scene.declaredSize element) ∨
      scene.options.thresholds.IsNarrow (scene.declaredSize element) ∧ ShowsInput part.widget := by
  obtain hsize | ⟨hsize, hinput⟩ := hkeeps
  · rw [hsize] at hicon
    obtain h | h := (Thresholds.isIconSized_normalize _ _).mp hicon
    · exact .inl h
    · exact .inr (.inl h)
  · rw [hsize, Thresholds.isIconSized_withoutHeight] at hicon
    refine .inr (.inr ⟨?_, hinput⟩)
    have hwidth := scene.options.thresholds.width_normalize (scene.declaredSize element)
    unfold Thresholds.IsNarrow at hicon ⊢
    rwa [← hwidth]

/-! ## Synthesis -/

/-- Normalization makes an icon of a size exactly if it is that of an icon or a sliver. An element
    of any other size keeps its placement and its rotation, its box is composed of all its children,
    and a stack may take it for its base and places it as a whole, unless it is narrow and shows an
    input field. -/
theorem isIconSized_of_treated (scene : Scene) (isRoot : Bool) (element : Element)
    (children : List Node) (assets : AssetRegistry) :
    (∀ (t : Thresholds) (size : Size),
      t.isIconSized (t.normalize size) = true ↔ t.isIconSized size = true ∨ t.IsSliver size) ∧
    (¬ scene.options.thresholds.isIconSized (scene.declaredSize element) = true →
      ¬ scene.options.thresholds.IsSliver (scene.declaredSize element) →
      let subject := scene.subject isRoot element
      let part := ((scene.node isRoot (.element element children)).run assets).1
      Stays subject part ∧
        (∀ kids, scene.box subject children kids = compose scene.options subject none kids) ∧
        (¬ (scene.options.thresholds.IsNarrow (scene.declaredSize element) ∧
            ShowsInput part.widget) →
          isBase scene.options.thresholds part = part.placement.any Edges.isTopLeftAnchored ∧
          StackChild part (layer scene.options.thresholds part))) := by
  refine ⟨Thresholds.isIconSized_normalize, ?_⟩
  intro hicon hsliver subject part
  have hstrips : subject.stripsPlacement = false := stripsPlacement_eq_false hicon hsliver
  refine ⟨stays_node hstrips assets, box_eq_compose hstrips children, fun hinput => ?_⟩
  have hlarge : scene.options.thresholds.isIconSized part.size = false := by
    rw [← Bool.not_eq_true]
    intro hsmall
    obtain h | h | h := (keepsSize_node assets).of_isIconSized hsmall
    · exact hicon h
    · exact hsliver h
    · exact hinput h
  refine ⟨by simp [isBase, hlarge], ?_⟩
  rw [layer, hlarge]
  exact stackChild_positioned part

/-- A tall box that is as wide as a card is placed with the icon in it. -/
theorem isIconSized_of_treated_card :
    let scene := iconScene ".card\x7bposition:absolute;left:4px;width:240px;height:1300px;\x7d"
    let part := ((scene.node false (.element (classed "card") [iconImage])).run noAssets).1
    scene.options.thresholds.isIconSized (scene.declaredSize (classed "card")) = false ∧
      layer scene.options.thresholds part =
        .named "Positioned" [("left", .num 4.0), Expr.child part.widget] := by
  intro scene part
  have hicon : scene.options.thresholds.isIconSized (scene.declaredSize (classed "card")) =
      false := by decide +kernel
  have hwide : ¬ scene.options.thresholds.IsNarrow (scene.declaredSize (classed "card")) := by
    unfold Thresholds.IsNarrow
    decide +kernel
  obtain ⟨hstays, -, hplaced⟩ := (isIconSized_of_treated scene false (classed "card") [iconImage]
    noAssets).2 (by simp [hicon]) fun hsliver => hwide hsliver.narrow
  have hposition : (scene.subject false (classed "card")).style.position =
      some ⟨none, none, none, some 4.0⟩ := by decide +kernel
  have hoffsets : ∀ kid : Part, kid.placement = some ⟨none, none, none, some 4.0⟩ →
      declaredOffsets kid = [("left", .num 4.0)] := by
    intro kid hkid
    rw [declaredOffsets, hkid]
    rfl
  have hleft : declaredOffsets part = [("left", .num 4.0)] :=
    hoffsets part (hstays.placement_eq.trans hposition)
  have hlayer := (hplaced fun hinput => hwide hinput.1).2.eq_positioned
    (hleft ▸ List.cons_ne_nil _ _)
  rw [hleft] at hlayer
  exact ⟨hicon, hlayer⟩

/-- A tall and narrow box around an icon. -/
private def barScene : Scene :=
  iconScene ".bar\x7bposition:absolute;left:4px;width:24px;height:1300px;\x7d"

private def barRoot : Node := .element ⟨"div", ⟨[]⟩⟩ [.element (classed "bar") [iconImage]]

/-- A narrow box around an input field and a placed icon. -/
private def fieldScene : Scene :=
  iconScene <| ".field\x7bposition:absolute;left:4px;width:100px;height:300px;\x7d" ++
    ".mark\x7bposition:absolute;left:4px;width:200px;\x7d"

private def fieldRoot : Node :=
  .element ⟨"div", ⟨[]⟩⟩ [.element (classed "field") [.element ⟨"input", ⟨[]⟩⟩ [],
    .element ⟨"img", ⟨[("src", "a.svg"), ("className", "mark")]⟩⟩ []]]

/-- A tall and narrow box is no icon as it is declared, but it is not placed. Nor is a narrow box
    with an input field an icon as it is declared, but the icon in it is all that is left of it. -/
theorem isIconSized_normalize_bar :
    ({} : Thresholds).iconMaxExtent ≤ ({} : Thresholds).maxPlausibleHeight ∧
    ({} : Thresholds).isIconSized ⟨some 24.0, some 1300.0⟩ = false ∧
    ({} : Thresholds).isIconSized (({} : Thresholds).normalize ⟨some 24.0, some 1300.0⟩) = true ∧
    barScene.options.thresholds.isIconSized (barScene.declaredSize (classed "bar")) = false ∧
    (barScene.synthesize barRoot noAssets).1.widget.usesCallee "Positioned" = false ∧
    fieldScene.options.thresholds.isIconSized (fieldScene.declaredSize (classed "field")) = false ∧
    (fieldScene.synthesize fieldRoot noAssets).1.widget.usesCallee "AppInput" = false :=
  ⟨by decide +kernel, by decide +kernel, by decide +kernel, by decide +kernel, by decide +kernel,
    by decide +kernel, by decide +kernel⟩

end Synthesis

end DesignCompiler
