import DesignCompiler.Control.Widget
import DesignCompiler.Proofs.Text.Words

/-!
# Labels of buttons

The label of a node is the first run of text in it that is not blank. A button has it as its title,
with one exception: an element without text that stands before the label hides it from a `button`
element, which looks at its children only up to the first one that is no blank text.
-/

namespace DesignCompiler

open Text

namespace Markup.Node

/-- The runs of text at and below the node, in document order and as they stand. -/
def runs (node : Node) : List String := node.subtrees.filterMap text?

/-- The first run of text at or below the node that is not blank. -/
def label? (node : Node) : Option String := node.runs.find? (!isBlankText ·)

theorem label?_text (content : String) :
    (text content).label? = if isBlankText content then none else some content := by
  cases hblank : isBlankText content <;> simp [label?, runs, subtrees, text?, hblank]

/-- The label of an element is that of its first child with a label. -/
theorem label?_element (head : Element) (children : List Node) :
    (element head children).label? = children.findSome? label? := by
  have hchildren : ((subtreesOfList children).filterMap text?).find? (!isBlankText ·) =
      children.findSome? label? := by
    induction children with
    | nil => rfl
    | cons child rest ih =>
      rw [subtreesOfList, List.filterMap_append, List.find?_append, ih, List.findSome?_cons]
      change child.label?.or _ = _
      cases child.label? <;> rfl
  rw [label?, runs, subtrees, List.filterMap_cons]
  exact hchildren

theorem ofList_collapse_ne_iff (content : String) :
    String.ofList (collapse content.toList) ≠ "" ↔ isBlankText content = false := by
  rw [ne_eq, ← String.ofList_nil, String.ofList_inj, collapse_eq_nil_iff, isBlankText,
    Bool.not_eq_true]

/-- The first of the texts of a node is its label, collapsed. -/
theorem head?_texts (node : Node) :
    node.texts.head? = node.label?.map fun run => String.ofList (collapse run.toList) := by
  have hblank : (fun content => decide (String.ofList (collapse content.toList) ≠ "")) =
      (!isBlankText ·) := by
    funext content
    simp only [ofList_collapse_ne_iff, Bool.decide_eq_false]
  rw [texts, collapsedTexts, List.head?_filter, List.find?_map]
  exact congrArg (Option.map _ <| node.runs.find? ·) hblank

private theorem getLast?_foldl_seen (texts seen : List String) :
    (texts.foldl (fun seen text => if seen.contains text then seen else text :: seen)
      seen).getLast? =
      (seen.reverse ++ texts).head? := by
  induction texts generalizing seen with
  | nil => simp
  | cons text texts ih =>
    rw [List.foldl_cons, ih]
    split
    · rename_i hseen
      -- The first text seen comes before the repeated one.
      have hfirst : seen.reverse.head?.isSome = true := by
        rw [List.isSome_head?]
        rintro hnil
        rw [List.reverse_eq_nil_iff.mp hnil] at hseen
        cases hseen
      rw [List.head?_append, List.head?_append, Option.or_of_isSome hfirst,
        Option.or_of_isSome hfirst]
    · simp

/-- Leaving out repetitions keeps the first text. -/
theorem head?_uniqueTexts (node : Node) : node.uniqueTexts.head? = node.texts.head? := by
  rw [uniqueTexts, firstOccurrences, List.head?_reverse, getLast?_foldl_seen]
  rfl

end Markup.Node

namespace Control

open Markup Dart

/-- Two texts have the same words. -/
def SameWords (text other : String) : Prop := collapse text.toList = collapse other.toList

/-- Among some children a label is hidden: the first that is no blank text is an element without a
    label, and a later one has a label. -/
def HidesLabel (children : List Node) : Prop :=
  ∃ front graphic back, children = front ++ graphic :: back ∧
    (∀ child ∈ front, child.isElement = false ∧ child.label? = none) ∧
    graphic.isElement = true ∧ graphic.label? = none ∧ ∃ child ∈ back, child.label?.isSome = true

theorem buttonTitle?_text (content : String) :
    buttonTitle? (.text content) =
      (Node.text content).label?.map fun run => String.ofList (trim run.toList) := by
  have hempty : (trim content.toList).isEmpty = isBlankText content := by
    rw [Bool.eq_iff_iff, List.isEmpty_iff, trim_eq_nil_iff, isBlankText]
  rw [Node.label?_text, buttonTitle?]
  simp only [hempty]
  cases isBlankText content <;> rfl

theorem buttonTitle?_element (head : Element) (children : List Node) :
    buttonTitle? (.element head children) =
      some (((Node.element head children).label?.map fun run =>
        String.ofList (collapse run.toList)).getD "") := by
  rw [buttonTitle?, Node.head?_texts]
  simp

/-- The title that the children of a button give, unless it falls back to `Button`. -/
def childTitle? (children : List Node) : Option String :=
  (children.findSome? buttonTitle?).filter (· ≠ "")

/-- A child that is a blank text has no part in the title. -/
theorem buttonTitle?_of_blank {child : Node} (htext : child.isElement = false)
    (hblank : child.label? = none) : buttonTitle? child = none := by
  cases child with
  | element head children => cases htext
  | text content => rw [buttonTitle?_text, hblank, Option.map_none]

/-- A hidden label leaves no title. -/
theorem childTitle?_of_hidesLabel {children : List Node} (hhides : HidesLabel children) :
    childTitle? children = none := by
  obtain ⟨front, graphic, back, rfl, hfront, hgraphic, hnone, -⟩ := hhides
  have hpassed : front.findSome? buttonTitle? = none :=
    List.findSome?_eq_none_iff.mpr fun child hchild =>
      buttonTitle?_of_blank (hfront child hchild).1 (hfront child hchild).2
  cases graphic with
  | text content => cases hgraphic
  | element head children =>
    rw [childTitle?, List.findSome?_append, hpassed, List.findSome?_cons, buttonTitle?_element,
      hnone]
    rfl

theorem HidesLabel.cons_blank {child : Node} {children : List Node}
    (htext : child.isElement = false) (hblank : child.label? = none)
    (hhides : HidesLabel children) :
    HidesLabel (child :: children) := by
  obtain ⟨front, graphic, back, rfl, hfront, hrest⟩ := hhides
  exact ⟨child :: front, graphic, back, rfl,
    List.forall_mem_cons.mpr ⟨⟨htext, hblank⟩, hfront⟩, hrest⟩

theorem Node.isBlankText_of_label? {node : Node} {run : String} (hlabel : node.label? = some run) :
    isBlankText run = false := by
  simpa using List.find?_some hlabel

/-- A child with a label gives a title with the words of the label. -/
theorem exists_buttonTitle?_of_label {child : Node} {run : String}
    (hlabel : child.label? = some run) :
    ∃ title, buttonTitle? child = some title ∧ title ≠ "" ∧ SameWords title run := by
  have hblank := Node.isBlankText_of_label? hlabel
  cases child with
  | text content =>
    refine ⟨String.ofList (trim run.toList), ?_, ?_, ?_⟩
    · rw [buttonTitle?_text, hlabel, Option.map_some]
    · rw [ne_eq, ← String.ofList_nil, String.ofList_inj, trim_eq_nil_iff, Bool.not_eq_true]
      exact hblank
    · rw [SameWords, String.toList_ofList, collapse_trim]
  | element head children =>
    refine ⟨String.ofList (collapse run.toList), ?_, ?_, ?_⟩
    · rw [buttonTitle?_element, hlabel]
      rfl
    · rwa [Node.ofList_collapse_ne_iff]
    · rw [SameWords, String.toList_ofList, collapse_collapse]

/-- The title has the words of the label, and is `Button` if there is none. -/
def TitledBy (title : String) : Option String → Prop
  | some run => SameWords title run
  | none => title = "Button"

/-- A label that is not hidden is the title. -/
theorem titledBy_childTitle? {children : List Node} (hshown : ¬ HidesLabel children) :
    TitledBy ((childTitle? children).getD "Button") (children.findSome? Node.label?) := by
  induction children with
  | nil => exact rfl
  | cons child rest ih =>
    rw [childTitle?, List.findSome?_cons, List.findSome?_cons]
    cases hlabel : child.label? with
    | some run =>
      obtain ⟨title, htitle, hne, hwords⟩ := exists_buttonTitle?_of_label hlabel
      have hkept : (some title).filter (· ≠ "") = some title := by simp [hne]
      simp only [htitle, hkept]
      exact hwords
    | none =>
      cases child with
      | text content =>
        rw [buttonTitle?_of_blank rfl hlabel]
        exact ih fun hhides => hshown (hhides.cons_blank rfl hlabel)
      | element head children =>
        -- The element ends the search, so there must be no label behind it.
        have hrest : rest.findSome? Node.label? = none := by
          rw [List.findSome?_eq_none_iff]
          intro other hother
          rw [← Option.not_isSome_iff_eq_none]
          exact fun hlabelled => hshown
            ⟨[], _, rest, rfl, by simp, rfl, hlabel, other, hother, hlabelled⟩
        rw [buttonTitle?_element, hlabel, hrest]
        exact rfl

/-! ## Buttons -/

/-- The title of a button that is no `button` element is its label, collapsed. -/
theorem button?_of_container {node : Node} (htag : node.hasTag "button" = false) :
    button? node = node.label?.map fun run =>
      ⟨rippleButton (String.ofList (collapse run.toList)), false⟩ := by
  rw [button?, if_neg (by simp [htag]), Node.head?_uniqueTexts, Node.head?_texts, Option.map_map]
  rfl

/-- A `button` element always is a button. Its title has the words of its label, and is `Button` if
    it has none; a button that another element with the same children is has the same words in its
    title. Only a label that an element without text hides is lost: then the title is `Button`
    too. -/
theorem titledBy_button (vocabulary : Vocabulary) (styles : StyleTable) (head : Element)
    (children : List Node) (htag : head.tag = "button") :
    ∃ title, build? vocabulary styles (.element head children) .button =
        some ⟨rippleButton title, true⟩ ∧
      (HidesLabel children → title = "Button") ∧
      (¬ HidesLabel children →
        TitledBy title (Node.element head children).label? ∧
        ∀ container : Element, container.tag ≠ "button" →
          (Node.element head children).label?.isSome = true →
          ∃ other, build? vocabulary styles (.element container children) .button =
              some ⟨rippleButton other, false⟩ ∧ SameWords other title) := by
  refine ⟨(childTitle? children).getD "Button", ?_, fun hhides => ?_, fun hshown => ?_⟩
  · rw [build?, button?, if_pos (by simp [Node.hasTag, Node.head?, htag])]
    rfl
  · rw [childTitle?_of_hidesLabel hhides, Option.getD_none]
  · have hlabel : ∀ head, (Node.element head children).label? = children.findSome? Node.label? :=
      fun head => Node.label?_element head children
    have htitle := titledBy_childTitle? hshown
    rw [hlabel]
    refine ⟨htitle, fun container hother hsome => ?_⟩
    obtain ⟨run, hrun⟩ := Option.isSome_iff_exists.mp hsome
    rw [hrun] at htitle
    refine ⟨String.ofList (collapse run.toList), ?_, ?_⟩
    · rw [build?, button?_of_container (by simp [Node.hasTag, Node.head?, hother]), hlabel, hrun]
      rfl
    · rw [SameWords, String.toList_ofList, collapse_collapse]
      exact htitle.symm

/-- The tag alone. -/
private def tagged (tag : String) : Element := ⟨tag, ⟨[]⟩⟩

/-- A button whose label is nested between an empty line and an icon. -/
theorem titledBy_button_save :
    let children : List Node := [.text "\n  ",
      .element (tagged "span") [.element (tagged "b") [.text " Save\n all "]],
      .element (tagged "img") []]
    ¬ HidesLabel children ∧
      ∃ title, build? .standard .empty (.element (tagged "button") children) .button =
          some ⟨rippleButton title, true⟩ ∧ SameWords title "Save all" := by
  intro children
  have htitle : childTitle? children = some "Save all" := by decide
  have hshown : ¬ HidesLabel children := fun hhides => by
    rw [childTitle?_of_hidesLabel hhides] at htitle
    cases htitle
  obtain ⟨title, hbutton, -, hlabel⟩ :=
    titledBy_button .standard .empty (tagged "button") children rfl
  have hrun : (Node.element (tagged "button") children).label? = some " Save\n all " := by decide
  have hwords := (hlabel hshown).1
  rw [hrun] at hwords
  refine ⟨hshown, title, hbutton, hwords.trans ?_⟩
  decide

/-- An icon in front of the label hides it from a `button` element, though not from a container. -/
theorem button_hides_label :
    let children : List Node := [.element (tagged "img") [], .text "Save"]
    (Node.element (tagged "button") children).label? = some "Save" ∧
      build? .standard .empty (.element (tagged "button") children) .button =
        some ⟨rippleButton "Button", true⟩ ∧
      build? .standard .empty (.element (tagged "div") children) .button =
        some ⟨rippleButton "Save", false⟩ ∧
      ¬ SameWords "Button" "Save" := by
  refine ⟨by decide, rfl, rfl, ?_⟩
  rw [SameWords]
  decide

end Control

end DesignCompiler
