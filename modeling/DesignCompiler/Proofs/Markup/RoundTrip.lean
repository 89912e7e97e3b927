import DesignCompiler.Proofs.Markup.Reading
import DesignCompiler.Proofs.Markup.Table

/-!
# Markup round trip

Reading what was printed gives the tree back, in the document and in its node table.
-/

namespace DesignCompiler.Markup

open Text Source

/-- A text that begins with a tag is all markup. -/
theorem markupStart?_of_letter {c : Char} {rest : List Char} (hc : isAsciiLetter c = true) :
    markupStart? ('<' :: c :: rest) = some ('<' :: c :: rest) := by
  rw [markupStart?, markupFrom?, if_pos]
  simp [opensMarkup, hc, inExpressionPosition]

/-- The document of a source in whose markup reading comes to a single element. -/
theorem parse_of_readForest {source text : List Char} {head : Element} {children : List Node}
    (hstart : markupStart? source = some text)
    (hforest : readForest [] text = .ok [.element head children]) :
    parse (String.ofList source) =
      .ok ⟨[.element head children], .element head children⟩ := by
  have hdocument : readDocument source =
      .ok ⟨[.element head children], .element head children⟩ := by
    rw [readDocument, hstart]
    simp only [hforest]
    rfl
  rw [parse, String.toList_ofList]
  simp only [hdocument]
  rfl

/-- Parsing undoes printing: the document is the printed element with its fragments dissolved, and
    its node table holds that tree at the root. -/
theorem parse_printed {tag text : List Char} {attributes : List (List Char × List Char)}
    {children : List Source} (hwellFormed : (Source.element tag attributes children).WellFormed)
    (hletter : tag.head?.any isAsciiLetter = true)
    (hprints : Prints [.element tag attributes children] text) :
    ∃ document,
      parse (String.ofList text) = .ok document ∧
      document.root = .element ⟨String.ofList tag, dictionaryOf attributes⟩ (nodesOf children) ∧
      (Dom.ofDocument document).root = some 0 ∧
      (Dom.ofDocument document).tree? 0 =
        some (.element ⟨String.ofList tag, dictionaryOf attributes⟩ (nodesOf children)) := by
  have hforest : readForest [] text =
      .ok [.element ⟨String.ofList tag, dictionaryOf attributes⟩ (nodesOf children)] := by
    cases hwellFormed with
    | element htag hlower hdot hnames hnodup hapart hchildren =>
      cases hprints with
      | closed hattributes hnone =>
        cases hnone
        have h := readForest_closed htag hlower hdot hnames hnodup hattributes [] []
        rwa [List.append_nil] at h
      | element hattributes hinner hnone =>
        cases hnone
        have h := readForest_element htag hlower hdot hnames hnodup hattributes
          (hinner.addsNodes hchildren hapart) [] []
        rwa [List.append_nil] at h
  have hstart : markupStart? text = some text := by
    obtain ⟨c, tail, rfl, hc⟩ : ∃ c tail, tag = c :: tail ∧ isAsciiLetter c = true := by
      cases tag with
      | nil => cases hletter
      | cons c tail => exact ⟨c, tail, rfl, hletter⟩
    cases hprints with
    | closed => exact markupStart?_of_letter hc
    | element => exact markupStart?_of_letter hc
  obtain ⟨hroot, htree⟩ := @Dom.ofDocument_singleton
    ⟨[.element _ (nodesOf children)], .element _ (nodesOf children)⟩ _ _ rfl
  exact ⟨_, parse_of_readForest hstart hforest, rfl, hroot, htree⟩

/-- A text in a fragment beside an element without children, with an entity of either kind. -/
theorem parse_printed_paragraph :
    ∃ document, parse "<p class=\"a&quot;b\"><>x&#60;y</><br/></p>" = .ok document ∧
      document.root = .element ⟨"p", ⟨[("class", "a\"b")]⟩⟩
        [.text "x<y", .element ⟨"br", ⟨[]⟩⟩ []] := by
  have hbreak : (Source.element "br".toList [] []).WellFormed :=
    .element (by decide) (by decide) (by decide) (by simp) (by simp) .nil (by simp)
  have hfragment : (Source.fragment [.text "x<y".toList]).WellFormed :=
    .fragment (.singleton _) (by
      rw [List.forall_mem_singleton]
      exact .text (by decide) (by decide))
  have hwellFormed : (Source.element "p".toList [("class".toList, "a\"b".toList)]
      [.fragment [.text "x<y".toList], .element "br".toList [] []]).WellFormed := by
    refine .element (by decide) (by decide) (by decide) (by decide) (by decide) ?_ ?_
    · exact .cons_cons (by decide) (.singleton _)
    · exact List.forall_mem_cons.mpr ⟨hfragment, List.forall_mem_singleton.mpr hbreak⟩
  have hquote : EntityBody '"' "quot".toList := .named (by decide)
  have hless : EntityBody '<' "#60".toList :=
    .decimal (by decide) (by decide) (List.all_eq_true.mp (by decide)) (by decide)
  have hvalue : Spelled escapedInValue "a\"b".toList "a&quot;b".toList :=
    .plain (by decide) (.entity hquote (.plain (by decide) .nil))
  have htext : Spelled escapedInText "x<y".toList "x&#60;y".toList :=
    .plain (by decide) (.entity hless (.plain (by decide) .nil))
  have hgap : IsGap " ".toList := by
    rintro c (_ | ⟨_, ⟨⟩⟩)
    decide
  have hattributes : PrintsAttributes [("class".toList, "a\"b".toList)]
      " class=\"a&quot;b\"".toList := .cons hgap (by decide) hvalue (.nil isGap_nil)
  have hprints : Prints [.element "p".toList [("class".toList, "a\"b".toList)]
      [.fragment [.text "x<y".toList], .element "br".toList [] []]]
      "<p class=\"a&quot;b\"><>x&#60;y</><br/></p>".toList :=
    .element hattributes (.fragment (.text htext .nil)
      (.closed (.nil isGap_nil) .nil)) .nil
  obtain ⟨document, hparse, hroot, -⟩ := parse_printed hwellFormed (by decide) hprints
  exact ⟨document, by simpa using hparse, hroot⟩

end DesignCompiler.Markup
