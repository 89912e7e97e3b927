import DesignCompiler.Proofs.Markup.Tags

/-!
# Reading printed markup

Each printed piece of markup is read event by event, and its nodes are added to the innermost open
node. What follows is left as it was.
-/

namespace DesignCompiler.Markup

open Text Source TagToken

/-! ## Events -/

theorem not_isNameChar_of_isSkipped {c : Char} (hc : isSkipped c = true) :
    isNameChar c = false := by
  simp only [isSkipped, List.contains_iff_mem, List.mem_cons, List.not_mem_nil, or_false] at hc
  obtain rfl | rfl | rfl | rfl | rfl := hc <;> decide

/-- A name ends where the attributes of its tag begin. -/
theorem PrintsAttributes.not_isNameChar {attributes : List (List Char × List Char)}
    {text rest : List Char} (hprinted : PrintsAttributes attributes text) (closesItself : Bool) :
    ∀ d ∈ (text ++ tagEnd closesItself ++ rest).head?, isNameChar d = false := by
  have hgap : ∀ (gap after : List Char), IsGap gap → (∀ d ∈ after.head?, isNameChar d = false) →
      ∀ d ∈ (gap ++ after).head?, isNameChar d = false := by
    intro gap after hgap hafter
    cases gap with
    | nil => exact hafter
    | cons c gap =>
      intro d hd
      obtain rfl : c = d := by simpa using hd
      exact not_isNameChar_of_isSkipped (hgap c List.mem_cons_self)
  cases hprinted with
  | nil hblanks =>
    rw [List.append_assoc]
    refine hgap _ _ hblanks ?_
    cases closesItself <;> simp [tagEnd] <;> decide
  | @cons gap _ _ _ _ _ hblanks hne _ _ =>
    cases gap with
    | nil => exact absurd rfl hne
    | cons c gap =>
      intro d hd
      obtain rfl : c = d := by simpa using hd
      exact not_isNameChar_of_isSkipped (hblanks c List.mem_cons_self)

theorem nextEvent_opening {rest : List Char} (hrest : rest.head? ≠ some '/') :
    nextEvent '<' rest = openingEvent ('<' :: rest) rest := by
  rw [nextEvent, if_pos (by rfl)]
  rintro inside rfl
  exact hrest rfl

theorem nextEvent_fragment (rest : List Char) :
    nextEvent '<' ('>' :: rest) = .ok (.opening none, rest) := by
  have hnext : next ('>' :: rest) = .ok (.close, rest) :=
    next_cons_of_scan? (by decide) rfl
  rw [nextEvent_opening (by simp), openingEvent, hnext]

theorem nextEvent_fragmentEnd (rest : List Char) :
    nextEvent '<' ('/' :: '>' :: rest) = .ok (.closing none, rest) := by
  have hnext : next ('>' :: rest) = .ok (.close, rest) :=
    next_cons_of_scan? (by decide) rfl
  rw [nextEvent, if_pos (by rfl)]
  simp only [closingEvent, hnext]

/-- The event of a printed opening tag. -/
theorem nextEvent_tag {tag text : List Char} {attributes : List (List Char × List Char)}
    (htag : isName tag = true) (hlower : lowerAscii tag = tag) (hdot : '.' ∉ tag)
    (hnames : ∀ entry ∈ attributes, isName entry.1 = true)
    (hnodup : (attributes.map Prod.fst).Nodup) (hprinted : PrintsAttributes attributes text)
    (closesItself : Bool) (rest : List Char) :
    nextEvent '<' (tag ++ (text ++ tagEnd closesItself ++ rest)) =
      .ok (if closesItself then .empty ⟨String.ofList tag, dictionaryOf attributes⟩
        else .opening (some ⟨tag, ⟨String.ofList tag, dictionaryOf attributes⟩⟩), rest) := by
  have hnext : next (tag ++ (text ++ tagEnd closesItself ++ rest)) =
      .ok (.name tag, text ++ tagEnd closesItself ++ rest) :=
    next_name isGap_nil htag (hprinted.not_isNameChar closesItself)
  have hattributes :=
    attributesFrom_printed hprinted [] closesItself rest hnames (by simpa using hnodup)
  have hnormal : normalTag tag = String.ofList tag := by
    rw [normalTag, if_neg (by simpa using hdot), hlower]
  have hslash : (tag ++ (text ++ tagEnd closesItself ++ rest)).head? ≠ some '/' := by
    obtain ⟨c, tail, rfl, hc, -⟩ := exists_eq_cons_of_isName htag
    simpa using startsName_ne hc '/'
  have hempty : dictionaryOf [] = Dictionary.empty := rfl
  rw [hempty, List.nil_append] at hattributes
  rw [nextEvent_opening hslash, openingEvent, hnext]
  simp only [hattributes, hnormal]

theorem nextEvent_tagEnd {tag rest : List Char} (htag : isName tag = true) :
    nextEvent '<' ('/' :: (tag ++ '>' :: rest)) = .ok (.closing (some tag), rest) := by
  have hname : next (tag ++ '>' :: rest) = .ok (.name tag, '>' :: rest) :=
    next_name isGap_nil htag (by simp; decide)
  have hclose : next ('>' :: rest) = .ok (.close, rest) :=
    next_cons_of_scan? (by decide) rfl
  rw [nextEvent, if_pos (by rfl)]
  simp only [closingEvent, hname, hclose]

/-- A printed text is read up to the tag after it. -/
theorem nextEvent_text {content raw rest : List Char} {c : Char}
    (hspelled : Spelled escapedInText content (c :: raw)) (hblank : allBlank content = false)
    (hline : '\n' ∉ content) (hrest : rest.head? = some '<') :
    nextEvent c (raw ++ rest) = .ok (.text content, rest) := by
  have hends : ∀ d ∈ c :: raw, (!endsText d) = true := by
    intro d hd
    have hopen : d ≠ '<' := fun h => (hspelled.not_mem '<' (by decide)) (h ▸ hd)
    have hbrace : d ≠ '\x7b' := fun h =>
      (hspelled.not_mem '\x7b' (by decide)) (h ▸ hd)
    simp [endsText, hopen, hbrace]
  rw [List.forall_mem_cons] at hends
  have hstop : ∀ d ∈ rest.head?, (!endsText d) = false := by
    intro d hd
    obtain rfl : '<' = d := by simpa [hrest] using hd
    rfl
  have hsingle : (c :: raw).contains '\n' = false := by
    rw [← Bool.not_eq_true, List.contains_iff_mem]
    intro hmem
    obtain h | h | h := hspelled.mem_or hmem
    · exact hline h
    · exact absurd h (by decide)
    · exact absurd h (by decide)
  have hcontent : textContent (c :: raw) = content := by
    rw [textContent, if_neg (by simp [hspelled.allBlank_eq_false hblank]),
      if_neg (by rw [hsingle]; decide), hspelled.decodeEntities_eq (by decide)]
  have hne : content.isEmpty = false := by
    cases content with
    | nil => cases hblank
    | cons => rfl
  have hmarks : (c == '<') = false ∧ (c == '\x7b') = false := by
    simpa [endsText] using hends.1
  rw [nextEvent.eq_def, if_neg (by simp [hmarks.1]), if_neg (by simp [hmarks.2]), textEvent,
    takeWhile_append_of_head? hends.2 hstop, dropWhile_append_of_head? hends.2 hstop, hcontent, hne]
  rfl

/-! ## Documents -/

/-- Reading goes on from what has been reached. -/
def Progress.resume (rest : List Char) : Progress → Except (Fault (List Char)) (List Node)
  | .within node outer => readForest (node :: outer) rest
  | .complete forest => .ok forest

theorem readForest_cons {opened : List OpenNode} {c : Char} {rest after : List Char} {event : Event}
    {progress : Progress} (hevent : nextEvent c rest = .ok (event, after))
    (hstep : Progress.step (c :: rest) opened event = .ok progress) :
    readForest opened (c :: rest) = progress.resume after := by
  rw [readForest]
  split
  · rename_i hfault
    rw [hevent] at hfault
    cases hfault
  · rename_i hfound
    rw [hevent] at hfound
    cases hfound
    rw [hstep]
    cases progress <;> rfl

/-- An open node with more children. -/
def OpenNode.extend (node : OpenNode) (nodes : List Node) : OpenNode :=
  { node with children := node.children ++ nodes }

/-- The text begins with a tag. -/
def BeginsTag (text : List Char) : Prop := text.head? = some '<'

theorem beginsTag_cons (rest : List Char) : BeginsTag ('<' :: rest) := rfl

/-- Inside an open node, reading a text adds nodes and leaves the rest, if the rest is one that may
    follow. -/
def AddsNodes (mayFollow : List Char → Prop) (text : List Char) (nodes : List Node) : Prop :=
  ∀ (node : OpenNode) (outer : List OpenNode) (rest : List Char), mayFollow rest →
    readForest (node :: outer) (text ++ rest) = readForest (node.extend nodes :: outer) rest

theorem AddsNodes.nil {mayFollow : List Char → Prop} : AddsNodes mayFollow [] [] := by
  intro node outer rest _
  simp [OpenNode.extend]

theorem AddsNodes.append {mayFollow mayEnd : List Char → Prop} {front back : List Char}
    {nodes others : List Node} (hfront : AddsNodes mayFollow front nodes)
    (hback : AddsNodes mayEnd back others)
    (hnext : ∀ rest, mayEnd rest → mayFollow (back ++ rest)) :
    AddsNodes mayEnd (front ++ back) (nodes ++ others) := by
  intro node outer rest hrest
  rw [List.append_assoc, hfront node outer _ (hnext rest hrest), hback _ outer rest hrest]
  simp [OpenNode.extend]

/-- A text is read up to the tag after it. -/
theorem addsNodes_text {content raw : List Char} (hspelled : Spelled escapedInText content raw)
    (hblank : allBlank content = false) (hline : '\n' ∉ content) :
    AddsNodes BeginsTag raw [.text (String.ofList content)] := by
  intro node outer rest hrest
  cases raw with
  | nil => exact absurd (hspelled.allBlank_eq_false hblank) (by decide)
  | cons c raw =>
    rw [List.cons_append, readForest_cons (nextEvent_text hspelled hblank hline hrest) rfl]
    rfl

/-- A fragment leaves its children to what encloses it. -/
theorem addsNodes_fragment {inner : List Char} {nodes : List Node}
    (hinner : AddsNodes BeginsTag inner nodes) :
    AddsNodes (fun _ => True) ('<' :: '>' :: inner ++ ['<', '/', '>']) nodes := by
  intro node outer rest _
  have htext : '<' :: '>' :: inner ++ ['<', '/', '>'] ++ rest =
      '<' :: '>' :: (inner ++ '<' :: '/' :: '>' :: rest) := by simp
  rw [htext, readForest_cons (nextEvent_fragment _) rfl, Progress.resume,
    hinner _ _ _ (beginsTag_cons _), readForest_cons (nextEvent_fragmentEnd rest) rfl]
  rfl

section Tags

variable {tag attributesText : List Char} {attributes : List (List Char × List Char)}
  (htag : isName tag = true) (hlower : lowerAscii tag = tag) (hdot : '.' ∉ tag)
  (hnames : ∀ entry ∈ attributes, isName entry.1 = true)
  (hnodup : (attributes.map Prod.fst).Nodup)
  (hattributes : PrintsAttributes attributes attributesText)

include htag hlower hdot hnames hnodup hattributes

/-- An element closed in its opening tag is added to what is open. -/
theorem readForest_closed (opened : List OpenNode) (rest : List Char) :
    readForest opened ('<' :: tag ++ attributesText ++ ['/', '>'] ++ rest) =
      (Progress.add [.element ⟨String.ofList tag, dictionaryOf attributes⟩ []] opened).resume
        rest := by
  have hevent := nextEvent_tag htag hlower hdot hnames hnodup hattributes true rest
  have htext : '<' :: tag ++ attributesText ++ ['/', '>'] ++ rest =
      '<' :: (tag ++ (attributesText ++ tagEnd true ++ rest)) := by simp [tagEnd]
  rw [htext, readForest_cons hevent rfl]

/-- An element between its tags is added to what is open, with the nodes between them. -/
theorem readForest_element {inner : List Char} {nodes : List Node}
    (hinner : AddsNodes BeginsTag inner nodes) (opened : List OpenNode) (rest : List Char) :
    readForest opened
        ('<' :: tag ++ attributesText ++ '>' :: inner ++ '<' :: '/' :: tag ++ ['>'] ++ rest) =
      (Progress.add [.element ⟨String.ofList tag, dictionaryOf attributes⟩ nodes] opened).resume
        rest := by
  have hevent := nextEvent_tag htag hlower hdot hnames hnodup hattributes false
    (inner ++ '<' :: '/' :: (tag ++ '>' :: rest))
  have htext :
      '<' :: tag ++ attributesText ++ '>' :: inner ++ '<' :: '/' :: tag ++ ['>'] ++ rest =
        '<' :: (tag ++ (attributesText ++ tagEnd false ++
          (inner ++ '<' :: '/' :: (tag ++ '>' :: rest)))) := by simp [tagEnd]
  rw [htext, readForest_cons hevent rfl, Progress.resume, hinner _ _ _ (beginsTag_cons _)]
  refine readForest_cons (nextEvent_tagEnd htag) ?_
  simp [Progress.step, OpenNode.extend, OpenNode.close]

end Tags

/-- Markup that does not begin with a text begins with a tag. -/
theorem Prints.beginsTag {piece : Source} {rest : List Source} {text after : List Char}
    (hprints : Prints (piece :: rest) text) (hpiece : piece.isText = false) :
    BeginsTag (text ++ after) := by
  cases hprints with
  | text => cases hpiece
  | fragment => rfl
  | closed => rfl
  | element => rfl

/-- What follows a text begins with a tag: the next piece, or else what ends its siblings. -/
theorem Prints.beginsTag_of_textsApart {content text after : List Char} {rest : List Source}
    (hprints : Prints rest text) (hapart : TextsApart (.text content :: rest))
    (hafter : BeginsTag after) : BeginsTag (text ++ after) := by
  cases rest with
  | nil =>
    cases hprints
    exact hafter
  | cons piece rest =>
    have hpiece : piece.isText = false := by
      simpa [isText] using List.rel_of_isChain_cons_cons hapart
    exact hprints.beginsTag hpiece

/-- Printed markup is read as its nodes. -/
theorem Prints.addsNodes {pieces : List Source} {text : List Char} (hprints : Prints pieces text) :
    (∀ piece ∈ pieces, piece.WellFormed) → TextsApart pieces →
      AddsNodes BeginsTag text (nodesOf pieces) := by
  induction hprints with
  | nil => exact fun _ _ => .nil
  | text hspelled hrest ih =>
    intro hpieces hapart
    rw [List.forall_mem_cons] at hpieces
    cases hpieces.1 with
    | text hblank hline =>
      exact (addsNodes_text hspelled hblank hline).append (ih hpieces.2 hapart.of_cons)
        fun _ => hrest.beginsTag_of_textsApart hapart
  | @fragment children rest inner text _ _ ihChildren ihRest =>
    intro hpieces hapart
    rw [List.forall_mem_cons] at hpieces
    cases hpieces.1 with
    | fragment hchildrenApart hchildren =>
      have hinner := addsNodes_fragment (ihChildren hchildren hchildrenApart)
      simpa [nodesOf, nodes] using
        hinner.append (ihRest hpieces.2 hapart.of_cons) fun _ _ => trivial
  | @closed tag attributesText text attributes rest hattributes _ ih =>
    intro hpieces hapart
    rw [List.forall_mem_cons] at hpieces
    cases hpieces.1 with
    | element htag hlower hdot hnames hnodup _ _ =>
      have helement : AddsNodes (fun _ => True) ('<' :: tag ++ attributesText ++ ['/', '>'])
          [.element ⟨String.ofList tag, dictionaryOf attributes⟩ []] := fun node outer after _ =>
        readForest_closed htag hlower hdot hnames hnodup hattributes (node :: outer) after
      simpa [nodesOf, nodes] using
        helement.append (ih hpieces.2 hapart.of_cons) fun _ _ => trivial
  | @element tag attributesText inner text attributes children rest hattributes _ _ ihChildren
      ihRest =>
    intro hpieces hapart
    rw [List.forall_mem_cons] at hpieces
    cases hpieces.1 with
    | element htag hlower hdot hnames hnodup hchildrenApart hchildren =>
      have hinner := ihChildren hchildren hchildrenApart
      have helement : AddsNodes (fun _ => True)
          ('<' :: tag ++ attributesText ++ '>' :: inner ++ '<' :: '/' :: tag ++ ['>'])
          [.element ⟨String.ofList tag, dictionaryOf attributes⟩ (nodesOf children)] :=
        fun node outer after _ =>
          readForest_element htag hlower hdot hnames hnodup hattributes hinner (node :: outer) after
      simpa [nodesOf, nodes] using
        helement.append (ihRest hpieces.2 hapart.of_cons) fun _ _ => trivial

end DesignCompiler.Markup
