import DesignCompiler.Proofs.Stylesheet.Nesting
import DesignCompiler.Proofs.Text.Splitting

/-!
# Segmentation

A text laid out as segments with blanks between them is cut into exactly these segments: its line
breaks all fall between segments, no line holds a comment, and quotes and parentheses are closed
wherever a segment ends.
-/

namespace DesignCompiler.Stylesheet

open Text

/-! ## What scanners do with a single segment -/

/-- The way of a scanner over a text in which no segment ends: the quote it stands in and the number
    of open parentheses, before and after. -/
inductive Passes : Quote → Nat → List Char → Quote → Nat → Prop where
  | nil {quote : Quote} {depth : Nat} : Passes quote depth [] quote depth
  | cons {quote quote' : Quote} {depth depth' : Nat} {c : Char} {rest : List Char} :
      (quote = .outside → depth = 0 → c ∉ segmentMarks) →
      Passes (quote.after c) (if quote = .outside then parenthesesAfter depth c else depth) rest
        quote' depth' →
      Passes quote depth (c :: rest) quote' depth'

theorem Passes.append {quote middle quote' : Quote} {depth inner depth' : Nat}
    {front back : List Char} (hfront : Passes quote depth front middle inner)
    (hback : Passes middle inner back quote' depth') :
    Passes quote depth (front ++ back) quote' depth' := by
  induction hfront with
  | nil => exact hback
  | cons hmark _ ih => exact .cons hmark (ih hback)

theorem Passes.foldl_after {quote quote' : Quote} {depth depth' : Nat} {text : List Char}
    (h : Passes quote depth text quote' depth') : text.foldl Quote.after quote = quote' := by
  induction h with
  | nil => rfl
  | cons _ _ ih => exact ih

/-- A scanner that passes over a text passes over each part of it. -/
theorem Passes.of_append {quote quote' : Quote} {depth depth' : Nat} {front back : List Char}
    (h : Passes quote depth (front ++ back) quote' depth') :
    ∃ middle inner, Passes quote depth front middle inner ∧
      Passes middle inner back quote' depth' := by
  induction front generalizing quote depth with
  | nil => exact ⟨quote, depth, .nil, h⟩
  | cons c front ih =>
    cases h with
    | cons hmark hrest =>
      obtain ⟨middle, inner, hfront, hback⟩ := ih hrest
      exact ⟨middle, inner, .cons hmark hfront, hback⟩

/-- The text alone decides where a scanner comes out. -/
theorem Passes.unique {quote quote₁ quote₂ : Quote} {depth depth₁ depth₂ : Nat}
    {text : List Char} (h₁ : Passes quote depth text quote₁ depth₁)
    (h₂ : Passes quote depth text quote₂ depth₂) : quote₁ = quote₂ ∧ depth₁ = depth₂ := by
  induction h₁ with
  | nil => cases h₂; exact ⟨rfl, rfl⟩
  | cons _ _ ih =>
    cases h₂ with
    | cons _ hrest => exact ih hrest

/-- The rest of a text is passed over from where its front leads to. -/
theorem Passes.drop {quote middle quote' : Quote} {depth inner depth' : Nat}
    {front back : List Char} (hfront : Passes quote depth front middle inner)
    (h : Passes quote depth (front ++ back) quote' depth') :
    Passes middle inner back quote' depth' := by
  obtain ⟨_, _, hfront', hback⟩ := h.of_append
  obtain ⟨rfl, rfl⟩ := hfront.unique hfront'
  exact hback

private theorem quote_after_of_plain {c : Char} (hplain : c ∉ ['\'', '"']) :
    Quote.after .outside c = .outside := by
  simp only [List.mem_cons, List.not_mem_nil, or_false, not_or] at hplain
  simp [Quote.after, hplain.1, hplain.2]

/-- A quote changes nowhere but at a quotation mark. -/
theorem mem_of_after_ne {quote : Quote} {c : Char} (hchange : quote.after c ≠ quote) :
    c ∈ ['\'', '"'] := by
  by_contra hplain
  simp only [List.mem_cons, List.not_mem_nil, or_false, not_or] at hplain
  apply hchange
  cases quote <;> simp [Quote.after, hplain.1, hplain.2]

private theorem parenthesesAfter_of_quote {depth : Nat} {c : Char} (hquote : c ∈ ['\'', '"']) :
    parenthesesAfter depth c = depth := by
  simp only [List.mem_cons, List.not_mem_nil, or_false] at hquote
  obtain rfl | rfl := hquote <;> rfl

private theorem Passes.quotedInside (mark : Char) {quote : Quote} {depth : Nat}
    {inside : List Char} (hsame : ∀ c ≠ mark, quote.after c = quote) (hin : quote ≠ .outside)
    (hinside : mark ∉ inside) : Passes quote depth inside quote depth := by
  induction inside with
  | nil => exact .nil
  | cons c inside ih =>
    rw [List.mem_cons, not_or] at hinside
    refine .cons (fun hout => absurd hout hin) ?_
    rw [hsame c (Ne.symm hinside.1), if_neg hin]
    exact ih hinside.2

/-- Between quotation marks a scanner passes over everything. -/
private theorem Passes.quoted {mark : Char} {depth : Nat} {inside : List Char}
    (hmark : mark ∈ ['\'', '"']) (hinside : mark ∉ inside) :
    Passes .outside depth (mark :: inside ++ [mark]) .outside depth := by
  simp only [List.mem_cons, List.not_mem_nil, or_false] at hmark
  obtain rfl | rfl := hmark
  · have hbody : Passes .single depth inside .single depth :=
      Passes.quotedInside '\'' (by intro c hc; simp [Quote.after, hc]) (by decide) hinside
    exact .cons (fun _ _ => by decide) (hbody.append (.cons (fun h => by cases h) .nil))
  · have hbody : Passes .double depth inside .double depth :=
      Passes.quotedInside '"' (by intro c hc; simp [Quote.after, hc]) (by decide) hinside
    exact .cons (fun _ _ => by decide) (hbody.append (.cons (fun h => by cases h) .nil))

/-- A scanner passes over balanced text and is afterwards where it was. Inside parentheses the marks
    of a segment are allowed. -/
theorem Balanced.passes {forbidden text : List Char} (htext : Balanced forbidden text) :
    ∀ depth, (depth = 0 → forbidden = segmentMarks) →
      Passes .outside depth text .outside depth := by
  induction htext with
  | nil => exact fun _ _ => .nil
  | @plain forbidden c rest hplain hfree _ ih =>
    intro depth hdepth
    simp only [List.mem_cons, List.not_mem_nil, or_false, not_or] at hplain
    refine .cons (fun _ hzero => hdepth hzero ▸ hfree) ?_
    rw [quote_after_of_plain (by simp [hplain.1, hplain.2.1]), if_pos rfl, parenthesesAfter]
    simpa [hplain.2.2.1, hplain.2.2.2] using ih depth hdepth
  | @quoted forbidden mark inside rest hmark hinside _ ih =>
    intro depth hdepth
    have h := (Passes.quoted hmark hinside).append (ih depth hdepth)
    simpa using h
  | @parentheses forbidden inside rest _ _ ihInside ihRest =>
    intro depth hdepth
    have hopen : Passes .outside depth ['('] .outside (depth + 1) :=
      .cons (fun _ _ => by decide) .nil
    have hclose : Passes .outside (depth + 1) [')'] .outside depth :=
      .cons (fun _ h => by omega) .nil
    have h := hopen.append ((ihInside (depth + 1) (by omega)).append
      (hclose.append (ihRest depth hdepth)))
    simpa using h

theorem SingleSegment.passes {text : List Char} (htext : SingleSegment text) :
    Passes .outside 0 text .outside 0 := htext.balanced.passes 0 fun _ => rfl

/-- A text after which no quote and no parenthesis is open does not end in the mark of a segment. -/
theorem Passes.last_not_mem {quote : Quote} {depth : Nat} {text : List Char} {c : Char}
    (h : Passes quote depth (text ++ [c]) .outside 0) : c ∉ segmentMarks := by
  intro hc
  obtain ⟨middle, inner, -, hlast⟩ := h.of_append
  have hplain : c ∉ ['\'', '"'] := by
    intro hquote
    simp only [segmentMarks, List.mem_cons, List.not_mem_nil, or_false] at hc hquote
    obtain rfl | rfl | rfl := hc <;> simp at hquote
  have hquote : middle.after c = middle := by
    by_contra hchange
    exact hplain (mem_of_after_ne hchange)
  have hdepth : parenthesesAfter inner c = inner := by
    simp only [segmentMarks, List.mem_cons, List.not_mem_nil, or_false] at hc
    obtain rfl | rfl | rfl := hc <;> rfl
  cases hlast with
  | cons hmark hrest =>
    rw [hquote, hdepth, ite_self] at hrest
    obtain ⟨hout, hzero⟩ := hrest.unique .nil
    exact hmark hout.symm hzero.symm hc

/-- Where no segment ends, characters are added to the segment begun. -/
theorem segmentsFrom_of_passes {quote quote' : Quote} {depth depth' : Nat} {text : List Char}
    (htext : Passes quote depth text quote' depth') (current rest : List Char) :
    segmentsFrom quote depth current (text ++ rest) =
      segmentsFrom quote' depth' (text.reverse ++ current) rest := by
  induction htext generalizing current with
  | nil => rfl
  | @cons quote quote' depth depth' c text hmark _ ih =>
    have hstep : segmentsFrom quote depth current (c :: (text ++ rest)) =
        segmentsFrom (quote.after c)
          (if quote = .outside then parenthesesAfter depth c else depth) (c :: current)
          (text ++ rest) := by
      rw [segmentsFrom]
      by_cases hafter : quote.after c = .outside
      · by_cases hout : quote = .outside
        · subst hout
          have hc : depth = 0 → c ≠ '{' ∧ c ≠ '}' ∧ c ≠ ';' := by
            intro hzero
            simpa [segmentMarks] using hmark rfl hzero
          by_cases hzero : depth = 0
          · obtain ⟨hopen, hclose, hend⟩ := hc hzero
            simp [hafter, hopen, hclose, hend]
          · simp [hafter, hzero]
        · have hchange : quote.after c ≠ quote := by
            rw [hafter]
            exact Ne.symm hout
          have hquote := mem_of_after_ne hchange
          have hdepth := @parenthesesAfter_of_quote depth c hquote
          simp only [List.mem_cons, List.not_mem_nil, or_false] at hquote
          obtain rfl | rfl := hquote <;> simp [hafter, hout, hdepth]
      · rw [if_pos hafter]
        by_cases hout : quote = .outside
        · subst hout
          rw [if_pos rfl, parenthesesAfter_of_quote (mem_of_after_ne hafter)]
        · rw [if_neg hout]
    rw [List.cons_append, hstep, ih, List.reverse_cons, List.append_assoc]
    rfl

/-- Where no segment ends, a value goes on. -/
theorem terminatedFrom_of_passes {quote quote' : Quote} {depth depth' : Nat} {text : List Char}
    (htext : Passes quote depth text quote' depth') (rest : List Char) :
    terminatedFrom quote depth (text ++ rest) =
      (terminatedFrom quote' depth' rest).map (text ++ ·) := by
  induction htext with
  | nil => simp
  | @cons quote quote' depth depth' c text hmark _ ih =>
    rw [List.cons_append, terminatedFrom]
    by_cases hout : quote = .outside
    · subst hout
      have hend : ¬ (c == ';' && depth == 0) = true := by
        simp only [Bool.and_eq_true, beq_iff_eq, not_and]
        rintro rfl hzero
        exact hmark rfl hzero (by decide)
      rw [if_pos rfl] at ih
      rw [if_pos rfl, if_neg hend, ih, Option.map_map]
      rfl
    · rw [if_neg hout] at ih
      rw [if_neg hout, ih, Option.map_map]
      rfl

/-! ## Blank ends of lines -/

/-- The segments that a line of code gives the machine: trimmed, without blank ones. -/
def cleanSegments (segments : List (List Char)) : List (List Char) :=
  (segments.map trim).filter (!·.isEmpty)

theorem cleanSegments_cons (segment : List Char) (segments : List (List Char)) :
    cleanSegments (segment :: segments) =
      (if allBlank segment then [] else [trim segment]) ++ cleanSegments segments := by
  by_cases hblank : allBlank segment = true
  · simp [cleanSegments, trim_eq_nil_iff.mpr hblank, hblank]
  · have hne : trim segment ≠ [] := mt trim_eq_nil_iff.mp hblank
    simp [cleanSegments, hne, hblank]

private theorem passes_of_isBlank {quote : Quote} {depth : Nat} {c : Char}
    (hblank : isBlank c = true) : Passes quote depth [c] quote depth := by
  have hsame : quote.after c = quote := by
    cases quote <;> simp [Quote.after, ne_of_isBlank hblank '\'', ne_of_isBlank hblank '"']
  have hdepth : parenthesesAfter depth c = depth := by
    simp [parenthesesAfter, ne_of_isBlank hblank '(', ne_of_isBlank hblank ')']
  refine .cons (fun _ _ => ?_) ?_
  · simp [segmentMarks, ne_of_isBlank hblank '{', ne_of_isBlank hblank '}',
      ne_of_isBlank hblank ';']
  · rw [hsame, hdepth, ite_self]
    exact .nil

theorem passes_of_allBlank {quote : Quote} {depth : Nat} {blanks : List Char}
    (hblanks : allBlank blanks = true) : Passes quote depth blanks quote depth := by
  induction blanks with
  | nil => exact .nil
  | cons c blanks ih =>
    simp only [allBlank, List.all_cons, Bool.and_eq_true] at hblanks
    exact (passes_of_isBlank hblanks.1).append (ih hblanks.2)

/-- Blanks in front of a line do not reach its segments. -/
private theorem cleanSegments_segmentsFrom_append {blanks : List Char}
    (hblanks : allBlank blanks = true) (quote : Quote) (depth : Nat) (current text : List Char) :
    cleanSegments (segmentsFrom quote depth (current ++ blanks) text) =
      cleanSegments (segmentsFrom quote depth current text) := by
  have hall : ∀ front : List Char, allBlank (front ++ blanks) = allBlank front := by
    intro front
    rw [allBlank_append, hblanks, Bool.and_true]
  have hsegment : ∀ front segments,
      cleanSegments ((front ++ blanks).reverse :: segments) =
        cleanSegments (front.reverse :: segments) := by
    intro front segments
    rw [cleanSegments_cons, cleanSegments_cons, allBlank_reverse, allBlank_reverse, hall,
      List.reverse_append, trim_append_of_allBlank_left (by simpa using hblanks)]
  induction text generalizing quote depth current with
  | nil =>
    rw [segmentsFrom, segmentsFrom, hall]
    split
    · rfl
    · exact hsegment current []
  | cons c text ih =>
    rw [segmentsFrom, segmentsFrom, head?_trimStart_append_of_allBlank hblanks, hall]
    simp only [← List.cons_append]
    split
    · exact ih _ _ (c :: current)
    · split
      · exact hsegment (c :: current) _
      · split
        · split
          · rfl
          · exact hsegment current _
        · split
          · exact hsegment (c :: current) _
          · exact ih _ _ (c :: current)

/-- Blanks at the end of a line do not reach its segments. -/
private theorem cleanSegments_segmentsFrom_concat {blanks : List Char}
    (hblanks : allBlank blanks = true) (quote : Quote) (depth : Nat) (current text : List Char) :
    cleanSegments (segmentsFrom quote depth current (text ++ blanks)) =
      cleanSegments (segmentsFrom quote depth current text) := by
  induction text generalizing quote depth current with
  | nil =>
    have hpass := segmentsFrom_of_passes (@passes_of_allBlank quote depth _ hblanks)
      current []
    rw [List.append_nil] at hpass
    rw [List.nil_append, hpass, segmentsFrom, segmentsFrom, allBlank_append, allBlank_reverse,
      hblanks, Bool.true_and]
    split
    · rfl
    · rw [cleanSegments_cons, cleanSegments_cons, List.reverse_append, List.reverse_reverse,
        trim_append_of_allBlank_right hblanks, allBlank_append, hblanks, Bool.and_true]
  | cons c text ih =>
    rw [List.cons_append, segmentsFrom, segmentsFrom]
    split
    · exact ih _ _ _
    · split
      · rw [cleanSegments_cons, cleanSegments_cons, ih]
      · split
        · split
          · rw [cleanSegments_cons, cleanSegments_cons, ih]
          · rw [cleanSegments_cons, cleanSegments_cons, cleanSegments_cons, cleanSegments_cons, ih]
        · split
          · rw [cleanSegments_cons, cleanSegments_cons, ih]
          · exact ih _ _ _

/-- Trimming a line changes none of its segments. -/
theorem cleanSegments_segments_trim (line : List Char) :
    cleanSegments (segments (trim line)) = cleanSegments (segments line) := by
  obtain ⟨front, back, hline, hfront, hback⟩ := exists_eq_append_trim line
  have hpass := segmentsFrom_of_passes (@passes_of_allBlank .outside 0 _ hfront)
    [] (trim line ++ back)
  conv_rhs => rw [hline, segments, List.append_assoc, hpass, List.append_nil]
  rw [cleanSegments_segmentsFrom_concat hback, ← List.nil_append front.reverse,
    cleanSegments_segmentsFrom_append (by simpa using hfront)]
  rfl

end DesignCompiler.Stylesheet
