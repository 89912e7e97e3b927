import DesignCompiler.Proofs.Markup.RoundTrip

/-!
# Markup after script

Markup is found behind any script that ends where an expression can begin. What stands in the
strings and comments of the script does not matter, as long as no comment comes last.
-/

namespace DesignCompiler.Markup

open Text Source

/-! ## Script -/

/-- Code that begins no string, comment or markup. -/
def isPlainCode (c : Char) : Bool := !isStringQuote c && c != '/' && c != '<'

/-- What may stand between the quotes of a string. -/
inductive StringBody (quote : Char) : List Char → Prop where
  | nil : StringBody quote []
  | plain {c : Char} {body : List Char} :
      c ≠ quote → c ≠ '\\' → StringBody quote body → StringBody quote (c :: body)
  | escape {c : Char} {body : List Char} :
      StringBody quote body → StringBody quote ('\\' :: c :: body)

/-- Script made of plain code, strings and comments, and what is left of it when a blank stands for
    each comment. -/
inductive Script : List Char → List Char → Prop where
  | nil : Script [] []
  | code {c : Char} {rest left : List Char} :
      isPlainCode c = true → Script rest left → Script (c :: rest) (c :: left)
  | string {quote : Char} {body rest left : List Char} :
      isStringQuote quote = true → StringBody quote body → Script rest left →
      Script (quote :: body ++ quote :: rest) (quote :: body ++ quote :: left)
  | blockComment {body rest left : List Char} :
      ¬ ['*', '/'] <:+: body → Script rest left →
      Script ('/' :: '*' :: body ++ '*' :: '/' :: rest) (' ' :: left)
  | lineComment {body rest left : List Char} :
      '\n' ∉ body → Script rest left →
      Script ('/' :: '/' :: body ++ '\n' :: rest) (' ' :: left)

/-- Code before other script. -/
theorem Script.code_append (text : List Char) {rest left : List Char}
    (htext : text.all isPlainCode = true) (hrest : Script rest left) :
    Script (text ++ rest) (text ++ left) := by
  induction text with
  | nil => exact hrest
  | cons c text ih =>
    rw [List.all_cons, Bool.and_eq_true] at htext
    exact .code htext.1 (ih htext.2)

/-- Text that ends in an opening parenthesis or the word `return`, but for blanks. -/
inductive OpensExpression : List Char → Prop where
  | parenthesis {front gap : List Char} :
      allBlank gap = true → OpensExpression (front ++ '(' :: gap)
  | returned {front gap : List Char} :
      (front.getLast?.any fun c => isAlphanumeric c || c == '_' || c == '$') = false →
      allBlank gap = true → OpensExpression (front ++ "return".toList ++ gap)

/-! ## Passing over script -/

/-- The text in which a walk comes from a string or a comment back to code, ahead of the rest. -/
inductive LeadsToCode (rest : List Char) : ScriptMode → List Char → Prop where
  | code : LeadsToCode rest .code []
  | step {mode : ScriptMode} {c : Char} {text : List Char} :
      mode ≠ .code → LeadsToCode rest (mode.after c (text ++ rest).head?) text →
      LeadsToCode rest mode (c :: text)

theorem StringBody.leadsToCode {quote : Char} (hquote : quote ≠ '\\') {body : List Char}
    (hbody : StringBody quote body) (rest : List Char) :
    LeadsToCode rest (.string quote) (body ++ [quote]) := by
  induction hbody with
  | nil => exact .step (by simp) (by simpa [ScriptMode.after, hquote] using .code)
  | plain hne hescape _ ih =>
    exact .step (by simp) (by simpa [ScriptMode.after, hne, hescape] using ih)
  | escape _ ih =>
    refine .step (by simp) (.step (by simp [ScriptMode.after]) ?_)
    simpa [ScriptMode.after] using ih

theorem leadsToCode_comment {body : List Char} (hbody : ¬ ['*', '/'] <:+: body)
    (rest : List Char) : LeadsToCode rest .comment (body ++ ['*', '/']) := by
  induction body with
  | nil =>
    refine .step (by simp) (.step (by simp [ScriptMode.after]) ?_)
    simpa [ScriptMode.after] using .code
  | cons c body ih =>
    have hmode : ScriptMode.after .comment c (body ++ ['*', '/'] ++ rest).head? = .comment := by
      rw [ScriptMode.after, if_neg]
      intro hclosing
      simp only [Bool.and_eq_true, beq_iff_eq] at hclosing
      obtain ⟨rfl, hhead⟩ := hclosing
      cases body with
      | nil => cases hhead
      | cons d body =>
        obtain rfl : d = '/' := by simpa using hhead
        exact hbody ⟨[], body, rfl⟩
    exact .step (by simp) (hmode.symm ▸ ih fun h => hbody (List.infix_cons h))

theorem leadsToCode_lineComment {body : List Char} (hbody : '\n' ∉ body) (rest : List Char) :
    LeadsToCode rest .lineComment (body ++ ['\n']) := by
  induction body with
  | nil => exact .step (by simp) (by simpa [ScriptMode.after] using .code)
  | cons c body ih =>
    rw [List.mem_cons, not_or] at hbody
    exact .step (by simp) (by simpa [ScriptMode.after, Ne.symm hbody.1] using ih hbody.2)

/-- A string ahead of the rest, behind its first quote. -/
theorem leadsToCode_after_quote {quote : Char} (hquote : isStringQuote quote = true)
    {body : List Char} (hbody : StringBody quote body) (rest : List Char) (next : Option Char) :
    LeadsToCode rest (ScriptMode.after .code quote next) (body ++ [quote]) := by
  have hescape : quote ≠ '\\' := by
    rintro rfl
    cases hquote
  rw [ScriptMode.after, if_pos hquote]
  exact hbody.leadsToCode hescape rest

/-- A comment ahead of the rest, behind its first slash. -/
theorem leadsToCode_after_slash_star {body : List Char} (hbody : ¬ ['*', '/'] <:+: body)
    (rest : List Char) :
    LeadsToCode rest (ScriptMode.after .code '/' (some '*')) ('*' :: (body ++ ['*', '/'])) :=
  .step (by simp [ScriptMode.after, isStringQuote]) (leadsToCode_comment hbody rest)

/-- A comment to the end of the line ahead of the rest, behind its first slash. -/
theorem leadsToCode_after_slash_slash {body : List Char} (hbody : '\n' ∉ body) (rest : List Char) :
    LeadsToCode rest (ScriptMode.after .code '/' (some '/')) ('/' :: (body ++ ['\n'])) :=
  .step (by simp [ScriptMode.after, isStringQuote]) (leadsToCode_lineComment hbody rest)

/-- A character at which no markup is opened is passed over. -/
theorem markupFrom?_cons {before rest : List Char} {mode : ScriptMode} {c : Char}
    (hc : ¬ (mode = .code ∧ c = '<')) :
    markupFrom? before mode (c :: rest) =
      markupFrom? (c :: before) (mode.after c rest.head?) rest := by
  rw [markupFrom?, if_neg]
  intro h
  simp only [Bool.and_eq_true, decide_eq_true_eq, beq_iff_eq] at h
  exact hc ⟨h.1.1.1, h.1.1.2⟩

/-- No markup is opened in strings and comments. -/
theorem LeadsToCode.markupFrom?_eq {rest text : List Char} {mode : ScriptMode}
    (hleads : LeadsToCode rest mode text) (before : List Char) :
    markupFrom? before mode (text ++ rest) = markupFrom? (text.reverse ++ before) .code rest := by
  induction hleads generalizing before with
  | code => rfl
  | step hmode _ ih =>
    rw [List.cons_append, markupFrom?_cons fun h => hmode h.1, ih]
    simp

/-- Script is passed over. -/
theorem Script.markupFrom?_eq {script code : List Char} (hscript : Script script code)
    (before rest : List Char) :
    markupFrom? before .code (script ++ rest) =
      markupFrom? (script.reverse ++ before) .code rest := by
  induction hscript generalizing before with
  | nil => rfl
  | @code c script _ hc _ ih =>
    simp only [isPlainCode, Bool.and_eq_true, Bool.not_eq_true', bne_iff_ne] at hc
    obtain ⟨⟨hquote, hslash⟩, hmarkup⟩ := hc
    have hmode : ScriptMode.after .code c (script ++ rest).head? = .code := by
      simp [ScriptMode.after, hquote, hslash]
    rw [List.cons_append, markupFrom?_cons (by simp [hmarkup]), hmode, ih]
    simp
  | @string quote body script _ hquote hbody _ ih =>
    have hmarkup : quote ≠ '<' := by
      rintro rfl
      cases hquote
    have htext : quote :: body ++ quote :: script ++ rest =
        quote :: (body ++ [quote] ++ (script ++ rest)) := by simp
    rw [htext, markupFrom?_cons (by simp [hmarkup]),
      (leadsToCode_after_quote hquote hbody _ _).markupFrom?_eq, ih]
    simp
  | @blockComment body script _ hbody _ ih =>
    have htext : '/' :: '*' :: body ++ '*' :: '/' :: script ++ rest =
        '/' :: ('*' :: (body ++ ['*', '/']) ++ (script ++ rest)) := by simp
    rw [htext, markupFrom?_cons (by simp), List.cons_append, List.head?_cons, ← List.cons_append,
      (leadsToCode_after_slash_star hbody _).markupFrom?_eq, ih]
    simp
  | @lineComment body script _ hbody _ ih =>
    have htext : '/' :: '/' :: body ++ '\n' :: script ++ rest =
        '/' :: ('/' :: (body ++ ['\n']) ++ (script ++ rest)) := by simp
    rw [htext, markupFrom?_cons (by simp), List.cons_append, List.head?_cons, ← List.cons_append,
      (leadsToCode_after_slash_slash hbody _).markupFrom?_eq, ih]
    simp

/-! ## Finding the markup -/

private theorem dropWhile_reverse {front gap : List Char} {c : Char} (hgap : allBlank gap = true)
    (hc : isBlank c = false) :
    (front ++ c :: gap).reverse.dropWhile isBlank = c :: front.reverse := by
  have hblank : ∀ d ∈ gap.reverse, isBlank d = true := by
    simpa [allBlank] using hgap
  rw [List.reverse_append, List.reverse_cons, List.append_assoc,
    List.dropWhile_append_of_pos hblank]
  simp [hc]

theorem OpensExpression.inExpressionPosition_reverse {text : List Char}
    (hopens : OpensExpression text) : inExpressionPosition text.reverse = true := by
  cases hopens with
  | parenthesis hgap =>
    rw [inExpressionPosition, dropWhile_reverse hgap (by decide)]
    simp
  | @returned front gap hfront hgap =>
    have htext : front ++ "return".toList ++ gap = front ++ "retur".toList ++ 'n' :: gap := by simp
    rw [htext, inExpressionPosition, dropWhile_reverse hgap (by decide), List.reverse_append,
      Bool.or_eq_true]
    right
    simpa [List.head?_reverse] using hfront

/-- The markup of a source is what follows its script. -/
theorem markupStart?_append {script code rest : List Char} {c : Char}
    (hscript : Script script code) (hopens : OpensExpression script)
    (hc : isAsciiLetter c = true) :
    markupStart? (script ++ '<' :: c :: rest) = some ('<' :: c :: rest) := by
  rw [markupStart?, hscript.markupFrom?_eq, List.append_nil, markupFrom?, if_pos]
  simp [opensMarkup, hc, hopens.inExpressionPosition_reverse]

/-- A printed element is read as its node. -/
theorem Prints.readForest_eq {tag text : List Char} {attributes : List (List Char × List Char)}
    {children : List Source} (hwellFormed : (Source.element tag attributes children).WellFormed)
    (hprints : Prints [.element tag attributes children] text) :
    readForest [] text =
      .ok [.element ⟨String.ofList tag, dictionaryOf attributes⟩ (nodesOf children)] := by
  cases hwellFormed with
  | element htag hlower hdot hnames hnodup hapart hchildren =>
    cases hprints with
    | closed hattributes hnone =>
      cases hnone
      have h := readForest_closed htag hlower hdot hnames hnodup hattributes [] []
      rwa [List.append_nil] at h
    | element hattributes hinner hnone =>
      cases hnone
      have h := readForest_element htag hlower hdot hnames hnodup hattributes
        (hinner.addsNodes hchildren hapart) [] []
      rwa [List.append_nil] at h

/-- The script before a printed element does not matter: with it and without it the element is the
    document, whatever the strings and comments of the script hold. -/
theorem parse_after_script {tag text script code : List Char}
    {attributes : List (List Char × List Char)} {children : List Source}
    (hwellFormed : (Source.element tag attributes children).WellFormed)
    (hletter : tag.head?.any isAsciiLetter = true)
    (hprints : Prints [.element tag attributes children] text)
    (hscript : Script script code) (hopens : OpensExpression script) :
    ∃ document,
      parse (String.ofList (script ++ text)) = .ok document ∧
      parse (String.ofList text) = .ok document := by
  obtain ⟨c, rest, rfl, hc⟩ : ∃ c rest, text = '<' :: c :: rest ∧ isAsciiLetter c = true := by
    obtain ⟨c, rest, rfl, hc⟩ : ∃ c rest, tag = c :: rest ∧ isAsciiLetter c = true := by
      cases tag with
      | nil => cases hletter
      | cons c rest => exact ⟨c, rest, rfl, hletter⟩
    cases hprints with
    | closed => exact ⟨c, _, rfl, hc⟩
    | element => exact ⟨c, _, rfl, hc⟩
  have hforest := hprints.readForest_eq hwellFormed
  exact ⟨_, parse_of_readForest (markupStart?_append hscript hopens hc) hforest,
    parse_of_readForest (markupStart?_of_letter hc) hforest⟩

/-- A line comment with a tag, a string with a tag and a comment with a quote. -/
theorem parse_after_script_quoted :
    ∃ document, parse "// <b>\nconst s = '<i>'; /* \"<p> */ return (\n  <br/>" = .ok document ∧
      parse "<br/>" = .ok document := by
  have hwellFormed : (Source.element "br".toList [] []).WellFormed :=
    .element (by decide) (by decide) (by decide) (by simp) (by simp) .nil (by simp)
  have hprints : Prints [.element "br".toList [] []] "<br/>".toList :=
    .closed (.nil isGap_nil) .nil
  have hstring : StringBody '\'' "<i>".toList :=
    .plain (by decide) (by decide) (.plain (by decide) (by decide)
      (.plain (by decide) (by decide) .nil))
  have hreturn := Script.code_append " return (\n  ".toList (by decide) .nil
  have hcomment := @Script.blockComment " \"<p> ".toList _ _ (by decide) hreturn
  have hcode := Script.code_append "; ".toList (by decide) hcomment
  have hcode := Script.code_append "const s = ".toList (by decide)
    (.string (by decide) hstring hcode)
  have hscript := @Script.lineComment " <b>".toList _ _ (by decide) hcode
  have hopens := @OpensExpression.parenthesis
    "// <b>\nconst s = '<i>'; /* \"<p> */ return ".toList "\n  ".toList (by decide)
  obtain ⟨document, hparse, hsame⟩ := parse_after_script hwellFormed (by decide) hprints hscript
    (by simpa using hopens)
  exact ⟨document, by simpa using hparse, by simpa using hsame⟩

/-- A comment between the parenthesis and the element hides the element. -/
theorem parse_comment_before_markup :
    (Source.element "div".toList [] []).WellFormed ∧
      Prints [.element "div".toList [] []] "<div></div>".toList ∧
      Script "return ( /* note */ ".toList "return (   ".toList ∧
      OpensExpression "return (   ".toList ∧
      parse "return ( /* note */ <div></div>" = .error .noElement := by
  have hcomment :=
    @Script.blockComment " note ".toList _ _ (by decide) (.code (c := ' ') (by decide) .nil)
  have hscript := Script.code_append "return ( ".toList (by decide) hcomment
  have hopens := @OpensExpression.parenthesis "return ".toList "   ".toList (by decide)
  refine ⟨?_, .element (.nil isGap_nil) .nil .nil, by simpa using hscript, by simpa using hopens,
    rfl⟩
  exact .element (by decide) (by decide) (by decide) (by simp) (by simp) .nil (by simp)

end DesignCompiler.Markup
