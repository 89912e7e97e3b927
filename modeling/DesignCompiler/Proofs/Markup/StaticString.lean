import DesignCompiler.Proofs.Markup.Script

/-!
# Static strings

An expression has a static string if it is one string literal. The string is found from the two ends
of the expression, so an expression that merely begins and ends with the same quote has one as well.
-/

namespace DesignCompiler.Markup

open Text

/-! ## Literals -/

/-- What stands between the quotes of a literal, and the string that it denotes. -/
inductive BodyDenotes (quote : Char) : List Char → List Char → Prop where
  | nil : BodyDenotes quote [] []
  | plain {c : Char} {body value : List Char} :
      c ≠ quote → c ≠ '\\' → BodyDenotes quote body value →
      BodyDenotes quote (c :: body) (c :: value)
  | lineFeed {body value : List Char} :
      BodyDenotes quote body value → BodyDenotes quote ('\\' :: 'n' :: body) ('\n' :: value)
  | tab {body value : List Char} :
      BodyDenotes quote body value → BodyDenotes quote ('\\' :: 't' :: body) ('\t' :: value)
  | escaped {c : Char} {body value : List Char} :
      c ≠ 'n' → c ≠ 't' → BodyDenotes quote body value →
      BodyDenotes quote ('\\' :: c :: body) (c :: value)

/-- What opens a substitution in a template literal. -/
def substitutionStart : List Char := ['$', '\x7b']

/-- A text begins and ends with the same quote, with the body between. Between backquotes there is
    no substitution. -/
structure Quotes (text : List Char) (quote : Char) (body : List Char) : Prop where
  isQuote : isStringQuote quote = true
  eq : text = quote :: body ++ [quote]
  static : quote = '\x60' → ¬ substitutionStart <:+: body

/-- The text is one string literal, which denotes a string. -/
def IsLiteral (text value : List Char) : Prop :=
  ∃ quote body, Quotes text quote body ∧ BodyDenotes quote body value

/-- After `front` a body has its quote, or a backslash that escapes the quote behind the body. -/
def CutAfter (quote : Char) (front body : List Char) : Prop :=
  (∃ back, body = front ++ quote :: back) ∨ body = front ++ ['\\']

/-- The text begins and ends with the same quote and is not one literal: the literal that it begins
    with ends earlier, or the last quote is escaped. -/
def SpansLiterals (text : List Char) : Prop :=
  ∃ quote body front, Quotes text quote body ∧ StringBody quote front ∧ CutAfter quote front body

theorem ne_of_isStringQuote {quote : Char} (hquote : isStringQuote quote = true) :
    quote ≠ '\\' := by
  rintro rfl
  cases hquote

/-- The quote and the body are determined by the text. -/
theorem Quotes.unique {text body body' : List Char} {quote quote' : Char}
    (hquotes : Quotes text quote body) (hquotes' : Quotes text quote' body') :
    quote = quote' ∧ body = body' := by
  have htext := hquotes.eq.symm.trans hquotes'.eq
  simp only [List.cons_append, List.cons.injEq] at htext
  obtain ⟨rfl, hbody⟩ := htext
  exact ⟨rfl, List.append_cancel_right hbody⟩

/-! ## Bodies -/

theorem cutAfter_cons_iff {quote c d : Char} {front body : List Char} :
    CutAfter quote (c :: front) (d :: body) ↔ d = c ∧ CutAfter quote front body := by
  simp [CutAfter, ← exists_and_left, and_or_left]

theorem not_cutAfter_nil {quote c : Char} {front : List Char} :
    ¬ CutAfter quote (c :: front) [] := by
  simp [CutAfter]

/-- Resolving the escapes of a body gives the string that it denotes. -/
theorem BodyDenotes.unescape_eq {quote : Char} {body value : List Char}
    (hdenotes : BodyDenotes quote body value) : unescape body = value := by
  induction hdenotes with
  | nil => rfl
  | @plain c body _ _ hescape _ ih =>
    rw [unescape.eq_4 _ _ (fun h _ => hescape h) (fun _ _ h _ => hescape h), ih]
  | lineFeed _ ih => simp [unescape, ih]
  | tab _ ih => simp [unescape, ih]
  | escaped hn ht _ ih => simp [unescape, hn, ht, ih]

/-- A body denotes a string, or its literal ends within it, or its last character escapes the quote
    after it. -/
theorem bodyDenotes_or (quote : Char) (body : List Char) :
    (∃ value, BodyDenotes quote body value) ∨
      ∃ front, StringBody quote front ∧ CutAfter quote front body := by
  fun_induction unescape body with
  | case1 => exact .inl ⟨[], .nil⟩
  | case2 => exact .inr ⟨[], .nil, .inr rfl⟩
  | case3 c rest ih =>
    obtain ⟨value, hdenotes⟩ | ⟨front, hfront, hcut⟩ := ih
    · left
      by_cases hn : c = 'n'
      · subst hn
        exact ⟨_, .lineFeed hdenotes⟩
      by_cases ht : c = 't'
      · subst ht
        exact ⟨_, .tab hdenotes⟩
      · exact ⟨_, .escaped hn ht hdenotes⟩
    · refine .inr ⟨'\\' :: c :: front, .escape hfront, ?_⟩
      rw [cutAfter_cons_iff, cutAfter_cons_iff]
      exact ⟨rfl, rfl, hcut⟩
  | case4 c rest hlone hpair ih =>
    have hescape : c ≠ '\\' := by
      rintro rfl
      cases rest with
      | nil => exact hlone rfl rfl
      | cons d others => exact hpair d others rfl rfl
    by_cases hc : c = quote
    · exact .inr ⟨[], .nil, .inl ⟨rest, by rw [hc]; rfl⟩⟩
    obtain ⟨value, hdenotes⟩ | ⟨front, hfront, hcut⟩ := ih
    · exact .inl ⟨_, .plain hc hescape hdenotes⟩
    · exact .inr ⟨c :: front, .plain hc hescape hfront, cutAfter_cons_iff.mpr ⟨rfl, hcut⟩⟩

/-- No body that denotes a string is cut short by its quote or a backslash at its end. -/
theorem BodyDenotes.not_cut {quote : Char} (hquote : quote ≠ '\\') {body value front : List Char}
    (hdenotes : BodyDenotes quote body value) (hfront : StringBody quote front) :
    ¬ CutAfter quote front body := by
  induction hfront generalizing body value with
  | nil =>
    rintro (⟨back, rfl⟩ | rfl)
    · cases hdenotes with
      | plain hc => exact hc rfl
      | _ => exact hquote rfl
    · cases hdenotes with
      | plain _ hescape => exact hescape rfl
  | plain _ hescape _ ih =>
    intro hcut
    cases hdenotes with
    | nil => exact not_cutAfter_nil hcut
    | plain _ _ hrest => exact ih hrest (cutAfter_cons_iff.mp hcut).2
    | _ => exact hescape (cutAfter_cons_iff.mp hcut).1.symm
  | escape _ ih =>
    intro hcut
    cases hdenotes with
    | nil => exact not_cutAfter_nil hcut
    | plain _ hescape => exact hescape (cutAfter_cons_iff.mp hcut).1
    | lineFeed hrest | tab hrest | escaped _ _ hrest =>
      exact ih hrest (cutAfter_cons_iff.mp (cutAfter_cons_iff.mp hcut).2).2

/-! ## Expressions -/

theorem occursIn_eq_true_iff {needle text : List Char} :
    occursIn needle text = true ↔ needle <:+: text := by
  rw [occursIn, Option.isSome_iff_ne_none, ne_eq, cut?_eq_none_iff, not_not]

/-- The string of an expression is read from its two ends. -/
theorem staticString?_eq_some_iff {expression value : List Char} :
    staticString? expression = some value ↔
      ∃ quote body, Quotes (trim expression) quote body ∧ unescape body = value := by
  constructor
  · intro hstring
    unfold staticString? at hstring
    split at hstring
    case h_1 => cases hstring
    case h_2 quote rest htext =>
      split at hstring
      case isFalse => cases hstring
      case isTrue hends =>
        rw [Bool.and_eq_true, beq_iff_eq, List.getLast?_eq_some_iff] at hends
        obtain ⟨hquote, body, rfl⟩ := hends
        simp only [List.dropLast_concat] at hstring
        split at hstring
        case isTrue => cases hstring
        case isFalse hstatic =>
          refine ⟨quote, body, ⟨hquote, htext, fun htemplate hopens => hstatic ?_⟩,
            Option.some.inj hstring⟩
          rw [Bool.and_eq_true, beq_iff_eq, occursIn_eq_true_iff]
          exact ⟨htemplate, hopens⟩
  · rintro ⟨quote, body, ⟨hquote, htext, hstatic⟩, rfl⟩
    have hends : (isStringQuote quote && (body ++ [quote]).getLast? == some quote) = true := by
      simp [hquote]
    have hplain : ¬ (quote == '\x60' && occursIn substitutionStart body) = true := by
      rw [Bool.and_eq_true, beq_iff_eq, occursIn_eq_true_iff]
      exact fun h => hstatic h.1 h.2
    rw [staticString?, htext, List.cons_append]
    simp only [if_pos hends, List.dropLast_concat]
    exact if_neg hplain

/-- A text between two equal quotes is one literal or spans several. -/
theorem Quotes.not_spansLiterals_iff {text body : List Char} {quote : Char}
    (hquotes : Quotes text quote body) :
    ¬ SpansLiterals text ↔ BodyDenotes quote body (unescape body) := by
  constructor
  · intro hspans
    obtain ⟨value, hdenotes⟩ | ⟨front, hfront, hcut⟩ := bodyDenotes_or quote body
    · rwa [hdenotes.unescape_eq]
    · exact absurd ⟨quote, body, front, hquotes, hfront, hcut⟩ hspans
  · rintro hdenotes ⟨quote', body', front, hquotes', hfront, hcut⟩
    obtain ⟨rfl, rfl⟩ := hquotes.unique hquotes'
    exact hdenotes.not_cut (ne_of_isStringQuote hquotes.isQuote) hfront hcut

/-- The static string of an expression is that of the literal that the expression is, unless the
    expression goes from one literal to another: those have a string as well, but are no literal. -/
theorem staticString?_iff (expression : List Char) :
    (∀ value, staticString? expression = some value ↔ IsLiteral (trim expression) value) ↔
      ¬ SpansLiterals (trim expression) := by
  constructor
  · intro hliteral hspans
    obtain ⟨quote, body, front, hquotes, hfront, hcut⟩ := hspans
    have hstring := staticString?_eq_some_iff.mpr ⟨quote, body, hquotes, rfl⟩
    obtain ⟨quote', body', hquotes', hdenotes⟩ := (hliteral _).mp hstring
    obtain ⟨rfl, rfl⟩ := hquotes.unique hquotes'
    exact hdenotes.not_cut (ne_of_isStringQuote hquotes.isQuote) hfront hcut
  · intro hspans value
    rw [staticString?_eq_some_iff]
    constructor
    · rintro ⟨quote, body, hquotes, rfl⟩
      exact ⟨quote, body, hquotes, hquotes.not_spansLiterals_iff.mp hspans⟩
    · rintro ⟨quote, body, hquotes, hdenotes⟩
      exact ⟨quote, body, hquotes, hdenotes.unescape_eq⟩

/-- A sum of two literals has a static string. -/
theorem staticString?_sum :
    staticString? "'a' + 'b'".toList = some "a' + 'b".toList ∧
      ¬ ∃ value, IsLiteral (trim "'a' + 'b'".toList) value := by
  refine ⟨by decide, ?_⟩
  rintro ⟨value, quote, body, hquotes, hdenotes⟩
  have hsum : Quotes (trim "'a' + 'b'".toList) '\'' "a' + 'b".toList :=
    ⟨by decide, by decide, by decide⟩
  obtain ⟨rfl, rfl⟩ := hquotes.unique hsum
  have hfirst : StringBody '\'' ['a'] := .plain (by decide) (by decide) .nil
  exact hdenotes.not_cut (by decide) hfirst (.inl ⟨" + 'b".toList, by decide⟩)

end DesignCompiler.Markup
