import DesignCompiler.Proofs.Dictionary
import DesignCompiler.Proofs.Style.EmbeddedColor

/-!
# Color tokens

A token that is registered under a name without hyphens is found by every `var()` whose name is the
same up to letter case and hyphens. A token whose name has a hyphen is never found, because the name
that is looked up has none. Either way a value that refers to other names only keeps its color.
-/

namespace DesignCompiler.Style

open Text

/-! ## Names -/

/-- The name of a custom property without its leading hyphens: ASCII letters, digits, underscores
    and hyphens, of which none comes first. -/
structure IsPropertyName (name : List Char) : Prop where
  ne_nil : name ≠ []
  head_ne : name.head? ≠ some '-'
  forall_mem : ∀ c ∈ name, (isAsciiAlphanumeric c || c == '_' || c == '-') = true

/-- A name in lower case and without hyphens, and without all else that no property name holds. -/
def bareName (name : List Char) : List Char :=
  (lowerAscii name).filter fun c => isAsciiAlphanumeric c || c == '_'

/-- The names that a value refers to: that of a `var()`, and those that its fallback refers to. They
    are in lower case. -/
inductive RefersTo : List Char → List Char → Prop where
  | alone {raw inside : List Char} :
      variableArguments? (lowerAscii (trim raw)) = some inside →
      cutAt? (· == ',') inside = none → RefersTo raw inside
  | token {raw inside name fallback : List Char} :
      variableArguments? (lowerAscii (trim raw)) = some inside →
      cutAt? (· == ',') inside = some (name, fallback) → RefersTo raw name
  | fallback {raw inside name fallback other : List Char} :
      variableArguments? (lowerAscii (trim raw)) = some inside →
      cutAt? (· == ',') inside = some (name, fallback) → RefersTo fallback other →
      RefersTo raw other

theorem IsPropertyName.comma_not_mem {name : List Char} (hname : IsPropertyName name) :
    ',' ∉ name :=
  fun hmem => absurd (hname.forall_mem ',' hmem) (by decide)

/-! ## What is looked up -/

/-- The blanks around a name and the hyphens in front of it would be left out anyway. -/
theorem tokenName_eq_filter (name : List Char) :
    tokenName name = name.filter fun c => isAsciiAlphanumeric c || c == '_' := by
  have hblanks : ∀ blanks, allBlank blanks = true →
      blanks.filter (fun c => isAsciiAlphanumeric c || c == '_') = [] := by
    intro blanks hblank
    rw [List.filter_eq_nil_iff]
    intro c hc hword
    have hnone := not_isBlank_of_isWord (isWord_of_asciiWord hword)
    rw [allBlank_iff.mp hblank c hc] at hnone
    cases hnone
  have hhyphens : (trim name).filter (fun c => isAsciiAlphanumeric c || c == '_') =
      ((trim name).dropWhile (· == '-')).filter fun c => isAsciiAlphanumeric c || c == '_' := by
    conv_lhs => rw [← List.takeWhile_append_dropWhile (p := (· == '-')) (l := trim name)]
    rw [List.filter_append, List.filter_eq_nil_iff.mpr, List.nil_append]
    intro c hc
    have hhyphen : (c == '-') = true := List.mem_takeWhile_imp (p := (· == '-')) hc
    rw [beq_iff_eq.mp hhyphen]
    decide
  obtain ⟨front, back, hname, hfront, hback⟩ := exists_eq_append_trim name
  rw [tokenName, dropStart, ← hhyphens]
  conv_rhs => rw [hname]
  rw [List.filter_append, List.filter_append, hblanks front hfront, hblanks back hback,
    List.nil_append, List.append_nil]

theorem hyphen_not_mem_tokenName (name : List Char) : '-' ∉ tokenName name := by
  rw [tokenName_eq_filter, List.mem_filter]
  exact fun hmem => absurd hmem.2 (by decide)

theorem tokenName_lowerAscii (name : List Char) : tokenName (lowerAscii name) = bareName name :=
  tokenName_eq_filter _

/-- Two leading hyphens do not count. -/
theorem bareName_variable (name : List Char) : bareName ("--".toList ++ name) = bareName name := by
  rw [bareName, lowerAscii_append, List.filter_append]
  rfl

/-- A property name without hyphens is its own bare name, up to letter case. -/
theorem IsPropertyName.bareName_eq {name : List Char} (hname : IsPropertyName name)
    (hhyphen : '-' ∉ name) : bareName name = lowerAscii name := by
  have hlower : ∀ c : Char, (isAsciiAlphanumeric c || c == '_') = true →
      (isAsciiAlphanumeric c.toLower || c.toLower == '_') = true :=
    toLower_cases (P := fun c small => (isAsciiAlphanumeric c || c == '_') = true →
      (isAsciiAlphanumeric small || small == '_') = true) (fun _ _ => id) (by decide)
  rw [bareName, List.filter_eq_self, lowerAscii, List.forall_mem_map]
  intro c hc
  obtain hword | hmark := (Bool.or_eq_true _ _).mp (hname.forall_mem c hc)
  · exact hlower c hword
  · rw [beq_iff_eq.mp hmark] at hc
    exact absurd hc hhyphen

/-- What a value refers to is written in lower case. -/
theorem RefersTo.toLower_eq {raw name : List Char} (hrefers : RefersTo raw name) :
    ∀ c ∈ name, c.toLower = c := by
  have hinside : ∀ {raw inside}, variableArguments? (lowerAscii (trim raw)) = some inside →
      ∀ c ∈ inside, c.toLower = c := by
    intro raw inside harguments c hc
    have hmem : c ∈ lowerAscii (trim raw) := by
      rw [eq_call_of_variableArguments? harguments]
      simp [call, hc]
    obtain ⟨capital, -, rfl⟩ := List.mem_map.mp hmem
    exact toLower_toLower capital
  induction hrefers with
  | alone harguments hcut => exact hinside harguments
  | token harguments hcut =>
    obtain ⟨mark, -, htext⟩ := eq_append_of_cutAt? hcut
    intro c hc
    apply hinside harguments
    rw [htext]
    exact List.mem_append_left _ hc
  | fallback harguments hcut hother ih => exact ih

/-- What is looked up for a name that a value refers to is its bare name. -/
theorem RefersTo.tokenName_eq {raw name : List Char} (hrefers : RefersTo raw name) :
    tokenName name = bareName name := by
  have hlower : lowerAscii name = name :=
    (List.map_congr_left hrefers.toLower_eq).trans (List.map_id name)
  rw [← tokenName_lowerAscii, hlower]

/-! ## Registration -/

theorem colorToken?_withColorToken (vocabulary : Vocabulary) (token expression query : String) :
    (vocabulary.withColorToken token expression).colorToken? query =
      if onChars lowerAscii token = query then some expression
      else vocabulary.colorToken? query :=
  Dictionary.get?_insert ..

/-- A color depends only on the tokens that its value refers to. -/
theorem parseColor?_congr {vocabulary vocabulary' : Vocabulary} {raw : List Char}
    (hlookup : ∀ name, RefersTo raw name →
      vocabulary'.colorToken? (String.ofList (tokenName name)) =
        vocabulary.colorToken? (String.ofList (tokenName name))) :
    parseColor? vocabulary' raw = parseColor? vocabulary raw := by
  induction raw using parseColor?.induct vocabulary with
  | case1 raw hnone =>
    rw [parseColor?_eq_plainColor? hnone, parseColor?_eq_plainColor? hnone]
  | case2 raw inside harguments hcut =>
    rw [parseColor?_of_alone harguments hcut, parseColor?_of_alone harguments hcut,
      hlookup _ (.alone harguments hcut)]
  | case3 raw inside harguments name fallback hcut expression hfound =>
    rw [parseColor?_of_fallback harguments hcut, parseColor?_of_fallback harguments hcut,
      hlookup _ (.token harguments hcut), hfound]
  | case4 raw inside harguments name fallback hcut hnone ih =>
    rw [parseColor?_of_fallback harguments hcut, parseColor?_of_fallback harguments hcut,
      hlookup _ (.token harguments hcut), hnone]
    exact ih fun other hother => hlookup other (.fallback harguments hcut hother)

/-- A value none of whose names leads to the registered key keeps its color. -/
theorem parseColor?_withColorToken_of_ne {vocabulary : Vocabulary} {token expression : String}
    {raw : List Char}
    (hother : ∀ name, RefersTo raw name → tokenName name ≠ lowerAscii token.toList) :
    parseColor? (vocabulary.withColorToken token expression) raw = parseColor? vocabulary raw := by
  apply parseColor?_congr
  intro name hname
  rw [colorToken?_withColorToken, if_neg]
  rw [onChars, String.ofList_inj]
  exact (hother name hname).symm

/-- A `var()` whose name is found is its token, whatever stands in for it. -/
theorem parseColor?_call_of_found {vocabulary : Vocabulary} {function name fallback : List Char}
    (hfunction : lowerAscii function = "var".toList) (hname : ',' ∉ name)
    (hfallback : fallback = [] ∨ fallback.head? = some ',') {expression : String}
    (hfound : vocabulary.colorToken? (String.ofList (bareName name)) = some expression) :
    parseColor? vocabulary (call function (name ++ fallback)) = some (.token expression) := by
  have hlower : ∀ inside, lowerAscii (trim (call function inside)) =
      call "var".toList (lowerAscii inside) := by
    intro inside
    rw [trim_call (by simp [functionNames, hfunction]), lowerAscii_call, hfunction]
  have hcomma : ',' ∉ lowerAscii name := by
    rwa [mem_lowerAscii_iff (by decide)]
  have harguments : variableArguments? (lowerAscii (trim (call function (name ++ fallback)))) =
      some (lowerAscii name ++ lowerAscii fallback) := by
    rw [hlower, variableArguments?_call, lowerAscii_append]
  rw [← tokenName_lowerAscii] at hfound
  obtain rfl | hhead := hfallback
  · have hinside : lowerAscii name ++ lowerAscii [] = lowerAscii name := List.append_nil _
    rw [hinside] at harguments
    rw [parseColor?_of_alone harguments (cutAt?_of_not_mem hcomma), hfound]
    rfl
  · obtain ⟨rest, rfl⟩ := List.head?_eq_some_iff.mp hhead
    have hcut : cutAt? (· == ',') (lowerAscii name ++ lowerAscii (',' :: rest)) =
        some (lowerAscii name, lowerAscii rest) :=
      cutAt?_append_mark hcomma _
    rw [parseColor?_of_fallback harguments hcut, hfound]

/-- A token that is registered under a name without hyphens is the color of every `var()` with that
    name, in either letter case and with hyphens anywhere, with or without a fallback. A token that
    is registered under a name with a hyphen is no color of any value. A value whose names all
    differ by more than letter case and hyphens keeps its color. -/
theorem parseColor?_withColorToken (vocabulary : Vocabulary) (token expression : String)
    (htoken : IsPropertyName token.toList) :
    ('-' ∉ token.toList → ∀ function name fallback, lowerAscii function = "var".toList →
      IsPropertyName name → bareName name = bareName token.toList →
      (fallback = [] ∨ fallback.head? = some ',') →
      parseColor? (vocabulary.withColorToken token expression)
        (call function ("--".toList ++ name ++ fallback)) = some (.token expression)) ∧
    ('-' ∈ token.toList → ∀ raw,
      parseColor? (vocabulary.withColorToken token expression) raw =
        parseColor? vocabulary raw) ∧
    ∀ raw, (∀ name, RefersTo raw name → bareName name ≠ bareName token.toList) →
      parseColor? (vocabulary.withColorToken token expression) raw =
        parseColor? vocabulary raw := by
  refine ⟨?_, ?_, ?_⟩
  · intro hhyphen function name fallback hfunction hname hsame hfallback
    apply parseColor?_call_of_found hfunction _ hfallback
    · rw [bareName_variable, hsame, htoken.bareName_eq hhyphen, colorToken?_withColorToken]
      exact if_pos rfl
    · simp [hname.comma_not_mem]
  · intro hhyphen raw
    apply parseColor?_withColorToken_of_ne
    intro name _ hsame
    apply hyphen_not_mem_tokenName name
    rwa [hsame, mem_lowerAscii_iff (by decide)]
  · intro raw hother
    apply parseColor?_withColorToken_of_ne
    intro name hname hsame
    apply hother name hname
    rw [← hname.tokenName_eq, bareName, ← hsame, tokenName_eq_filter, List.filter_filter]
    simp

/-- A token in mixed letter case, found with a hyphen, and the other values that keep their
    color. -/
theorem parseColor?_withColorToken_brandAccent :
    parseColor? (Vocabulary.standard.withColorToken "brandAccent" "AppColors.accent")
        "Var(--Brand-Accent, #fff)".toList = some (.token "AppColors.accent") ∧
      parseColor? (Vocabulary.standard.withColorToken "brandAccent" "AppColors.accent")
        "var(--primary)".toList = parseColor? .standard "var(--primary)".toList := by
  have htoken : IsPropertyName "brandAccent".toList :=
    ⟨by decide, by decide, List.all_eq_true.mp (by decide)⟩
  obtain ⟨hfound, -, hothers⟩ :=
    parseColor?_withColorToken .standard "brandAccent" "AppColors.accent" htoken
  constructor
  · exact hfound (by decide) "Var".toList "Brand-Accent".toList ", #fff".toList (by decide)
      ⟨by decide, by decide, List.all_eq_true.mp (by decide)⟩ (by decide +kernel) (.inr (by decide))
  · apply hothers
    intro name hname
    have harguments : variableArguments? (lowerAscii (trim "var(--primary)".toList)) =
        some "--primary".toList := by decide
    cases hname with
    | alone hinside hcut =>
      obtain rfl := Option.some.inj (harguments.symm.trans hinside)
      decide
    | token hinside hcut | fallback hinside hcut =>
      obtain rfl := Option.some.inj (harguments.symm.trans hinside)
      cases hcut

/-- A token that is registered as it is written in stylesheets, with its hyphen, is not found. -/
theorem parseColor?_misses_hyphenated :
    IsPropertyName "brand-accent".toList ∧
      parseColor? (Vocabulary.standard.withColorToken "brand-accent" "AppColors.accent")
        "var(--brand-accent)".toList = none ∧
      parseColor? (Vocabulary.standard.withColorToken "brand-accent" "AppColors.accent")
        "var(--brand-accent, #fff)".toList = some (.argb ⟨255, 255, 255, 255⟩) :=
  ⟨⟨by decide, by decide, List.all_eq_true.mp (by decide)⟩, by decide +kernel,
    by decide +kernel⟩

end DesignCompiler.Style
