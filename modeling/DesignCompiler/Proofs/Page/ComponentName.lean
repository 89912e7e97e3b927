import DesignCompiler.Asset.Token
import DesignCompiler.Page.Source
import DesignCompiler.Proofs.Text.Classes
import DesignCompiler.Proofs.Text.Splitting

/-!
# Names of components

Whatever the stem of a file is, the name of its component is a legal class name. A stem in snake
case becomes the name in Pascal case that it spells, and that name stays as it is.
-/

namespace DesignCompiler.Page

open Asset Text

/-- A capital ASCII letter. -/
def isCapital (c : Char) : Bool := 'A' ≤ c && c ≤ 'Z'

/-- A small ASCII letter. -/
def isSmall (c : Char) : Bool := 'a' ≤ c && c ≤ 'z'

/-- A capital followed by ASCII letters and digits. -/
def IsClassName (name : String) : Prop :=
  ∃ first rest, name.toList = first :: rest ∧ isCapital first = true ∧
    ∀ c ∈ rest, isAsciiAlphanumeric c = true

/-- A word of small letters, two at least. -/
structure IsStemWord (word : List Char) : Prop where
  isSmall_of_mem : ∀ c ∈ word, isSmall c = true
  two_le_length : 2 ≤ word.length

/-! ## Letters -/

theorem isAsciiAlphanumeric_toLower {c : Char} (hc : isAsciiAlphanumeric c = true) :
    isAsciiAlphanumeric c.toLower = true :=
  forall_isAsciiAlphanumeric (P := fun c => isAsciiAlphanumeric c.toLower = true) (by decide) hc

theorem isAsciiAlphanumeric_toUpper {c : Char} (hc : isAsciiAlphanumeric c = true) :
    isAsciiAlphanumeric c.toUpper = true :=
  forall_isAsciiAlphanumeric (P := fun c => isAsciiAlphanumeric c.toUpper = true) (by decide) hc

/-- No small letter is the capital of anything. -/
theorem isCapital_of_isAsciiLetter_toUpper {c : Char} (hc : isAsciiAlphanumeric c = true)
    (hletter : isAsciiLetter c.toUpper = true) : isCapital c.toUpper = true :=
  forall_isAsciiAlphanumeric
    (P := fun c => isAsciiLetter c.toUpper = true → isCapital c.toUpper = true)
    (by decide) hc hletter

theorem isAsciiAlphanumeric_of_isSmall {c : Char} (hc : isSmall c = true) :
    isAsciiAlphanumeric c = true := by
  rw [isAsciiAlphanumeric, isAsciiLetter, Bool.or_eq_true, Bool.or_eq_true]
  exact .inl (.inl hc)

/-- What holds of the small letters in ASCII holds of all of them. -/
private theorem forall_isSmall {P : Char → Prop}
    (hcodes : ∀ code < 0x80, isSmall (Char.ofNat code) = true → P (Char.ofNat code)) {c : Char}
    (hc : isSmall c = true) : P c :=
  forall_of_ascii
    (fun hsmall => toNat_lt_of_isAsciiAlphanumeric (isAsciiAlphanumeric_of_isSmall hsmall))
    hcodes hc

theorem toLower_of_isSmall {c : Char} (hc : isSmall c = true) : c.toLower = c :=
  forall_isSmall (P := fun c => c.toLower = c) (by decide) hc

theorem toUpper_of_isSmall {c : Char} (hc : isSmall c = true) :
    c.toUpper.toLower = c ∧ isCapital c.toUpper = true ∧ isAsciiLetter c.toUpper = true ∧
      (isSmall c.toUpper || isAsciiDigit c.toUpper) = false :=
  forall_isSmall (P := fun c => c.toUpper.toLower = c ∧ isCapital c.toUpper = true ∧
    isAsciiLetter c.toUpper = true ∧ (isSmall c.toUpper || isAsciiDigit c.toUpper) = false)
    (by decide) hc

theorem not_isCapital_of_isSmall {c : Char} (hc : isSmall c = true) : isCapital c = false :=
  forall_isSmall (P := fun c => isCapital c = false) (by decide) hc

/-! ## Legal names -/

theorem isAsciiAlphanumeric_of_mem_nameParts {text part : List Char}
    (hpart : part ∈ nameParts text) :
    ∀ c ∈ part, isAsciiAlphanumeric c = true := by
  intro c hc
  have hplain := not_separates_of_mem_splitOn (List.mem_filter.mp hpart).1 hc
  rwa [Bool.not_eq_false'] at hplain

/-- A part in title case begins with a digit or a capital. -/
theorem titleCase_chars {part : List Char} (hpart : ∀ c ∈ part, isAsciiAlphanumeric c = true) :
    (∀ c ∈ titleCase part, isAsciiAlphanumeric c = true) ∧
      ∀ c ∈ (titleCase part).head?, isAsciiLetter c = true → isCapital c = true := by
  cases part with
  | nil => simp [titleCase, lowerAscii]
  | cons first rest =>
    rw [List.forall_mem_cons] at hpart
    have htitle : titleCase (first :: rest) = first.toLower.toUpper :: lowerAscii rest := rfl
    have hfirst := isAsciiAlphanumeric_toLower hpart.1
    rw [htitle, List.forall_mem_cons]
    refine ⟨⟨isAsciiAlphanumeric_toUpper hfirst, fun c hc => ?_⟩, fun c hc hletter => ?_⟩
    · obtain ⟨d, hd, rfl⟩ := List.mem_map.mp hc
      exact isAsciiAlphanumeric_toLower (hpart.2 d hd)
    · cases hc
      exact isCapital_of_isAsciiLetter_toUpper hfirst hletter

theorem isClassName_ofList {first : Char} {rest : List Char} (hfirst : isCapital first = true)
    (hrest : ∀ c ∈ rest, isAsciiAlphanumeric c = true) :
    IsClassName (String.ofList (first :: rest)) :=
  ⟨first, rest, String.toList_ofList, hfirst, hrest⟩

theorem isClassName_componentName (stem : String) : IsClassName (componentName stem) := by
  have hchars : ∀ c ∈ (nameParts (splitCamel stem.toList)).flatMap titleCase,
      isAsciiAlphanumeric c = true := by
    intro c hc
    obtain ⟨part, hpart, hc⟩ := List.mem_flatMap.mp hc
    exact (titleCase_chars (isAsciiAlphanumeric_of_mem_nameParts hpart)).1 c hc
  have hhead : ∀ c ∈ ((nameParts (splitCamel stem.toList)).flatMap titleCase).head?,
      isAsciiLetter c = true → isCapital c = true := by
    intro c hc
    rw [List.head?_flatMap] at hc
    obtain ⟨part, hpart, hc⟩ := List.exists_of_findSome?_eq_some hc
    exact (titleCase_chars (isAsciiAlphanumeric_of_mem_nameParts hpart)).2 c hc
  unfold componentName
  dsimp only
  generalize (nameParts (splitCamel stem.toList)).flatMap titleCase = name at hchars hhead
  cases name with
  | nil => exact ⟨'F', "igmaWidget".toList, by decide, by decide, List.all_eq_true.mp (by decide)⟩
  | cons first rest =>
    cases hletter : isAsciiLetter first with
    | true =>
      simp only [List.isEmpty_cons, List.head?_cons, Option.any_some, hletter, if_true]
      exact isClassName_ofList (hhead first rfl hletter) (List.forall_mem_cons.mp hchars).2
    | false =>
      have hprefix : "Figma" ++ String.ofList (first :: rest) =
          String.ofList ('F' :: ("igma".toList ++ first :: rest)) := by
        rw [← String.toList_inj]
        simp
      simp only [List.isEmpty_cons, List.head?_cons, Option.any_some, hletter, hprefix]
      exact isClassName_ofList (by decide)
        (List.forall_mem_append.mpr ⟨List.all_eq_true.mp (by decide), hchars⟩)

/-! ## Snake case and Pascal case -/

theorem splitCamel_of_no_capital {text : List Char} (htext : ∀ c ∈ text, isCapital c = false) :
    splitCamel text = text := by
  fun_induction splitCamel text with
  | case1 c d rest hboundary =>
    rw [Bool.and_eq_true] at hboundary
    exact absurd hboundary.2 (by simpa [isCapital] using htext d (by simp))
  | case2 c d rest _ ih => rw [ih (List.forall_mem_cons.mp htext).2]
  | case3 => rfl

/-- No underscore is put before a small letter. -/
theorem splitCamel_before_small {c d : Char} (hd : isSmall d = true) (rest : List Char) :
    splitCamel (c :: d :: rest) = c :: splitCamel (d :: rest) := by
  have hplain := not_isCapital_of_isSmall hd
  rw [isCapital] at hplain
  rw [splitCamel, hplain, Bool.and_false, if_neg (by simp)]

/-- An underscore is put between small letters and a capital. -/
theorem splitCamel_append_capital {letters : List Char}
    (hletters : ∀ c ∈ letters, isSmall c = true) (hne : letters ≠ []) {first : Char}
    (hfirst : isCapital first = true) (rest : List Char) :
    splitCamel (letters ++ first :: rest) = letters ++ '_' :: splitCamel (first :: rest) := by
  induction letters with
  | nil => exact absurd rfl hne
  | cons c letters ih =>
    rw [List.forall_mem_cons] at hletters
    cases letters with
    | nil =>
      have hsmall := hletters.1
      rw [isSmall] at hsmall
      rw [isCapital] at hfirst
      rw [List.singleton_append, splitCamel, hsmall, hfirst, Bool.true_or,
        Bool.true_and, if_pos rfl]
      rfl
    | cons d letters =>
      have hd := hletters.2 d List.mem_cons_self
      rw [List.cons_append, List.cons_append, splitCamel_before_small hd, ← List.cons_append,
        ih hletters.2 (List.cons_ne_nil d letters)]
      rfl

theorem IsStemWord.exists_eq_cons {word : List Char} (hword : IsStemWord word) :
    ∃ c letters, word = c :: letters ∧ isSmall c = true ∧ (∀ d ∈ letters, isSmall d = true) ∧
      letters ≠ [] := by
  obtain ⟨hsmall, hlength⟩ := hword
  match word with
  | [] | [_] => simp at hlength
  | c :: d :: letters =>
    rw [List.forall_mem_cons] at hsmall
    exact ⟨c, d :: letters, rfl, hsmall.1, hsmall.2, List.cons_ne_nil d letters⟩

/-- The capitals of a name in Pascal case are where the underscores of its stem were. -/
theorem splitCamel_flatMap_capitalize {words : List (List Char)}
    (hwords : ∀ word ∈ words, IsStemWord word) :
    splitCamel (words.flatMap capitalize) = ['_'].intercalate (words.map capitalize) := by
  induction words with
  | nil => rfl
  | cons word words ih =>
    rw [List.forall_mem_cons] at hwords
    obtain ⟨c, letters, rfl, -, hletters, hne⟩ := hwords.1.exists_eq_cons
    obtain ⟨d, others, rfl⟩ := List.exists_cons_of_ne_nil hne
    have hd := hletters d List.mem_cons_self
    cases words with
    | nil =>
      have hplain := splitCamel_of_no_capital fun e he => not_isCapital_of_isSmall (hletters e he)
      simpa [capitalize, hplain, List.intercalate] using splitCamel_before_small hd others
    | cons next words =>
      obtain ⟨e, rest, rfl, he, -, -⟩ := (hwords.2 next List.mem_cons_self).exists_eq_cons
      have hrest := ih hwords.2
      rw [List.flatMap_cons, capitalize, List.cons_append] at hrest
      rw [List.flatMap_cons, List.flatMap_cons, capitalize, capitalize, List.cons_append,
        List.cons_append, List.cons_append, splitCamel_before_small hd, ← List.cons_append,
        splitCamel_append_capital hletters hne (toUpper_of_isSmall he).2.1, hrest]
      simp [List.intercalate, capitalize]

theorem titleCase_of_isStemWord {word : List Char} (hword : IsStemWord word) :
    titleCase word = capitalize word ∧ titleCase (capitalize word) = capitalize word := by
  obtain ⟨c, letters, rfl, hc, hletters, -⟩ := hword.exists_eq_cons
  have hlower : lowerAscii letters = letters :=
    (List.map_congr_left fun d hd => toLower_of_isSmall (hletters d hd)).trans (List.map_id _)
  constructor
  · show c.toLower.toUpper :: lowerAscii letters = c.toUpper :: letters
    rw [toLower_of_isSmall hc, hlower]
  · show c.toUpper.toLower.toUpper :: lowerAscii letters = c.toUpper :: letters
    rw [(toUpper_of_isSmall hc).1, hlower]

/-- Words without separators that are joined by underscores are found again. -/
theorem nameParts_intercalate {words : List (List Char)} (hne : words ≠ [])
    (hwords : ∀ word ∈ words, word ≠ [] ∧ ∀ c ∈ word, isAsciiAlphanumeric c = true) :
    nameParts (['_'].intercalate words) = words := by
  have hsplit := @splitOn_intercalate_of_separates (!isAsciiAlphanumeric ·) '_' (by decide) words
    hne fun word hword c hc => by simp [(hwords word hword).2 c hc]
  rw [nameParts, hsplit, List.filter_eq_self]
  intro word hword
  simp [(hwords word hword).1]

/-- The parts of a stem are the words of its name. -/
theorem componentName_of_titleCase {stem : String} {words : List (List Char)} (hne : words ≠ [])
    (hwords : ∀ word ∈ words, IsStemWord word)
    (hparts : (nameParts (splitCamel stem.toList)).flatMap titleCase = words.flatMap capitalize) :
    componentName stem = String.ofList (words.flatMap capitalize) := by
  obtain ⟨word, rest, rfl⟩ := List.exists_cons_of_ne_nil hne
  obtain ⟨c, letters, rfl, hc, -, -⟩ := (hwords word List.mem_cons_self).exists_eq_cons
  unfold componentName
  dsimp only
  rw [hparts]
  simp [capitalize, (toUpper_of_isSmall hc).2.2.1]

theorem IsStemWord.capitalize_chars {word : List Char} (hword : IsStemWord word) :
    capitalize word ≠ [] ∧ ∀ c ∈ capitalize word, isAsciiAlphanumeric c = true := by
  obtain ⟨c, letters, rfl, hc, hletters, -⟩ := hword.exists_eq_cons
  refine ⟨List.cons_ne_nil _ _, List.forall_mem_cons.mpr ⟨?_, fun d hd => ?_⟩⟩
  · exact isAsciiAlphanumeric_toUpper (isAsciiAlphanumeric_of_isSmall hc)
  · exact isAsciiAlphanumeric_of_isSmall (hletters d hd)

theorem flatMap_titleCase {words : List (List Char)} (hwords : ∀ word ∈ words, IsStemWord word) :
    words.flatMap titleCase = words.flatMap capitalize ∧
      (words.map capitalize).flatMap titleCase = words.flatMap capitalize := by
  constructor
  · exact List.flatMap_congr fun word hword => (titleCase_of_isStemWord (hwords word hword)).1
  · rw [List.flatMap_map]
    exact List.flatMap_congr fun word hword => (titleCase_of_isStemWord (hwords word hword)).2

theorem componentName_snakeCase {words : List (List Char)} (hne : words ≠ [])
    (hwords : ∀ word ∈ words, IsStemWord word) :
    componentName (String.ofList (['_'].intercalate words)) =
      String.ofList (words.flatMap capitalize) := by
  apply componentName_of_titleCase hne hwords
  have hplain : ∀ c ∈ ['_'].intercalate words, isCapital c = false := by
    intro c hc
    obtain hmark | ⟨word, hword, hc⟩ := mem_intercalate hc
    · obtain rfl := List.mem_singleton.mp hmark
      decide
    · exact not_isCapital_of_isSmall ((hwords word hword).isSmall_of_mem c hc)
  have hchars : ∀ word ∈ words, word ≠ [] ∧ ∀ c ∈ word, isAsciiAlphanumeric c = true := by
    intro word hword
    refine ⟨?_, fun c hc =>
      isAsciiAlphanumeric_of_isSmall ((hwords word hword).isSmall_of_mem c hc)⟩
    rintro rfl
    exact absurd (hwords [] hword).two_le_length (by decide)
  rw [String.toList_ofList, splitCamel_of_no_capital hplain, nameParts_intercalate hne hchars,
    (flatMap_titleCase hwords).1]

theorem componentName_pascalCase {words : List (List Char)} (hne : words ≠ [])
    (hwords : ∀ word ∈ words, IsStemWord word) :
    componentName (String.ofList (words.flatMap capitalize)) =
      String.ofList (words.flatMap capitalize) := by
  apply componentName_of_titleCase hne hwords
  have hchars : ∀ word ∈ words.map capitalize,
      word ≠ [] ∧ ∀ c ∈ word, isAsciiAlphanumeric c = true := by
    rw [List.forall_mem_map]
    exact fun word hword => (hwords word hword).capitalize_chars
  rw [String.toList_ofList, splitCamel_flatMap_capitalize hwords,
    nameParts_intercalate (by simpa using hne) hchars, (flatMap_titleCase hwords).2]

/-- The name of a component is a legal class name for every stem. A stem of words of small letters,
    two at least in each, gives the words capitalized and joined, and this is a name that stays. -/
theorem componentName_legal :
    (∀ stem, IsClassName (componentName stem)) ∧
    ∀ words : List (List Char), words ≠ [] → (∀ word ∈ words, IsStemWord word) →
      componentName (String.ofList (['_'].intercalate words)) =
        String.ofList (words.flatMap capitalize) ∧
      componentName (String.ofList (words.flatMap capitalize)) =
        String.ofList (words.flatMap capitalize) :=
  ⟨isClassName_componentName, fun _ hne hwords =>
    ⟨componentName_snakeCase hne hwords, componentName_pascalCase hne hwords⟩⟩

/-- A stem of three words, and stems that leave little to make a name of. -/
theorem componentName_legal_page :
    componentName "sign_up_form" = "SignUpForm" ∧ componentName "SignUpForm" = "SignUpForm" ∧
      IsClassName (componentName "2fa é") ∧ IsClassName (componentName "__") := by
  have hwords : ∀ word ∈ ["sign".toList, "up".toList, "form".toList], IsStemWord word := by
    simp only [List.forall_mem_cons, List.not_mem_nil, false_imp_iff, implies_true, and_true]
    exact ⟨⟨List.all_eq_true.mp (by decide), by decide⟩,
      ⟨List.all_eq_true.mp (by decide), by decide⟩, ⟨List.all_eq_true.mp (by decide), by decide⟩⟩
  obtain ⟨hlegal, hpascal⟩ := componentName_legal
  obtain ⟨hsnake, hkept⟩ := hpascal _ (List.cons_ne_nil _ _) hwords
  exact ⟨hsnake, hkept, hlegal _, hlegal _⟩

end DesignCompiler.Page
