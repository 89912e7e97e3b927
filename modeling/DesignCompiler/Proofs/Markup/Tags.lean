import DesignCompiler.Proofs.Dictionary
import DesignCompiler.Proofs.Markup.Spelling

/-!
# Printed tags

The tokens of a printed tag are read one by one, and the attributes come back in their order.
-/

namespace DesignCompiler.Markup

open Text Source

namespace TagToken

/-! ## Tokens -/

/-- After blanks the token that the text begins with is next. -/
theorem next_of_scan? {gap rest : List Char} {c : Char} {found : TagToken × List Char}
    (hgap : IsGap gap) (hc : isSkipped c = false) (hscan : scan? (c :: rest) = some found) :
    next (gap ++ c :: rest) = .ok found := by
  rw [next, dropWhile_append_of_head? hgap (by simpa using hc)]
  simp only [hscan]

theorem isSkipped_of_startsName {c : Char} (hc : startsName c = true) : isSkipped c = false := by
  by_contra hskipped
  simp only [Bool.not_eq_false, isSkipped, List.contains_iff_mem, List.mem_cons,
    List.not_mem_nil, or_false] at hskipped
  obtain rfl | rfl | rfl | rfl | rfl := hskipped <;> exact absurd hc (by decide)

/-- Without blanks the token that the text begins with is next. -/
theorem next_cons_of_scan? {rest : List Char} {c : Char} {found : TagToken × List Char}
    (hc : isSkipped c = false) (hscan : scan? (c :: rest) = some found) :
    next (c :: rest) = .ok found := next_of_scan? isGap_nil hc hscan

theorem startsName_ne {c : Char} (hc : startsName c = true) (mark : Char)
    (hmark : startsName mark = false := by decide) : c ≠ mark := by
  rintro rfl
  rw [hc] at hmark
  cases hmark

/-- A name extends to the first character that none has. -/
theorem scan?_name {c : Char} {name rest : List Char} (hc : startsName c = true)
    (hname : ∀ d ∈ name, isNameChar d = true) (hrest : ∀ d ∈ rest.head?, isNameChar d = false) :
    scan? (c :: (name ++ rest)) = some (.name (c :: name), rest) := by
  rw [scan?.eq_def]
  split
  · rename_i h
    cases h
  · rename_i h
    exact absurd (List.cons.inj h).1 (startsName_ne hc '/')
  · rename_i h
    obtain ⟨rfl, rfl⟩ := List.cons.inj h
    rw [if_neg (by simpa using startsName_ne hc '>'), if_neg (by simpa using startsName_ne hc '/'),
      if_neg (by simpa using startsName_ne hc '='), if_neg (by simpa using startsName_ne hc '{'),
      if_pos hc, takeWhile_append_of_head? hname hrest, dropWhile_append_of_head? hname hrest]

/-- A string extends to the next double quote. -/
theorem scan?_string {raw rest : List Char} (hraw : '"' ∉ raw) :
    scan? ('"' :: (raw ++ '"' :: rest)) = some (.string ('"' :: raw ++ ['"']), rest) := by
  have hpos : ∀ d ∈ raw, (d != '"') = true := by
    intro d hd
    simpa using fun h : d = '"' => hraw (h ▸ hd)
  have hstop : ∀ d ∈ ('"' :: rest).head?, (d != '"') = false := by simp
  simp [scan?, startsName, isAsciiLetter, takeWhile_append_of_head? hpos hstop,
    dropWhile_append_of_head? hpos hstop]

theorem unquote_quoted (raw : List Char) : unquote ('"' :: raw ++ ['"']) = raw := by
  rw [unquote, if_pos (by simp)]
  simp

end TagToken

open TagToken

/-! ## Names -/

theorem exists_eq_cons_of_isName {name : List Char} (hname : isName name = true) :
    ∃ c rest, name = c :: rest ∧ startsName c = true ∧ ∀ d ∈ rest, isNameChar d = true := by
  cases name with
  | nil => cases hname
  | cons c rest =>
    simp only [isName, List.head?_cons, Option.any_some, List.all_cons, Bool.and_eq_true,
      List.all_eq_true] at hname
    exact ⟨c, rest, rfl, hname.1, hname.2.2⟩

/-- A name after blanks is read to its end. -/
theorem next_name {gap name rest : List Char} (hgap : IsGap gap) (hname : isName name = true)
    (hrest : ∀ d ∈ rest.head?, isNameChar d = false) :
    next (gap ++ (name ++ rest)) = .ok (.name name, rest) := by
  obtain ⟨c, tail, rfl, hc, htail⟩ := exists_eq_cons_of_isName hname
  exact next_of_scan? hgap (isSkipped_of_startsName hc) (scan?_name hc htail hrest)

/-! ## Attributes -/

/-- The value of a printed attribute is decoded. -/
theorem attributeValue_printed {name value raw rest : List Char}
    (hvalue : Spelled escapedInValue value raw) :
    attributeValue name ('=' :: '"' :: (raw ++ '"' :: rest)) = .ok (some value, rest) := by
  have hequals : next ('=' :: '"' :: (raw ++ '"' :: rest)) =
      .ok (.equals, '"' :: (raw ++ '"' :: rest)) :=
    next_cons_of_scan? (by decide) rfl
  have hstring : next ('"' :: (raw ++ '"' :: rest)) = .ok (.string ('"' :: raw ++ ['"']), rest) :=
    next_cons_of_scan? (by decide) (scan?_string (hvalue.not_mem '"' (by decide)))
  rw [attributeValue, hequals]
  simp only [hstring, unquote_quoted, hvalue.decodeEntities_eq (by decide)]

theorem attributesFrom_of_name {attributes : Dictionary String String}
    {text key rest after value : List Char} (hnext : next text = .ok (.name key, rest))
    (hvalue : attributeValue key rest = .ok (some value, after)) :
    attributesFrom attributes text =
      attributesFrom (attributes.insert (String.ofList key) (String.ofList value)) after := by
  rw [attributesFrom]
  split
  case h_3 htoken =>
    rw [hnext] at htoken
    cases htoken
    split
    · rename_i hfound
      rw [hvalue] at hfound
      cases hfound
      rfl
    · rename_i hfound
      rw [hvalue] at hfound
      cases hfound
  case h_5 hname _ htoken =>
    rw [hnext] at htoken
    cases htoken
    exact absurd rfl (hname key rest)
  all_goals
    rename_i htoken
    rw [hnext] at htoken
    cases htoken

/-- The end of a tag, which may close itself. -/
def tagEnd (closesItself : Bool) : List Char := if closesItself then ['/', '>'] else ['>']

theorem attributesFrom_tagEnd (attributes : Dictionary String String) {gap rest : List Char}
    (hgap : IsGap gap) (closesItself : Bool) :
    attributesFrom attributes (gap ++ tagEnd closesItself ++ rest) =
      .ok ((attributes, closesItself), rest) := by
  have hnext : next (gap ++ tagEnd closesItself ++ rest) =
      .ok (if closesItself then .selfClose else .close, rest) := by
    rw [List.append_assoc]
    cases closesItself
    · exact next_of_scan? hgap (by decide) rfl
    · exact next_of_scan? hgap (by decide) rfl
  rw [attributesFrom]
  split
  case h_5 hself hclose _ _ htoken =>
    rw [hnext] at htoken
    cases htoken
    cases closesItself
    · exact absurd rfl (hclose rest)
    · exact absurd rfl (hself rest)
  all_goals
    rename_i htoken
    rw [hnext] at htoken
    cases closesItself <;> cases htoken
  · rfl
  · rfl

/-- The attributes of a printed tag are added to those already known, and the end of the tag is
    read. -/
theorem attributesFrom_printed {attributes : List (List Char × List Char)} {text : List Char}
    (hprinted : PrintsAttributes attributes text) :
    ∀ (known : List (List Char × List Char)) (closesItself : Bool) (rest : List Char),
      (∀ entry ∈ attributes, isName entry.1 = true) →
      ((known ++ attributes).map Prod.fst).Nodup →
      attributesFrom (dictionaryOf known) (text ++ tagEnd closesItself ++ rest) =
        .ok ((dictionaryOf (known ++ attributes), closesItself), rest) := by
  induction hprinted with
  | nil hgap =>
    intro known closesItself rest _ _
    rw [attributesFrom_tagEnd _ hgap, List.append_nil]
  | @cons gap name value raw text others hgap _ hvalue _ ih =>
    intro known closesItself rest hnames hnodup
    rw [List.forall_mem_cons] at hnames
    have hnext : next (gap ++ (name ++ '=' :: '"' :: (raw ++ '"' :: (text ++
        tagEnd closesItself ++ rest)))) = .ok (.name name, '=' :: '"' :: (raw ++ '"' :: (text ++
        tagEnd closesItself ++ rest))) :=
      next_name hgap hnames.1
        (by simp [isNameChar, isAsciiAlphanumeric, isAsciiLetter, isAsciiDigit])
    have hinsert : (dictionaryOf known).insert (String.ofList name) (String.ofList value) =
        dictionaryOf (known ++ [(name, value)]) := by
      have hfresh : String.ofList name ∉
          (known.map fun entry => (String.ofList entry.1, String.ofList entry.2)).map Prod.fst := by
        simp only [List.map_map, List.mem_map, not_exists, not_and]
        intro entry hentry hname
        have hequal : entry.1 = name := String.ofList_injective hname
        rw [List.map_append, List.nodup_append] at hnodup
        exact hnodup.2.2 _ (List.mem_map_of_mem hentry) _ List.mem_cons_self hequal
      rw [dictionaryOf, Dictionary.insert_of_not_mem hfresh, dictionaryOf, List.map_append]
      rfl
    have htext : gap ++ name ++ '=' :: '"' :: raw ++ '"' :: text ++ tagEnd closesItself ++ rest =
        gap ++ (name ++ '=' :: '"' :: (raw ++ '"' :: (text ++ tagEnd closesItself ++ rest))) := by
      simp
    rw [htext, attributesFrom_of_name hnext (attributeValue_printed hvalue), hinsert,
      ih _ closesItself rest hnames.2 (by simpa using hnodup)]
    simp

end DesignCompiler.Markup
