import DesignCompiler.Asset.Token
import DesignCompiler.Proofs.Text.Classes
import DesignCompiler.Proofs.Text.Splitting

/-!
# Tokens

A token is written in small letters and digits with single underscores between them. Every text has
one, a token is its own, and stripping a kind or numbers leaves a token.
-/

namespace DesignCompiler.Asset

open Text

/-- Small letters and digits with single underscores between them, or nothing. -/
structure IsToken (text : List Char) : Prop where
  chars : ∀ c ∈ text, isTokenChar c = true ∨ c = '_'
  single : ¬ ['_', '_'] <:+: text
  head : text.head? ≠ some '_'
  last : text.getLast? ≠ some '_'

/-! ## Characters -/

theorem ne_of_isTokenChar {c : Char} (hc : isTokenChar c = true) : c ≠ '_' := by
  rintro rfl
  cases hc

theorem isAsciiAlphanumeric_of_isTokenChar {c : Char} (hc : isTokenChar c = true) :
    isAsciiAlphanumeric c = true := by
  rw [isAsciiAlphanumeric, isAsciiLetter, Bool.or_eq_true, Bool.or_eq_true]
  obtain hletter | hdigit := (Bool.or_eq_true _ _).mp hc
  · exact .inl (.inl hletter)
  · exact .inr hdigit

/-- The characters of tokens are ASCII, not blank and in lower case. -/
theorem IsToken.chars_plain {token : List Char} (htoken : IsToken token) :
    ∀ c ∈ token, c.toNat < 0x80 ∧ isBlank c = false ∧ c.toLower = c := by
  intro c hc
  obtain hchar | rfl := htoken.chars c hc
  · have hascii : ∀ {c : Char}, isTokenChar c = true → c.toNat < 0x80 := fun hchar =>
      toNat_lt_of_isAsciiAlphanumeric (isAsciiAlphanumeric_of_isTokenChar hchar)
    exact forall_of_ascii (P := fun c => c.toNat < 0x80 ∧ isBlank c = false ∧ c.toLower = c) hascii
      (by decide) hchar
  · decide

theorem single_cons_iff {c : Char} {rest : List Char} :
    ¬ ['_', '_'] <:+: c :: rest ↔
      (c = '_' → rest.head? ≠ some '_') ∧ ¬ ['_', '_'] <:+: rest := by
  rw [List.infix_cons_iff, not_or, List.cons_prefix_cons, not_and, eq_comm]
  refine and_congr_left fun _ => imp_congr_right fun _ => not_congr ?_
  cases rest with
  | nil => simp
  | cons d rest => simp [List.cons_prefix_cons, eq_comm]

/-! ## The token of a text -/

theorem chars_underscored {inRun : Bool} {text : List Char} :
    ∀ c ∈ underscored inRun text, isTokenChar c = true ∨ c = '_' := by
  fun_induction underscored inRun text with
  | case1 => simp
  | case2 inRun c rest hc ih => exact List.forall_mem_cons.mpr ⟨.inl hc, ih⟩
  | case3 c rest hc ih => exact ih
  | case4 inRun c rest hc hrun ih => exact List.forall_mem_cons.mpr ⟨.inr rfl, ih⟩

/-- No two underscores are written for one run, nor one for a run that has begun. -/
theorem single_underscored (inRun : Bool) (text : List Char) :
    ¬ ['_', '_'] <:+: underscored inRun text ∧
      (inRun = true → (underscored inRun text).head? ≠ some '_') := by
  fun_induction underscored inRun text with
  | case1 => simp
  | case2 inRun c rest hc ih =>
    have hne := ne_of_isTokenChar hc
    exact ⟨single_cons_iff.mpr ⟨fun h => absurd h hne, ih.1⟩, fun _ => by simpa using hne⟩
  | case3 c rest hc ih => exact ⟨ih.1, fun _ => ih.2 rfl⟩
  | case4 inRun c rest hc hrun ih =>
    exact ⟨single_cons_iff.mpr ⟨fun _ => ih.2 rfl, ih.1⟩, fun h => absurd h hrun⟩

theorem isToken_dropUnderscores {text : List Char}
    (hchars : ∀ c ∈ text, isTokenChar c = true ∨ c = '_') (hsingle : ¬ ['_', '_'] <:+: text) :
    IsToken (dropUnderscores text) := by
  have hinside : dropUnderscores text <:+: text :=
    (List.rdropWhile_prefix _ _).isInfix.trans (List.dropWhile_suffix _).isInfix
  obtain ⟨hhead, hlast⟩ := ends_dropEnds (· == '_') text
  exact ⟨fun c hc => hchars c (hinside.subset hc), fun h => hsingle (h.trans hinside),
    fun h => absurd (hhead '_' h) (by decide), fun h => absurd (hlast '_' h) (by decide)⟩

theorem isToken_sanitize (text : List Char) : IsToken (sanitize text) :=
  isToken_dropUnderscores chars_underscored (single_underscored _ _).1

namespace IsToken

variable {token : List Char}

theorem dropUnderscores_eq (htoken : IsToken token) : dropUnderscores token = token := by
  refine dropEnds_eq_self (fun c hc => ?_) fun c hc => ?_
  · refine beq_false_of_ne ?_
    rintro rfl
    exact htoken.head hc
  · refine beq_false_of_ne ?_
    rintro rfl
    exact htoken.last hc

theorem isTrimmed (htoken : IsToken token) : IsTrimmed token :=
  ⟨fun c hc => (htoken.chars_plain c (List.mem_of_mem_head? hc)).2.1,
    fun c hc => (htoken.chars_plain c (List.mem_of_mem_getLast? hc)).2.1⟩

theorem lower_eq (htoken : IsToken token) : lower token = token := by
  rw [lower_of_ascii fun c hc => (htoken.chars_plain c hc).1]
  exact (List.map_congr_left fun c hc => (htoken.chars_plain c hc).2.2).trans (List.map_id _)

/-- Nothing is replaced in a token. -/
theorem underscored_eq {text : List Char} (hchars : ∀ c ∈ text, isTokenChar c = true ∨ c = '_')
    (hsingle : ¬ ['_', '_'] <:+: text) {inRun : Bool}
    (hhead : inRun = true → text.head? ≠ some '_') : underscored inRun text = text := by
  induction text generalizing inRun with
  | nil => rfl
  | cons c rest ih =>
    rw [List.forall_mem_cons] at hchars
    rw [single_cons_iff] at hsingle
    obtain hc | rfl := hchars.1
    · rw [underscored, if_pos hc, ih hchars.2 hsingle.2 (by simp)]
    · have hrun : ¬ inRun = true := fun h => hhead h rfl
      rw [underscored, if_neg (by decide), if_neg hrun,
        ih hchars.2 hsingle.2 fun _ => hsingle.1 rfl]

/-- A token is the token of itself. -/
theorem sanitize_eq (htoken : IsToken token) : sanitize token = token := by
  rw [sanitize, htoken.isTrimmed.trim_eq, htoken.lower_eq,
    underscored_eq htoken.chars htoken.single (by simp), htoken.dropUnderscores_eq]

/-- What follows an underscore in a token is a token that is not empty. -/
theorem of_append_underscore {front rest : List Char} (htoken : IsToken (front ++ '_' :: rest)) :
    IsToken rest ∧ rest ≠ [] := by
  have hne : rest ≠ [] := by
    rintro rfl
    exact htoken.last (by simp)
  have hsuffix : rest <:+ front ++ '_' :: rest := ⟨front ++ ['_'], by simp⟩
  refine ⟨⟨fun c hc => htoken.chars c (hsuffix.subset hc),
    fun h => htoken.single (h.trans hsuffix.isInfix), fun hhead => htoken.single ?_,
    fun hlast => htoken.last ?_⟩, hne⟩
  · obtain ⟨tail, rfl⟩ := List.head?_eq_some_iff.mp hhead
    exact ⟨front, tail, by simp⟩
  · rw [List.getLast?_append_of_ne_nil _ (List.cons_ne_nil _ _), List.getLast?_cons, hlast]
    rfl

/-- A token that goes on is a token up to every character but an underscore. -/
theorem of_append {front back : List Char} (htoken : IsToken (front ++ back))
    (hlast : front.getLast? ≠ some '_') : IsToken front := by
  have hstart : front <+: front ++ back := List.prefix_append _ _
  refine ⟨fun c hc => htoken.chars c (hstart.subset hc),
    fun h => htoken.single (h.trans hstart.isInfix), fun hhead => htoken.head ?_, hlast⟩
  rw [List.head?_append, hhead]
  rfl

theorem of_cons_cons {c d : Char} {rest : List Char} (htoken : IsToken (c :: d :: rest))
    (hd : d ≠ '_') : IsToken (d :: rest) := by
  refine ⟨fun e he => htoken.chars e (List.mem_cons_of_mem c he),
    fun h => htoken.single (h.trans (List.suffix_cons c _).isInfix), by simpa using hd, ?_⟩
  have hlast := htoken.last
  rwa [List.getLast?_cons_cons] at hlast

/-- A token is made of words joined by underscores. -/
theorem exists_words : ∀ {token : List Char}, IsToken token →
    ∃ words : List (List Char), (∀ word ∈ words, word ≠ [] ∧ ∀ c ∈ word, isTokenChar c = true) ∧
      token = ['_'].intercalate words
  | [], _ => ⟨[], by simp, rfl⟩
  | [c], htoken => by
    have hc : isTokenChar c = true :=
      (htoken.chars c List.mem_cons_self).resolve_right fun h => htoken.head (by rw [h]; rfl)
    exact ⟨[[c]], by simpa using hc, rfl⟩
  | c :: d :: rest, htoken => by
    have hc : isTokenChar c = true :=
      (htoken.chars c List.mem_cons_self).resolve_right fun h => htoken.head (by rw [h]; rfl)
    by_cases hd : d = '_'
    · subst hd
      obtain ⟨hrest, hne⟩ := @of_append_underscore [c] rest htoken
      obtain ⟨words, hwords, heq⟩ := hrest.exists_words
      have hwordsNe : words ≠ [] := by
        rintro rfl
        exact hne heq
      refine ⟨[c] :: words, List.forall_mem_cons.mpr ⟨by simpa using hc, hwords⟩, ?_⟩
      rw [List.intercalate_cons_of_ne_nil hwordsNe, ← heq]
      rfl
    · obtain ⟨words, hwords, heq⟩ := (htoken.of_cons_cons hd).exists_words
      obtain ⟨word, others, rfl⟩ : ∃ word others, words = word :: others :=
        List.exists_cons_of_ne_nil (by rintro rfl; cases heq)
      rw [List.forall_mem_cons] at hwords
      have hword : ∀ e ∈ c :: word, isTokenChar e = true :=
        List.forall_mem_cons.mpr ⟨hc, hwords.1.2⟩
      refine ⟨(c :: word) :: others,
        List.forall_mem_cons.mpr ⟨⟨List.cons_ne_nil _ _, hword⟩, hwords.2⟩, ?_⟩
      rw [heq]
      cases others with
      | nil => rfl
      | cons next others => rfl

end IsToken

/-! ## Kinds -/

/-- A token begins with a kind. -/
def BeginsWithKind (token : List Char) : Prop :=
  ∃ kind ∈ kinds, ∃ rest, token = kind.toList ++ '_' :: rest

theorem dropKind_of_not_beginsWithKind {token : List Char} (hkind : ¬ BeginsWithKind token) :
    dropKind token = token := by
  unfold dropKind
  split
  · rename_i rest hfound
    obtain ⟨kind, hmem, hrest⟩ := List.exists_of_findSome?_eq_some hfound
    rw [eq_append_of_dropStart? hrest] at hkind
    exact absurd ⟨kind, hmem, rest, by simp⟩ hkind
  · rfl

/-- A token begins with one kind at most, which is stripped with its underscore. -/
theorem dropKind_of_kind {kind : String} (hkind : kind ∈ kinds) {rest : List Char}
    (hrest : rest.head? ≠ some '_') : dropKind (kind.toList ++ '_' :: rest) = rest := by
  have hfound : kinds.findSome? (fun kind' => dropStart? (kind'.toList ++ ['_'])
      (kind.toList ++ '_' :: rest)) = some rest := by
    simp only [kinds, List.mem_cons, List.not_mem_nil, or_false] at hkind
    obtain rfl | rfl | rfl | rfl := hkind <;> rfl
  have hkept : rest.dropWhile (· == '_') = rest := by
    cases rest with
    | nil => rfl
    | cons c rest => exact List.dropWhile_cons_of_neg (by simpa using hrest)
  rw [dropKind, hfound]
  exact hkept

/-- Stripping its kind leaves a token, and leaves nothing only of nothing. -/
theorem IsToken.dropKind {token : List Char} (htoken : IsToken token) :
    IsToken (dropKind token) ∧ (Asset.dropKind token = [] → token = []) := by
  by_cases hkind : BeginsWithKind token
  · obtain ⟨kind, hmem, rest, rfl⟩ := hkind
    obtain ⟨hrest, hne⟩ := htoken.of_append_underscore
    rw [dropKind_of_kind hmem hrest.head]
    exact ⟨hrest, fun h => absurd h hne⟩
  · rw [dropKind_of_not_beginsWithKind hkind]
    exact ⟨htoken, id⟩

/-! ## Numbers -/

theorem isNumbers_append {front back : List Char} (hfront : isNumbers front = true)
    (hback : isNumbers back = true) : isNumbers (front ++ back) = true := by
  fun_induction isNumbers front with
  | case1 => exact hback
  | case2 c =>
    cases back with
    | nil => exact hfront
    | cons d back => simp [isNumbers, hfront, hback]
  | case3 c d rest ih =>
    rw [Bool.and_eq_true] at hfront
    rw [List.cons_append, List.cons_append, isNumbers, ← List.cons_append, ih hfront.2, hfront.1]
    rfl

/-- What runs of numbers end with are runs of numbers. -/
theorem isNumbers_of_append {front back : List Char} (hne : back ≠ [])
    (hnumbers : isNumbers (front ++ back) = true) : isNumbers back = true := by
  induction front with
  | nil => exact hnumbers
  | cons c front ih =>
    apply ih
    cases hrest : front ++ back with
    | nil => exact absurd (List.append_eq_nil_iff.mp hrest).2 hne
    | cons d rest =>
      rw [List.cons_append, hrest, isNumbers, Bool.and_eq_true] at hnumbers
      exact hnumbers.2

/-- The numbers stripped from a token are the longest ones at its end. -/
theorem exists_eq_dropNumbers_append (token : List Char) :
    ∃ numbers, token = dropNumbers token ++ numbers ∧ (numbers = [] ∨ isNumbers numbers = true) ∧
      ∀ front back, dropNumbers token = front ++ back → back ≠ [] →
        isNumbers (back ++ numbers) = false := by
  induction token with
  | nil => exact ⟨[], rfl, .inl rfl, by simp [dropNumbers]⟩
  | cons c rest ih =>
    cases hnumbers : isNumbers (c :: rest) with
    | true =>
      have hnone : dropNumbers (c :: rest) = [] := if_pos hnumbers
      rw [hnone]
      refine ⟨c :: rest, rfl, .inr hnumbers, fun front back hnil hne => ?_⟩
      exact absurd (List.append_eq_nil_iff.mp hnil.symm).2 hne
    | false =>
      obtain ⟨numbers, hrest, hrun, hlongest⟩ := ih
      have hkept : dropNumbers (c :: rest) = c :: dropNumbers rest := if_neg (by simp [hnumbers])
      rw [hkept]
      refine ⟨numbers, by rw [List.cons_append, ← hrest], hrun, fun front back hsplit hne => ?_⟩
      cases front with
      | nil => rw [← List.nil_append back, ← hsplit, List.cons_append, ← hrest, hnumbers]
      | cons d front =>
        rw [List.cons_append, List.cons.injEq] at hsplit
        exact hlongest front back hsplit.2 hne

/-- What is no number is not stripped, nor is what stands before it. -/
theorem dropNumbers_append {front back : List Char} (hne : back ≠ [])
    (hback : isNumbers back = false) : dropNumbers (front ++ back) = front ++ dropNumbers back := by
  induction front with
  | nil => rfl
  | cons c front ih =>
    have hkept : ¬ isNumbers (c :: front ++ back) = true := fun h => by
      rw [isNumbers_of_append hne h] at hback
      cases hback
    rw [List.cons_append] at hkept ⊢
    rw [dropNumbers, if_neg hkept, ih, List.cons_append]

/-- Numbers are stripped up to what is neither a digit nor an underscore. -/
theorem dropNumbers_of_plain {front numbers : List Char}
    (hfront : ∀ c ∈ front, isAsciiDigit c = false ∧ c ≠ '_')
    (hnumbers : isNumbers numbers = true) : dropNumbers (front ++ numbers) = front := by
  induction front with
  | nil =>
    cases numbers with
    | nil => rfl
    | cons c rest => exact if_pos hnumbers
  | cons c front ih =>
    obtain ⟨⟨hdigit, hne⟩, hrest⟩ := List.forall_mem_cons.mp hfront
    have hkept : ¬ isNumbers (c :: (front ++ numbers)) = true := by
      cases front ++ numbers with
      | nil => simp [isNumbers, hdigit]
      | cons d rest => simp [isNumbers, hdigit, hne]
    rw [List.cons_append, dropNumbers, if_neg hkept, ih hrest]

/-- Numbers stripped once are not stripped again. -/
theorem dropNumbers_dropNumbers (token : List Char) :
    dropNumbers (dropNumbers token) = dropNumbers token := by
  obtain ⟨numbers, -, hrun, hlongest⟩ := exists_eq_dropNumbers_append token
  obtain ⟨more, hmore, hrun', -⟩ := exists_eq_dropNumbers_append (dropNumbers token)
  obtain rfl | hrun' := hrun'
  · rw [List.append_nil] at hmore
    exact hmore.symm
  · have hne : more ≠ [] := by
      rintro rfl
      cases hrun'
    have hnot := hlongest _ more hmore hne
    obtain rfl | hrun := hrun
    · rw [List.append_nil, hrun'] at hnot
      cases hnot
    · rw [isNumbers_append hrun' hrun] at hnot
      cases hnot

/-- A number may have an underscore before it. -/
theorem isNumbers_underscore {numbers : List Char} (hnumbers : isNumbers numbers = true)
    (hhead : numbers.head? ≠ some '_') : isNumbers ('_' :: numbers) = true := by
  match numbers, hnumbers with
  | [c], hnumbers =>
    have hc : isAsciiDigit c = true := hnumbers
    simp [isNumbers, hc]
  | c :: d :: rest, hnumbers =>
    have hne : (c == '_') = false := by simpa using hhead
    have hc : isAsciiDigit c = true := by
      simp only [isNumbers, hne, Bool.false_and, Bool.or_false, Bool.and_eq_true] at hnumbers
      exact hnumbers.1
    rw [isNumbers, hc, hnumbers]
    rfl

theorem IsToken.dropNumbers {token : List Char} (htoken : IsToken token) :
    IsToken (dropNumbers token) := by
  obtain ⟨numbers, heq, hrun, hlongest⟩ := exists_eq_dropNumbers_append token
  rw [heq] at htoken
  refine htoken.of_append fun hlast => ?_
  -- An underscore at the end belongs to the number that follows it.
  obtain ⟨front, hfront⟩ := List.getLast?_eq_some_iff.mp hlast
  rw [hfront, List.append_assoc, List.singleton_append] at htoken
  obtain ⟨hnumbers, hne⟩ := htoken.of_append_underscore
  have hnot := hlongest front ['_'] hfront (List.cons_ne_nil _ _)
  rw [List.singleton_append, isNumbers_underscore (hrun.resolve_left hne) hnumbers.head] at hnot
  cases hnot

/-! ## The semantic token of a text -/

/-- A token without the numbers at its end, unless it is nothing else. -/
def stripNumbers (token : List Char) : List Char :=
  if dropNumbers token = [] then token else dropNumbers token

theorem IsToken.stripNumbers {token : List Char} (htoken : IsToken token) :
    IsToken (stripNumbers token) := by
  unfold Asset.stripNumbers
  split
  · exact htoken
  · exact htoken.dropNumbers

theorem stripNumbers_stripNumbers (token : List Char) :
    stripNumbers (stripNumbers token) = stripNumbers token := by
  by_cases hnone : dropNumbers token = []
  · have hkept : stripNumbers token = token := if_pos hnone
    rw [hkept, hkept]
  · have hstripped : stripNumbers token = dropNumbers token := if_neg hnone
    rw [hstripped, stripNumbers, dropNumbers_dropNumbers, if_neg hnone]

theorem prefix_stripNumbers (token : List Char) : stripNumbers token <+: token := by
  unfold stripNumbers
  split
  · exact List.prefix_refl token
  · obtain ⟨numbers, heq, -⟩ := exists_eq_dropNumbers_append token
    exact ⟨numbers, heq.symm⟩

/-- The underscores are stripped with the kind and the numbers, and there is always a name left. -/
theorem normalize_eq (text : List Char) :
    normalize text = stripNumbers (dropKind (sanitize text)) := by
  obtain ⟨hnamed, hnil⟩ := (isToken_sanitize text).dropKind
  unfold normalize stripNumbers
  dsimp only
  rw [hnamed.dropNumbers.dropUnderscores_eq]
  by_cases hnone : dropNumbers (dropKind (sanitize text)) = []
  · rw [if_pos hnone, hnone, if_neg (by simp)]
    split
    · rfl
    · rename_i hempty
      have hempty : dropKind (sanitize text) = [] := by simpa using hempty
      rw [hempty, hnil hempty]
  · rw [if_neg hnone, if_pos (by simpa using hnone)]

theorem isToken_normalize (text : List Char) : IsToken (normalize text) := by
  rw [normalize_eq]
  exact (isToken_sanitize text).dropKind.1.stripNumbers

end DesignCompiler.Asset
