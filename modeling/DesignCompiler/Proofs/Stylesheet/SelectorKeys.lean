import DesignCompiler.Stylesheet.Table
import DesignCompiler.Proofs.Text.Splitting
import Mathlib.Data.List.Forall2

/-!
# Keys of nested selectors

A blank ends every token but an unclosed bracket. So a selector inside another has the tokens of the
outer one followed by its own, and its rule is filed under its own last class, or under that of the
outer selector if it has none.
-/

namespace DesignCompiler.Stylesheet

open Text

namespace SelectorToken

/-! ## Brackets -/

/-- A bracket opens at `c` that nothing in the rest closes. -/
def staysOpen (c : Char) (rest : List Char) : Bool :=
  (c == '[' && !rest.contains ']') || (c == '(' && !rest.contains ')')

theorem staysOpen_eq_false_iff {c : Char} {rest : List Char} :
    staysOpen c rest = false ↔
      ((c == '[') = true → ']' ∈ rest) ∧ ((c == '(') = true → ')' ∈ rest) := by
  simp only [staysOpen, Bool.or_eq_false_iff, Bool.and_eq_false_imp, Bool.not_eq_false',
    List.contains_iff_mem]

/-- Reading the text comes to a bracket that is never closed. -/
def endsInBracket : List Char → Bool
  | [] => false
  | c :: rest =>
    if isSkipped c then endsInBracket rest
    else staysOpen c rest || endsInBracket (scan c rest).2
termination_by text => text.length
decreasing_by
  · exact Nat.lt_succ_self _
  · exact Nat.lt_succ_of_le (length_scan_le c rest)

/-! ## Errors -/

/-- Where no name begins, nothing is read. -/
theorem named_of_none {kind : Kind} {opening rest : List Char} {starts : Char → Bool}
    (hnone : (named kind opening starts rest).1 = none) :
    (named kind opening starts rest).2 = rest := by
  rw [named] at hnone ⊢
  split at hnone
  case isTrue => cases hnone
  case isFalse hstarts => rw [if_neg hstarts]

theorem bracketed_of_not_mem (kind : Kind) (opening : Char) {close : Char} {rest : List Char}
    (hclose : close ∉ rest) : bracketed kind opening close rest = (none, []) := by
  have hnil : rest.dropWhile (· != close) = [] := by
    rw [List.dropWhile_eq_nil_iff]
    exact fun c hc => by simpa using ne_of_mem_of_not_mem hc hclose
  rw [bracketed, hnil]

theorem bracketed_of_none {kind : Kind} {opening close : Char} {rest : List Char}
    (hnone : (bracketed kind opening close rest).1 = none) : close ∉ rest := by
  intro hclose
  obtain ⟨c, others, hrest⟩ : ∃ c others, rest.dropWhile (· != close) = c :: others := by
    refine List.exists_cons_of_ne_nil fun hnil => ?_
    simpa using List.dropWhile_eq_nil_iff.mp hnil close hclose
  simp [bracketed, hrest] at hnone

/-- The tokens that begin with a colon. -/
theorem scan_colon (rest : List Char) :
    scan ':' rest = match rest with
      | ':' :: d :: after =>
        if isAsciiLetter d then named .pseudoElement [':', ':'] isAsciiLetter (d :: after)
        else (none, rest)
      | _ => named .pseudoClass [':'] isAsciiLetter rest := rfl

theorem scan_colon_of_none {rest : List Char} (hnone : (scan ':' rest).1 = none) :
    (scan ':' rest).2 = rest := by
  rw [scan_colon] at hnone ⊢
  split at hnone
  case h_1 d after =>
    split at hnone
    case isTrue hletter => simp [named, hletter] at hnone
    case isFalse hletter => rw [if_neg hletter]
  case h_2 => exact named_of_none hnone

/-- A bracket that stays open drops all that follows. -/
theorem tokenize_of_staysOpen {c : Char} {rest : List Char} (hopen : staysOpen c rest = true) :
    tokenize (c :: rest) = [] := by
  have hscan : isSkipped c = false ∧ scan c rest = (none, []) := by
    simp only [staysOpen, Bool.or_eq_true, Bool.and_eq_true, beq_iff_eq, Bool.not_eq_true',
      List.contains_eq_mem, decide_eq_false_iff_not] at hopen
    obtain ⟨rfl, hclose⟩ | ⟨rfl, hclose⟩ := hopen
    · exact ⟨by decide, bracketed_of_not_mem .attribute '[' hclose⟩
    · exact ⟨by decide, bracketed_of_not_mem .arguments '(' hclose⟩
  rw [tokenize, hscan.1, hscan.2]
  simp [tokenize]

/-- Where no token begins, only the one character is dropped, unless it is a bracket that stays
    open. -/
theorem tokenize_of_scan_eq_none {c : Char} {rest : List Char} (hnone : (scan c rest).1 = none)
    (hclosed : staysOpen c rest = false) : tokenize (c :: rest) = tokenize rest := by
  have hscan : (scan c rest).2 = rest := by
    by_cases hcolon : c = ':'
    · subst hcolon
      exact scan_colon_of_none hnone
    rw [staysOpen_eq_false_iff] at hclosed
    revert hnone
    simp only [scan, beq_eq_false_iff_ne.mpr hcolon, Bool.false_eq_true, if_false]
    split
    case isTrue => exact named_of_none
    split
    case isTrue => exact named_of_none
    split
    case isTrue hbracket => exact fun hnone => absurd (hclosed.1 hbracket) (bracketed_of_none hnone)
    split
    case isTrue hbracket => exact fun hnone => absurd (hclosed.2 hbracket) (bracketed_of_none hnone)
    split
    case isTrue => exact fun hnone => nomatch hnone
    case isFalse => exact fun _ => rfl
  rw [tokenize, hnone, hscan]
  split <;> rfl

/-! ## A blank after a token -/

theorem isNameChar_blank : isNameChar ' ' = false := by decide

/-- A name ends at a blank, and none begins there. -/
theorem named_append_blank (kind : Kind) (opening : List Char) {starts : Char → Bool}
    (hstarts : starts ' ' = false) (rest back : List Char) :
    named kind opening starts (rest ++ ' ' :: back) =
      ((named kind opening starts rest).1, (named kind opening starts rest).2 ++ ' ' :: back) := by
  have hblank : ∀ c ∈ (' ' :: back).head?, isNameChar c = false := by simp [isNameChar_blank]
  have hhead : (rest ++ ' ' :: back).head?.any starts = rest.head?.any starts := by
    cases rest <;> simp [hstarts]
  rw [named, named, hhead, takeWhile_append_of_ends (.inr hblank),
    dropWhile_append_of_ends (.inr hblank)]
  split <;> rfl

/-- A closed bracket ends where it did, whatever follows. -/
theorem bracketed_append (kind : Kind) (opening : Char) {close : Char} {rest : List Char}
    (hclose : close ∈ rest) (more : List Char) :
    bracketed kind opening close (rest ++ more) =
      ((bracketed kind opening close rest).1, (bracketed kind opening close rest).2 ++ more) := by
  obtain ⟨inside, after, rfl, hinside⟩ := List.eq_append_cons_of_mem hclose
  have hplain : ∀ c ∈ inside, (c != close) = true := fun c hc => by
    simpa using ne_of_mem_of_not_mem hc hinside
  have hread : ∀ tail : List Char, bracketed kind opening close (inside ++ close :: tail) =
      (some ⟨kind, opening :: inside ++ [close]⟩, tail) := by
    intro tail
    rw [bracketed, dropWhile_append_of_head? hplain (by simp),
      takeWhile_append_of_head? hplain (by simp)]
  rw [List.append_assoc, List.cons_append, hread, hread]

/-- What begins at a colon is the same when a blank and more text follow. -/
theorem scan_colon_append_blank (rest back : List Char) :
    scan ':' (rest ++ ' ' :: back) = ((scan ':' rest).1, (scan ':' rest).2 ++ ' ' :: back) := by
  have hblank : isAsciiLetter ' ' = false := by decide
  cases rest with
  | nil => rfl
  | cons d after =>
    by_cases hsecond : d = ':'
    · subst hsecond
      cases after with
      | nil => rfl
      | cons e others =>
        simp only [scan_colon, List.cons_append]
        split
        · exact named_append_blank _ _ hblank (e :: others) back
        · rfl
    · have hread : ∀ tail : List Char, scan ':' (d :: tail) =
          named .pseudoClass [':'] isAsciiLetter (d :: tail) := by
        intro tail
        rw [scan_colon]
        split
        · rename_i htail
          exact absurd (List.cons.inj htail).1 hsecond
        · rfl
      rw [List.cons_append, hread, hread]
      exact named_append_blank _ _ hblank (d :: after) back

/-- What begins at a character is the same when a blank and more text follow, unless it is a bracket
    that stays open. -/
theorem scan_append_blank {c : Char} {rest : List Char} (hclosed : staysOpen c rest = false)
    (back : List Char) :
    scan c (rest ++ ' ' :: back) = ((scan c rest).1, (scan c rest).2 ++ ' ' :: back) := by
  by_cases hcolon : c = ':'
  · subst hcolon
    exact scan_colon_append_blank rest back
  rw [staysOpen_eq_false_iff] at hclosed
  simp only [scan, beq_eq_false_iff_ne.mpr hcolon, Bool.false_eq_true, if_false]
  split
  case isTrue => exact named_append_blank _ _ isNameChar_blank rest back
  split
  case isTrue => exact named_append_blank _ _ (by decide) rest back
  split
  case isTrue hbracket => exact bracketed_append _ _ (hclosed.1 hbracket) _
  split
  case isTrue hbracket => exact bracketed_append _ _ (hclosed.2 hbracket) _
  split
  case isTrue =>
    have hblank : ∀ d ∈ (' ' :: back).head?, isNameChar d = false := by simp [isNameChar_blank]
    rw [takeWhile_append_of_ends (.inr hblank), dropWhile_append_of_ends (.inr hblank)]
  case isFalse => rfl

/-- A bracket that is closed stays so, and what is no bracket opens none. -/
theorem staysOpen_append_blank {c : Char} {rest : List Char} (hclosed : staysOpen c rest = false)
    (back : List Char) : staysOpen c (rest ++ ' ' :: back) = false := by
  rw [staysOpen_eq_false_iff] at hclosed ⊢
  exact ⟨fun h => List.mem_append_left _ (hclosed.1 h),
    fun h => List.mem_append_left _ (hclosed.2 h)⟩

/-- The tokens of two texts with a blank between them are those of the first and those of the
    second. -/
theorem tokenize_append_blank {front : List Char} (hclosed : endsInBracket front = false)
    (back : List Char) : tokenize (front ++ ' ' :: back) = tokenize front ++ tokenize back := by
  fun_induction endsInBracket front with
  | case1 =>
    have hskipped : isSkipped ' ' = true := by decide
    simp only [List.nil_append, tokenize, hskipped, if_true]
  | case2 c rest hskipped ih =>
    rw [List.cons_append, tokenize, tokenize, if_pos hskipped, if_pos hskipped, ih hclosed]
  | case3 c rest hskipped ih =>
    rw [Bool.or_eq_false_iff] at hclosed
    rw [List.cons_append, tokenize, tokenize, if_neg hskipped, if_neg hskipped,
      scan_append_blank hclosed.1, ih hclosed.2, List.append_assoc]

/-- Reading on after a blank, only what follows can end in a bracket. -/
theorem endsInBracket_append_blank {front : List Char} (hclosed : endsInBracket front = false)
    (back : List Char) : endsInBracket (front ++ ' ' :: back) = endsInBracket back := by
  fun_induction endsInBracket front with
  | case1 =>
    have hskipped : isSkipped ' ' = true := by decide
    simp only [List.nil_append, endsInBracket, hskipped, if_true]
  | case2 c rest hskipped ih =>
    rw [List.cons_append, endsInBracket, if_pos hskipped, ih hclosed]
  | case3 c rest hskipped ih =>
    rw [Bool.or_eq_false_iff] at hclosed
    rw [List.cons_append, endsInBracket, if_neg hskipped, scan_append_blank hclosed.1, ih hclosed.2,
      staysOpen_append_blank hclosed.1, Bool.false_or]

end SelectorToken

open SelectorToken

/-! ## Keys -/

/-- The last class of two selectors with a blank between them is that of the second, or that of the
    first if the second has none. -/
theorem lastClassName?_append_blank {front : List Char} (hclosed : endsInBracket front = false)
    (back : List Char) :
    lastClassName? (String.ofList (front ++ ' ' :: back)) =
      (lastClassName? (String.ofList back)).or (lastClassName? (String.ofList front)) := by
  simp only [lastClassName?, classNames, String.toList_ofList, tokenize_append_blank hclosed,
    List.filter_append, List.map_append, List.getLast?_append]

/-- The selectors of a nested block. A block without any has a blank one. -/
def blockSelectors (current : String) : List (List Char) :=
  if (selectorList current.toList).isEmpty then [[]] else selectorList current.toList

/-- The pairs of a parent and a nested selector that a nested block applies to. -/
def selectorPairs (parents : List String) (current : String) : List (List Char × List Char) :=
  parents.flatMap fun parent => (blockSelectors current).map fun child => (parent.toList, child)

/-- A selector is filed as one inside another: under the last class of the nested selector, or that
    of the parent if the nested one has none. It ends in a bracket just as the nested one does, so
    that it can be a parent in turn. -/
structure FiledUnder (pair : List Char × List Char) (resolved : String) : Prop where
  key : lastClassName? resolved =
    (lastClassName? (String.ofList pair.2)).or (lastClassName? (String.ofList pair.1))
  bracket : endsInBracket resolved.toList = endsInBracket pair.2

theorem lastClassName?_nil : lastClassName? (String.ofList []) = none := by decide +kernel

/-- A block without selectors of its own has those of its parents. -/
theorem filedUnder_self {parent : String} (hclosed : endsInBracket parent.toList = false) :
    FiledUnder (parent.toList, []) parent := by
  refine ⟨?_, ?_⟩
  · rw [lastClassName?_nil, Option.none_or, String.ofList_toList]
  · rw [hclosed, endsInBracket]

theorem filedUnder_resolveSelector {parent child : List Char}
    (hclosed : endsInBracket parent = false) (hparent : '&' ∉ child) :
    FiledUnder (parent, child) (String.ofList (resolveSelector parent child)) := by
  rw [resolveSelector]
  split
  · rename_i hempty
    obtain rfl := List.isEmpty_iff.mp hempty
    refine ⟨?_, by rw [String.toList_ofList]⟩
    rw [lastClassName?_nil, Option.or_none]
  · rw [if_neg (by simpa using hparent)]
    refine ⟨lastClassName?_append_blank hclosed child, ?_⟩
    rw [String.toList_ofList, endsInBracket_append_blank hclosed]

/-- Each pair of a parent and a nested selector is filed as one inside the other. -/
theorem forall₂_combineSelectors (parents : List String) (current : String) :
    List.Forall₂
      (fun pair resolved => endsInBracket pair.1 = false → '&' ∉ pair.2 → FiledUnder pair resolved)
      (selectorPairs parents current) (combineSelectors parents current) := by
  rw [combineSelectors, selectorPairs, blockSelectors]
  split
  · simp only [List.map_singleton]
    rw [← List.map_eq_flatMap, List.forall₂_map_left_iff, List.forall₂_same]
    exact fun parent _ hclosed _ => filedUnder_self hclosed
  · refine List.rel_flatMap (List.forall₂_same.mpr fun _ _ => rfl) ?_
    rintro parent _ rfl
    rw [List.forall₂_map_left_iff, List.forall₂_map_right_iff, List.forall₂_same]
    exact fun child _ hclosed hparent => filedUnder_resolveSelector hclosed hparent

/-- The keys of selectors are stable under nesting. The tokens of two texts with a blank between
    them are those of the one and then those of the other, if the first does not end in a bracket;
    what is no token drops one character, and a bracket that stays open all that follows. So each
    pair of a parent and a nested selector without `&` is filed under the last class of the nested
    selector, or of the parent. -/
theorem filedUnder_nested :
    (∀ front back : List Char, endsInBracket front = false →
      tokenize (front ++ ' ' :: back) = tokenize front ++ tokenize back) ∧
    (∀ c rest, (scan c rest).1 = none → staysOpen c rest = false →
      tokenize (c :: rest) = tokenize rest) ∧
    (∀ c rest, staysOpen c rest = true → tokenize (c :: rest) = []) ∧
    ∀ (parents : List String) (current : String),
      List.Forall₂
        (fun pair resolved => endsInBracket pair.1 = false → '&' ∉ pair.2 →
          FiledUnder pair resolved)
        (selectorPairs parents current) (combineSelectors parents current) :=
  ⟨fun _ back hclosed => tokenize_append_blank hclosed back,
    fun _ _ => tokenize_of_scan_eq_none, fun _ _ => tokenize_of_staysOpen,
    forall₂_combineSelectors⟩

/-- A parent with closed brackets that hold a class, and two nested selectors, one without a class;
    a lone dot, and a bracket that is not closed. -/
theorem filedUnder_nested_card :
    endsInBracket ".card:not([data-x='.b'])".toList = false ∧
      tokenize (".card:not([data-x='.b'])".toList ++ ' ' :: "> li".toList) =
        tokenize ".card:not([data-x='.b'])".toList ++ tokenize "> li".toList ∧
      tokenize ".>.a".toList = tokenize ">.a".toList ∧ tokenize "[b .a".toList = [] ∧
      lastClassName? ".card:not([data-x='.b']) > li" = some "card" ∧
      lastClassName? ".card:not([data-x='.b']) .title:hover" = some "title" := by
  have hclosed : endsInBracket ".card:not([data-x='.b'])".toList = false := by decide +kernel
  obtain ⟨htokens, hlone, hopen, hpairs⟩ := filedUnder_nested
  have hcard := hpairs [".card:not([data-x='.b'])"] "> li, .title:hover"
  have hresolved : combineSelectors [".card:not([data-x='.b'])"] "> li, .title:hover" =
      [".card:not([data-x='.b']) > li", ".card:not([data-x='.b']) .title:hover"] := by
    decide +kernel
  have hsources : selectorPairs [".card:not([data-x='.b'])"] "> li, .title:hover" =
      [(".card:not([data-x='.b'])".toList, "> li".toList),
        (".card:not([data-x='.b'])".toList, ".title:hover".toList)] := by decide +kernel
  rw [hresolved, hsources] at hcard
  obtain ⟨hlist, hcard⟩ := List.forall₂_cons.mp hcard
  obtain ⟨htitle, -⟩ := List.forall₂_cons.mp hcard
  refine ⟨hclosed, htokens _ _ hclosed, hlone '.' ">.a".toList (by decide) (by decide),
    hopen '[' "b .a".toList (by decide), ?_, ?_⟩
  · rw [(hlist hclosed (by decide)).key]
    decide +kernel
  · rw [(htitle hclosed (by decide)).key]
    decide +kernel

end DesignCompiler.Stylesheet
