import DesignCompiler.Proofs.Asset.Token
import DesignCompiler.Proofs.Text.Splitting

/-!
# Identifiers of assets

Whatever characters a path is written with, its identifier is one of generated code: it begins with
a small letter, and letters, digits and underscores follow.
-/

namespace DesignCompiler.Asset

open Text

/-- A character that an identifier goes on with. -/
def isIdentifierChar (c : Char) : Bool := isAsciiAlphanumeric c || c == '_'

/-- A small letter followed by letters, digits and underscores. -/
def IsIdentifier (name : String) : Prop :=
  ∃ first rest, name.toList = first :: rest ∧ 'a' ≤ first ∧ first ≤ 'z' ∧
    ∀ c ∈ rest, isIdentifierChar c = true

/-! ## Characters -/

private theorem toNat_lt_of_isIdentifierChar {c : Char} (hc : isIdentifierChar c = true) :
    c.toNat < 128 := by
  obtain halphanumeric | hunderscore := (Bool.or_eq_true _ _).mp hc
  · exact toNat_lt_of_isAsciiAlphanumeric halphanumeric
  · rw [beq_iff_eq.mp hunderscore]
    decide

/-- What holds of the ASCII characters holds of those in identifiers. -/
private theorem forall_isIdentifierChar {P : Char → Prop}
    (hcodes : ∀ code < 128, isIdentifierChar (Char.ofNat code) = true → P (Char.ofNat code))
    {c : Char} (hc : isIdentifierChar c = true) : P c :=
  forall_of_ascii toNat_lt_of_isIdentifierChar hcodes hc

theorem isWord_of_isIdentifierChar {c : Char} (hc : isIdentifierChar c = true) :
    isWord c = true :=
  isWord_of_asciiWord hc

theorem isIdentifierChar_toUpper {c : Char} (hc : isIdentifierChar c = true) :
    isIdentifierChar c.toUpper = true :=
  forall_isIdentifierChar (P := fun c => isIdentifierChar c.toUpper = true) (by decide) hc

theorem isIdentifierChar_of_isTokenChar {c : Char} (hc : isTokenChar c = true) :
    isIdentifierChar c = true := by
  rw [isIdentifierChar, isAsciiAlphanumeric_of_isTokenChar hc]
  rfl

theorem isIdentifierChar_of_small {c : Char} (hlow : 'a' ≤ c) (hhigh : c ≤ 'z') :
    isIdentifierChar c = true := by
  apply isIdentifierChar_of_isTokenChar
  simp [isTokenChar, hlow, hhigh]

/-! ## Tokens -/

theorem IsToken.isIdentifierChar_of_mem {token : List Char} (htoken : IsToken token) {c : Char}
    (hc : c ∈ token) : isIdentifierChar c = true := by
  obtain hchar | rfl := htoken.chars c hc
  · exact isIdentifierChar_of_isTokenChar hchar
  · decide

theorem isIdentifierChar_of_mem_sanitize {c : Char} {text : List Char} (hc : c ∈ sanitize text) :
    isIdentifierChar c = true :=
  (isToken_sanitize text).isIdentifierChar_of_mem hc

theorem isIdentifierChar_of_mem_pascal {c : Char} {text : List Char} (hc : c ∈ pascal text) :
    isIdentifierChar c = true := by
  obtain ⟨piece, hpiece, hmem⟩ := List.mem_flatMap.mp hc
  have hchars : ∀ d ∈ piece, isIdentifierChar d = true := fun d hd =>
    isIdentifierChar_of_mem_sanitize (mem_of_mem_splitOn hpiece hd)
  cases piece with
  | nil => cases hmem
  | cons d rest =>
    rw [List.forall_mem_cons] at hchars
    obtain rfl | hrest := List.mem_cons.mp hmem
    · exact isIdentifierChar_toUpper hchars.1
    · exact hchars.2 c hrest

/-! ## Identifiers -/

private theorem isIdentifier_ofList {first : Char} {rest : List Char} (hlow : 'a' ≤ first)
    (hhigh : first ≤ 'z') (hrest : ∀ c ∈ rest, isIdentifierChar c = true) :
    IsIdentifier (String.ofList (first :: rest)) :=
  ⟨first, rest, String.toList_ofList, hlow, hhigh, hrest⟩

/-- Digits may follow an identifier. -/
theorem IsIdentifier.append {name back : String} (hname : IsIdentifier name)
    (hback : ∀ c ∈ back.toList, isIdentifierChar c = true) : IsIdentifier (name ++ back) := by
  obtain ⟨first, rest, heq, hlow, hhigh, hrest⟩ := hname
  refine ⟨first, rest ++ back.toList, ?_, hlow, hhigh, ?_⟩
  · rw [String.toList_append, heq, List.cons_append]
  · exact List.forall_mem_append.mpr ⟨hrest, hback⟩

theorem IsIdentifier.forall_isIdentifierChar {name : String} (hname : IsIdentifier name) :
    ∀ c ∈ name.toList, isIdentifierChar c = true := by
  obtain ⟨first, rest, heq, hlow, hhigh, hrest⟩ := hname
  rw [heq, List.forall_mem_cons]
  exact ⟨isIdentifierChar_of_small hlow hhigh, hrest⟩

theorem IsIdentifier.toList_ne_nil {name : String} (hname : IsIdentifier name) :
    name.toList ≠ [] := by
  obtain ⟨first, rest, heq, -⟩ := hname
  simp [heq]

theorem isIdentifier_constantName (path : String) : IsIdentifier (constantName path) := by
  rw [constantName]
  split
  · exact ⟨'a', "ssetGenerated".toList, by decide, by decide, by decide,
      List.all_eq_true.mp (by decide)⟩
  · rename_i first rest htokens
    have hpascals : ∀ c ∈ rest.flatMap pascal, isIdentifierChar c = true := by
      intro c hc
      obtain ⟨token, -, hmem⟩ := List.mem_flatMap.mp hc
      exact isIdentifierChar_of_mem_pascal hmem
    dsimp only
    split
    · -- A token that begins with a small letter stands as it is.
      rename_i hsmall
      have hfirst : first ∈ pathTokens path.toList := by simp [htokens]
      obtain ⟨piece, -, rfl⟩ := List.mem_map.mp (List.mem_filter.mp hfirst).1
      cases hpiece : sanitize piece with
      | nil => simp [hpiece] at hsmall
      | cons c others =>
        simp only [hpiece, List.head?_cons, Option.any_some, Bool.and_eq_true,
          decide_eq_true_eq] at hsmall
        have hothers : ∀ d ∈ others, isIdentifierChar d = true := fun d hd =>
          isIdentifierChar_of_mem_sanitize (hpiece ▸ List.mem_cons_of_mem c hd)
        exact isIdentifier_ofList hsmall.1 hsmall.2 (List.forall_mem_append.mpr ⟨hothers, hpascals⟩)
    · have hasset : ∀ c ∈ "sset".toList ++ pascal first, isIdentifierChar c = true :=
        List.forall_mem_append.mpr
          ⟨List.all_eq_true.mp (by decide), fun c => isIdentifierChar_of_mem_pascal⟩
      exact @isIdentifier_ofList 'a' _ (by decide) (by decide)
        (List.forall_mem_append.mpr ⟨hasset, hpascals⟩)

end DesignCompiler.Asset
