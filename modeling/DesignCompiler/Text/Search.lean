/-!
# Searching and splitting

A search returns what stands before and after the first occurrence, so that nothing has to be
counted or indexed.
-/

namespace DesignCompiler.Text

/-- The rest of a text that begins with `start`. -/
def dropStart? : List Char → List Char → Option (List Char)
  | [], text => some text
  | _ :: _, [] => none
  | s :: start, c :: text => if s = c then dropStart? start text else none

theorem eq_append_of_dropStart? {start text rest : List Char}
    (h : dropStart? start text = some rest) : text = start ++ rest := by
  fun_induction dropStart? start text with
  | case1 => simp_all
  | case2 => cases h
  | case3 s start text ih => simp [ih h]
  | case4 => cases h

/-- The text before and after the first occurrence of `needle`. -/
def cut? (needle : List Char) : List Char → Option (List Char × List Char)
  | [] => if needle.isEmpty then some ([], []) else none
  | c :: rest =>
    match dropStart? needle (c :: rest) with
    | some after => some ([], after)
    | none => (cut? needle rest).map fun (before, after) => (c :: before, after)

/-- A cut loses nothing but the occurrence found. -/
theorem eq_append_of_cut? {needle text before after : List Char}
    (h : cut? needle text = some (before, after)) : text = before ++ needle ++ after := by
  induction text generalizing before after with
  | nil =>
    unfold cut? at h
    split at h
    · simp_all
    · cases h
  | cons c rest ih =>
    unfold cut? at h
    split at h
    · rename_i tail htail
      cases h
      simpa using eq_append_of_dropStart? htail
    · cases hcut : cut? needle rest with
      | none => simp [hcut] at h
      | some pair =>
        obtain ⟨front, back⟩ := pair
        simp only [hcut, Option.map_some, Option.some.injEq, Prod.mk.injEq] at h
        obtain ⟨rfl, rfl⟩ := h
        simp [ih hcut]

/-- The text before and after the last occurrence of `needle`. -/
def cutLast? (needle text : List Char) : Option (List Char × List Char) :=
  (cut? needle.reverse text.reverse).map fun (after, before) => (before.reverse, after.reverse)

/-- Whether `needle` occurs in the text. -/
def occursIn (needle text : List Char) : Bool := (cut? needle text).isSome

/-- Whether the text begins with `start`. -/
def startsWith (start text : List Char) : Bool := start.isPrefixOf text

/-- Whether the text ends with `ending`. -/
def endsWith (ending text : List Char) : Bool := ending.isSuffixOf text

/-- The front of a text that ends with `ending`. -/
def dropEnd? (ending text : List Char) : Option (List Char) :=
  (dropStart? ending.reverse text.reverse).map List.reverse

theorem eq_append_of_dropEnd? {ending text front : List Char}
    (h : dropEnd? ending text = some front) : text = front ++ ending := by
  obtain ⟨reversed, hdrop, rfl⟩ := Option.map_eq_some_iff.mp h
  have := eq_append_of_dropStart? hdrop
  simpa using congrArg List.reverse this

/-- The text before and after the first character of a class, that character left out. -/
def cutAt? (separates : Char → Bool) : List Char → Option (List Char × List Char)
  | [] => none
  | c :: rest =>
    if separates c then some ([], rest)
    else (cutAt? separates rest).map fun (before, after) => (c :: before, after)

theorem length_of_cutAt? {separates : Char → Bool} {text before after : List Char}
    (h : cutAt? separates text = some (before, after)) :
    text.length = before.length + 1 + after.length := by
  induction text generalizing before after with
  | nil => cases h
  | cons c rest ih =>
    unfold cutAt? at h
    split at h
    · cases h
      simp only [List.length_cons, List.length_nil]
      omega
    · obtain ⟨⟨front, back⟩, hrest, hpair⟩ := Option.map_eq_some_iff.mp h
      cases hpair
      have := ih hrest
      simp only [List.length_cons]
      omega

/-- The pieces between the characters of a class; at least one, possibly empty. -/
def splitOn (separates : Char → Bool) : List Char → List (List Char)
  | [] => [[]]
  | c :: rest =>
    if separates c then [] :: splitOn separates rest
    else match splitOn separates rest with
      | [] => [[c]]
      | piece :: pieces => (c :: piece) :: pieces

/-- The text with each occurrence of the character `target` replaced by `replacement`. -/
def replaceChar (target : Char) (replacement text : List Char) : List Char :=
  text.flatMap fun c => if c == target then replacement else [c]

/-- The values of the non-overlapping matches in a text, from left to right. At each place
    `found?` is asked, given the character before it and the text from there on, and answers with a
    value and the number of characters matched; the first `skip` characters belong to a match
    already found. -/
def matchesFrom {α : Type} (found? : Option Char → List Char → Option (α × Nat)) (skip : Nat)
    (previous : Option Char) : List Char → List α
  | [] => []
  | c :: rest =>
    match skip with
    | n + 1 => matchesFrom found? n (some c) rest
    | 0 =>
      match found? previous (c :: rest) with
      | some (value, length) => value :: matchesFrom found? (length - 1) (some c) rest
      | none => matchesFrom found? 0 (some c) rest

/-- The values of the non-overlapping matches in a text, from left to right. -/
def allMatches {α : Type} (found? : Option Char → List Char → Option (α × Nat))
    (text : List Char) : List α := matchesFrom found? 0 none text

/-- The first match in a text that follows the character `previous`: the text before it, its value
    and the text after it. -/
def firstMatchFrom? {α : Type} (found? : Option Char → List Char → Option (α × Nat))
    (previous : Option Char) : List Char → Option (List Char × α × List Char)
  | [] => none
  | c :: rest =>
    match found? previous (c :: rest) with
    | some (value, length) => some ([], value, (c :: rest).drop length)
    | none =>
      (firstMatchFrom? found? (some c) rest).map fun (before, found) => (c :: before, found)

/-- The first match in a text: the text before it, its value and the text after it. -/
def firstMatch? {α : Type} (found? : Option Char → List Char → Option (α × Nat))
    (text : List Char) : Option (List Char × α × List Char) := firstMatchFrom? found? none text

/-- Apply a change of character lists to a string. -/
def onChars (change : List Char → List Char) (text : String) : String :=
  String.ofList (change text.toList)

end DesignCompiler.Text
