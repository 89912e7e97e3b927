import DesignCompiler.Dart.Render

/-!
# String literals

What a single-quoted literal denotes, by the rules of the language. A text put between quotes as it
is denotes itself only if it holds nothing that a literal has to escape. The literals of generated
code are read as the texts they were made from, and a reader finds the end of one by itself,
whatever follows it.
-/

namespace DesignCompiler.Dart

/-- The characters that mean something else than themselves in a literal: its end, an escape, an
interpolation, and line breaks, which it must not hold. -/
def literalMarks : List Char := ['\'', '\\', '$', '\n', '\r']

/-- The letters that stand for a control character after a backslash. -/
def controlEscapes : List (Char × Char) :=
  [('n', '\n'), ('r', '\r'), ('t', '\t'), ('b', Char.ofNat 8), ('v', Char.ofNat 11),
    ('f', Char.ofNat 12)]

/-- What stands between the quotes of a literal, and the text that the literal denotes. Escapes by
code point and of characters that need none are left out. -/
inductive LiteralDenotes : List Char → List Char → Prop where
  | nil : LiteralDenotes [] []
  | plain {c : Char} {literal value : List Char} :
      c ∉ literalMarks → LiteralDenotes literal value → LiteralDenotes (c :: literal) (c :: value)
  | control {mark c : Char} {literal value : List Char} :
      (mark, c) ∈ controlEscapes → LiteralDenotes literal value →
      LiteralDenotes ('\\' :: mark :: literal) (c :: value)
  | escaped {c : Char} {literal value : List Char} :
      c ∈ ['\'', '\\', '$'] → LiteralDenotes literal value →
      LiteralDenotes ('\\' :: c :: literal) (c :: value)

theorem literalDenotes_self {text : List Char} (htext : ∀ c ∈ text, c ∉ literalMarks) :
    LiteralDenotes text text := by
  induction text with
  | nil => exact .nil
  | cons c rest ih =>
    rw [List.forall_mem_cons] at htext
    exact .plain htext.1 (ih htext.2)

/-- Without a backslash a literal denotes at most what it holds. -/
theorem LiteralDenotes.eq_of_not_mem {literal value : List Char}
    (hdenotes : LiteralDenotes literal value) (hslash : '\\' ∉ literal) :
    literal = value ∧ ∀ c ∈ literal, c ∉ literalMarks := by
  induction hdenotes with
  | nil => exact ⟨rfl, by simp⟩
  | plain hc _ ih =>
    rw [List.mem_cons, not_or] at hslash
    obtain ⟨heq, hrest⟩ := ih hslash.2
    exact ⟨by rw [heq], List.forall_mem_cons.mpr ⟨hc, hrest⟩⟩
  | control _ _ _ => exact absurd List.mem_cons_self hslash
  | escaped _ _ _ => exact absurd List.mem_cons_self hslash

/-! ## Reading -/

/-- The character that stands after a backslash for another one, or for itself. -/
def unescaped : Char → Char
  | 'n' => '\n'
  | 'r' => '\r'
  | 't' => '\t'
  | c => c

/-- The text of a literal from behind its opening quote, and what follows its closing quote. There
    is none if the literal does not end, if it goes over a line break or holds an interpolation. -/
def literalBody? : List Char → Option (List Char × List Char)
  | [] => none
  | '\'' :: rest => some ([], rest)
  | '\\' :: c :: rest =>
    (literalBody? rest).map fun (text, after) => (unescaped c :: text, after)
  | c :: rest =>
    if c ∈ literalMarks then none
    else (literalBody? rest).map fun (text, after) => (c :: text, after)

/-- The text of the literal that a text begins with, and what follows the literal. -/
def readLiteral? : List Char → Option (List Char × List Char)
  | '\'' :: rest => literalBody? rest
  | _ => none

theorem literalBody?_cons {c : Char} (hc : c ∉ literalMarks) (rest : List Char) :
    literalBody? (c :: rest) =
      (literalBody? rest).map fun (text, after) => (c :: text, after) := by
  rw [literalBody?, if_neg hc]
  · rintro rfl
    exact hc (by decide)
  · rintro d tail rfl
    exact absurd (by decide) hc

/-- What a character is written as is read as the character. -/
theorem literalBody?_escapeChar (c : Char) (rest : List Char) :
    literalBody? (escapeChar c ++ rest) =
      (literalBody? rest).map fun (text, after) => (c :: text, after) := by
  unfold escapeChar
  split
  · rfl
  · rfl
  · rfl
  · rfl
  · rfl
  · rfl
  · apply literalBody?_cons
    simp only [literalMarks, List.mem_cons, List.not_mem_nil, or_false, not_or]
    exact ⟨‹_›, ‹_›, ‹_›, ‹_›, ‹_›⟩

/-- The literal of a text is read as the text, and no character of what follows it is. -/
theorem readLiteral?_stringLiteral (text : String) (rest : List Char) :
    readLiteral? ((stringLiteral text).toList ++ rest) = some (text.toList, rest) := by
  have hbody : ∀ chars : List Char,
      literalBody? (chars.flatMap escapeChar ++ '\'' :: rest) = some (chars, rest) := by
    intro chars
    induction chars with
    | nil => rfl
    | cons c chars ih =>
      rw [List.flatMap_cons, List.append_assoc, literalBody?_escapeChar, ih]
      rfl
  have hliteral : (stringLiteral text).toList ++ rest =
      '\'' :: (text.toList.flatMap escapeChar ++ '\'' :: rest) := by
    rw [stringLiteral, String.toList_ofList, List.append_assoc]
    rfl
  rw [hliteral, readLiteral?, hbody]

end DesignCompiler.Dart
