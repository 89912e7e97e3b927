import Mathlib.Data.Char
import Mathlib.Data.List.Lex
import Mathlib.Data.String.Basic

/-!
# Bytes of a text

Texts are ordered by their characters. UTF-8 keeps that order, so the smaller text is also the one
with the smaller bytes.
-/

namespace DesignCompiler.Text

/-- The bytes of a character, as numbers. -/
def charBytes (c : Char) : List Nat := (String.utf8EncodeChar c).map UInt8.toNat

/-- The bytes of a text, as numbers. -/
def bytes (text : String) : List Nat := text.toUTF8.data.toList.map UInt8.toNat

theorem bytes_eq_flatMap (text : String) : bytes text = text.toList.flatMap charBytes := by
  have hencode : text.toUTF8 = text.toList.utf8Encode := String.utf8Encode_toList.symm
  rw [bytes, hencode, List.utf8Encode, List.data_toByteArray, List.map_flatMap]
  rfl

theorem length_bytes (text : String) : (bytes text).length = text.utf8ByteSize := by
  rw [bytes, List.length_map, Array.length_toList]
  rfl

theorem toNat_lt_size (c : Char) : c.toNat < 0x110000 := by
  obtain hlow | ⟨-, hhigh⟩ := c.valid
  · exact Nat.lt_trans hlow (by decide)
  · exact hhigh

/-- The first byte of a character tells how many there are, and all bytes together are its code. -/
theorem charBytes_eq (c : Char) :
    charBytes c =
      if c.toNat < 0x80 then [c.toNat]
      else if c.toNat < 0x800 then [c.toNat / 64 + 192, c.toNat % 64 + 128]
      else if c.toNat < 0x10000 then
        [c.toNat / 4096 + 224, c.toNat / 64 % 64 + 128, c.toNat % 64 + 128]
      else [c.toNat / 262144 + 240, c.toNat / 4096 % 64 + 128, c.toNat / 64 % 64 + 128,
        c.toNat % 64 + 128] := by
  have hsize := toNat_lt_size c
  have hcode : c.val.toNat = c.toNat := rfl
  unfold charBytes String.utf8EncodeChar
  dsimp only
  rw [hcode]
  generalize c.toNat = n at hsize
  split_ifs <;> simp <;> omega

/-- A smaller character has smaller bytes, whatever follows it. -/
theorem charBytes_append_lt {c d : Char} (hlt : c < d) (front back : List Nat) :
    charBytes c ++ front < charBytes d ++ back := by
  have hcode : c.toNat < d.toNat := hlt
  have hd := toNat_lt_size d
  rw [charBytes_eq, charBytes_eq]
  split_ifs <;> simp only [List.cons_append, List.nil_append, List.cons_lt_cons_iff] <;> omega

theorem charBytes_ne_nil (c : Char) : charBytes c ≠ [] := by
  rw [charBytes_eq]
  split_ifs <;> simp

theorem strictMono_flatMap_charBytes :
    StrictMono fun text : List Char => text.flatMap charBytes := by
  intro text other hlt
  induction hlt with
  | @nil c rest =>
    obtain ⟨first, others, hfirst⟩ := List.exists_cons_of_ne_nil (charBytes_ne_nil c)
    simp only [List.flatMap_nil, List.flatMap_cons, hfirst, List.cons_append]
    exact List.nil_lt_cons _ _
  | @cons c text other hlt ih =>
    simp only [List.flatMap_cons]
    exact List.Lex.append_left _ ih (charBytes c)
  | rel hlt =>
    simp only [List.flatMap_cons]
    exact charBytes_append_lt hlt _ _

/-- Texts are ordered as their bytes are. -/
theorem bytes_lt_iff {text other : String} : bytes text < bytes other ↔ text < other := by
  rw [bytes_eq_flatMap, bytes_eq_flatMap, strictMono_flatMap_charBytes.lt_iff_lt,
    String.lt_iff_toList_lt]

theorem bytes_injective : Function.Injective bytes := by
  intro text other hsame
  apply le_antisymm
  · rw [← not_lt, ← bytes_lt_iff, hsame]
    exact lt_irrefl _
  · rw [← not_lt, ← bytes_lt_iff, hsame]
    exact lt_irrefl _

/-! ## Scanning the bytes -/

/-- The bytes of the characters. -/
def utf8 (text : List Char) : List Nat := text.flatMap charBytes

theorem utf8_cons (c : Char) (text : List Char) : utf8 (c :: text) = charBytes c ++ utf8 text := rfl

theorem utf8_append (front back : List Char) : utf8 (front ++ back) = utf8 front ++ utf8 back :=
  List.flatMap_append

/-- A character is one byte with its code, or none of its bytes is that of an ASCII character. -/
theorem charBytes_cases (c : Char) :
    (c.toNat < 0x80 ∧ charBytes c = [c.toNat]) ∨
      (0x80 ≤ c.toNat ∧ ∀ b ∈ charBytes c, 0x80 ≤ b) := by
  rw [charBytes_eq]
  split
  case isTrue hascii => exact .inl ⟨hascii, rfl⟩
  case isFalse hhigh =>
    refine .inr ⟨Nat.not_lt.mp hhigh, ?_⟩
    split_ifs <;> simp

theorem utf8_cons_of_lt {c : Char} (hc : c.toNat < 0x80) (text : List Char) :
    utf8 (c :: text) = c.toNat :: utf8 text := by
  obtain ⟨-, hbytes⟩ | ⟨hhigh, -⟩ := charBytes_cases c
  · rw [utf8_cons, hbytes, List.singleton_append]
  · omega

/-- A text begins with an ASCII character if its bytes do. -/
theorem head?_utf8_eq_iff {mark : Char} (hmark : mark.toNat < 0x80) (text : List Char) :
    (utf8 text).head? = some mark.toNat ↔ text.head? = some mark := by
  cases text with
  | nil => simp [utf8]
  | cons c rest =>
    rw [utf8_cons, List.head?_cons, Option.some.injEq]
    obtain ⟨-, hbytes⟩ | ⟨hhigh, hbytes⟩ := charBytes_cases c
    · rw [hbytes, List.singleton_append, List.head?_cons, Option.some.injEq, Char.toNat_inj]
    · obtain ⟨b, others, heq⟩ := List.exists_cons_of_ne_nil (charBytes_ne_nil c)
      have hb := hbytes b (by simp [heq])
      rw [heq, List.cons_append, List.head?_cons, Option.some.injEq]
      refine iff_of_false (by omega) ?_
      rintro rfl
      omega

/-- A scan that passes over each byte above ASCII passes over any number of them. -/
theorem scan_append_of_high {α : Type} {scan : List Nat → α}
    (hhigh : ∀ b rest, 0x80 ≤ b → scan (b :: rest) = scan rest) {front : List Nat}
    (hfront : ∀ b ∈ front, 0x80 ≤ b) (rest : List Nat) : scan (front ++ rest) = scan rest := by
  induction front with
  | nil => rfl
  | cons b front ih =>
    rw [List.forall_mem_cons] at hfront
    rw [List.cons_append, hhigh b _ hfront.1, ih hfront.2]

/-- Such a scan passes over the characters that it does not stop at. -/
theorem scan_utf8_cons {α : Type} {scan : List Nat → α}
    (hhigh : ∀ b rest, 0x80 ≤ b → scan (b :: rest) = scan rest) {c : Char} {text : List Char}
    (hc : c.toNat < 0x80 → scan (c.toNat :: utf8 text) = scan (utf8 text)) :
    scan (utf8 (c :: text)) = scan (utf8 text) := by
  obtain ⟨hascii, -⟩ | ⟨-, hbytes⟩ := charBytes_cases c
  · rw [utf8_cons_of_lt hascii, hc hascii]
  · rw [utf8_cons, scan_append_of_high hhigh hbytes]

/-- Such a scan, told to leave out the first byte of a character, leaves out the character. -/
theorem scan_tail_utf8_cons {α : Type} {scan : List Nat → α}
    (hhigh : ∀ b rest, 0x80 ≤ b → scan (b :: rest) = scan rest) (c : Char) (text : List Char) :
    scan (utf8 (c :: text)).tail = scan (utf8 text) := by
  obtain ⟨hascii, -⟩ | ⟨-, hbytes⟩ := charBytes_cases c
  · rw [utf8_cons_of_lt hascii, List.tail_cons]
  · obtain ⟨first, others, hothers⟩ := List.exists_cons_of_ne_nil (charBytes_ne_nil c)
    rw [hothers, List.forall_mem_cons] at hbytes
    rw [utf8_cons, hothers, List.cons_append, List.tail_cons, scan_append_of_high hhigh hbytes.2]

end DesignCompiler.Text
