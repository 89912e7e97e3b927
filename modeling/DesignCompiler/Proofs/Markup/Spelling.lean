import DesignCompiler.Proofs.Markup.Printing
import DesignCompiler.Proofs.Text.Classes
import DesignCompiler.Proofs.Text.Splitting

/-!
# Spelled texts

Decoding a spelled text gives the text back: every `&` in it begins an entity, and every entity
stands for the character that it spells.
-/

namespace DesignCompiler.Markup

open Text

/-! ## Entities -/

/-- Digits without a sign are a number. -/
theorem unsigned?_of_digits (base : Nat) {isDigit : Char → Bool} {digits : List Char}
    (hne : digits ≠ []) (hdigits : ∀ d ∈ digits, isDigit d = true) (hplus : isDigit '+' = false) :
    unsigned? base isDigit digits = some (natInBase base digits) := by
  cases digits with
  | nil => exact absurd rfl hne
  | cons d digits =>
    have hd : d ≠ '+' := by
      rintro rfl
      rw [hdigits '+' List.mem_cons_self] at hplus
      cases hplus
    have hsign : dropStart? ['+'] (d :: digits) = none := by
      rw [dropStart?_cons_cons, if_neg (Ne.symm hd)]
    have hall : (d :: digits).all isDigit = true := List.all_eq_true.mpr hdigits
    rw [unsigned?, hsign]
    simp only [Option.getD_none, hall, List.isEmpty_cons, Bool.not_false, Bool.and_self, if_true]

theorem char?_toNat (c : Char) : char? c.toNat = some c := by
  rw [char?, if_pos (show c.toNat.isValidChar from c.valid), Char.ofNat_toNat]

/-- A body that begins with `#` is none of the names. -/
theorem entityChar?_numeric (body : List Char) :
    entityChar? ('#' :: body) = (entityNumber? ('#' :: body)).bind char? := by
  rw [entityChar?]
  split
  all_goals first
    | rfl
    | rename_i hname
      have h := congrArg String.toList hname
      simp at h

theorem entityNumber?_decimal {digits : List Char} (hne : digits ≠ [])
    (hdigits : ∀ d ∈ digits, isAsciiDigit d = true) :
    entityNumber? ('#' :: digits) = some (natInBase 10 digits) := by
  have hprefix : ∀ x, isAsciiDigit x = false → dropStart? ['#', x] ('#' :: digits) = none := by
    intro x hx
    cases digits with
    | nil => exact absurd rfl hne
    | cons d digits =>
      have hd := ne_of_isAsciiDigit (hdigits d List.mem_cons_self) x hx
      rw [dropStart?_cons_cons, if_pos rfl, dropStart?_cons_cons, if_neg (Ne.symm hd)]
  have hdecimal : dropStart? ['#'] ('#' :: digits) = some digits := by
    rw [dropStart?_cons_cons, if_pos rfl, dropStart?_nil]
  rw [entityNumber?, hprefix 'x' (by decide), hprefix 'X' (by decide), hdecimal]
  exact unsigned?_of_digits 10 hne hdigits (by decide)

theorem entityNumber?_hexadecimal {x : Char} {digits : List Char} (hx : x ∈ ['x', 'X'])
    (hne : digits ≠ []) (hdigits : ∀ d ∈ digits, isHexDigit d = true) :
    entityNumber? ('#' :: x :: digits) = some (natInBase 16 digits) := by
  have hnumber := unsigned?_of_digits 16 hne hdigits (by decide)
  simp only [List.mem_cons, List.not_mem_nil, or_false] at hx
  rw [entityNumber?]
  obtain rfl | rfl := hx <;> simp [dropStart?, hnumber]

/-- Each entity body is read as the character that it stands for. -/
theorem EntityBody.entityChar?_eq {c : Char} {body : List Char} (hbody : EntityBody c body) :
    entityChar? body = some c := by
  cases hbody with
  | named hname =>
    simp only [namedEntities, List.mem_cons, Prod.mk.injEq, List.not_mem_nil, or_false] at hname
    obtain ⟨rfl, rfl⟩ | ⟨rfl, rfl⟩ | ⟨rfl, rfl⟩ | ⟨rfl, rfl⟩ | ⟨rfl, rfl⟩ | ⟨rfl, rfl⟩ := hname <;>
      rfl
  | decimal hne _ hdigits hvalue =>
    rw [entityChar?_numeric, entityNumber?_decimal hne hdigits, hvalue]
    exact char?_toNat c
  | hexadecimal hx hne _ hdigits hvalue =>
    rw [entityChar?_numeric, entityNumber?_hexadecimal hx hne hdigits, hvalue]
    exact char?_toNat c

/-- The characters of an entity body. -/
def isBodyChar (c : Char) : Bool := isAsciiAlphanumeric c || c == '#'

theorem EntityBody.forall_isBodyChar {c : Char} {body : List Char} (hbody : EntityBody c body) :
    ∀ d ∈ body, isBodyChar d = true := by
  have hhex : ∀ d, isHexDigit d = true → isBodyChar d = true := by
    intro d hd
    simp only [isHexDigit, Bool.or_eq_true, Bool.and_eq_true, decide_eq_true_eq] at hd
    simp only [isBodyChar, isAsciiAlphanumeric, isAsciiLetter, Bool.or_eq_true, Bool.and_eq_true,
      decide_eq_true_eq]
    obtain (hdigit | ⟨hlow, hhigh⟩) | ⟨hlow, hhigh⟩ := hd
    · exact .inl (.inr hdigit)
    · exact .inl (.inl (.inl ⟨hlow, Char.le_trans hhigh (show 'f' ≤ 'z' by decide)⟩))
    · exact .inl (.inl (.inr ⟨hlow, Char.le_trans hhigh (show 'F' ≤ 'Z' by decide)⟩))
  cases hbody with
  | named hname =>
    simp only [namedEntities, List.mem_cons, Prod.mk.injEq, List.not_mem_nil, or_false] at hname
    obtain ⟨rfl, -⟩ | ⟨rfl, -⟩ | ⟨rfl, -⟩ | ⟨rfl, -⟩ | ⟨rfl, -⟩ | ⟨rfl, -⟩ := hname <;>
      exact List.all_eq_true.mp (by decide)
  | decimal _ _ hdigits _ =>
    rw [List.forall_mem_cons]
    refine ⟨by decide, fun d hd => ?_⟩
    simp [isBodyChar, isAsciiAlphanumeric, hdigits d hd]
  | hexadecimal hx _ _ hdigits _ =>
    rw [List.forall_mem_cons, List.forall_mem_cons]
    refine ⟨by decide, ?_, fun d hd => hhex d (hdigits d hd)⟩
    simp only [List.mem_cons, List.not_mem_nil, or_false] at hx
    obtain rfl | rfl := hx <;> decide

theorem EntityBody.length_le {c : Char} {body : List Char} (hbody : EntityBody c body) :
    body.length ≤ 9 := by
  cases hbody with
  | named hname =>
    simp only [namedEntities, List.mem_cons, Prod.mk.injEq, List.not_mem_nil, or_false] at hname
    obtain ⟨rfl, -⟩ | ⟨rfl, -⟩ | ⟨rfl, -⟩ | ⟨rfl, -⟩ | ⟨rfl, -⟩ | ⟨rfl, -⟩ := hname <;> decide
  | decimal _ hlength _ _ =>
    simp only [List.length_cons]
    omega
  | hexadecimal _ _ hlength _ _ =>
    simp only [List.length_cons]
    omega

theorem EntityBody.not_mem {c : Char} {body : List Char} (hbody : EntityBody c body) (mark : Char)
    (hmark : isBodyChar mark = false := by decide) : mark ∉ body := by
  intro hmem
  rw [hbody.forall_isBodyChar mark hmem] at hmark
  cases hmark

/-! ## Decoding -/

theorem decodeEntitiesFrom_eq_drop (pending : Nat) (text : List Char) :
    decodeEntitiesFrom pending text = decodeEntities (text.drop pending) := by
  induction text generalizing pending with
  | nil => simp [decodeEntitiesFrom, decodeEntities]
  | cons c rest ih =>
    cases pending with
    | zero => rfl
    | succ n => rw [decodeEntitiesFrom, ih, List.drop_succ_cons]

theorem decodeEntities_cons_of_ne {c : Char} {rest : List Char} (hc : c ≠ '&') :
    decodeEntities (c :: rest) = c :: decodeEntities rest := by
  rw [decodeEntities, decodeEntitiesFrom, if_neg (by simpa using hc)]
  rfl

theorem EntityBody.decodeEntities_append {c : Char} {body rest : List Char}
    (hbody : EntityBody c body) :
    decodeEntities ('&' :: body ++ ';' :: rest) = c :: decodeEntities rest := by
  have htake : (body ++ ';' :: rest).takeWhile (· != ';') = body := by
    refine takeWhile_append_of_head? (fun d hd => ?_) (by simp)
    simpa using fun h : d = ';' => hbody.not_mem ';' (by decide) (h ▸ hd)
  have hentity : entityAt? (body ++ ';' :: rest) = some (c, body.length) := by
    have hlength := hbody.length_le
    rw [entityAt?, htake, hbody.entityChar?_eq, if_pos]
    · rfl
    · simp [hlength]
  have hdrop : (body ++ ';' :: rest).drop (body.length + 1) = rest := by
    simp [List.drop_append]
  rw [List.cons_append, decodeEntities, decodeEntitiesFrom, if_pos (by rfl), hentity]
  simp only [decodeEntitiesFrom_eq_drop, hdrop]

/-- Decoding undoes spelling. -/
theorem Spelled.decodeEntities_eq {escaped content raw : List Char} (hescaped : '&' ∈ escaped)
    (hspelled : Spelled escaped content raw) : decodeEntities raw = content := by
  induction hspelled with
  | nil => rfl
  | @plain c content raw hplain _ ih =>
    have hc : c ≠ '&' := by
      rintro rfl
      exact hplain hescaped
    rw [decodeEntities_cons_of_ne hc, ih]
  | entity hbody _ ih => rw [hbody.decodeEntities_append, ih]

/-- What is escaped does not occur in the spelling, unless entities are made of it. -/
theorem Spelled.not_mem {escaped content raw : List Char}
    (hspelled : Spelled escaped content raw) (mark : Char) (hescaped : mark ∈ escaped)
    (hbody : isBodyChar mark = false := by decide)
    (hends : mark ∉ ['&', ';'] := by decide) : mark ∉ raw := by
  induction hspelled with
  | nil => simp
  | @plain c content raw hplain _ ih =>
    rw [List.mem_cons, not_or]
    exact ⟨fun h => hplain (h ▸ hescaped), ih⟩
  | entity hentity _ ih =>
    simp only [List.mem_cons, List.not_mem_nil, or_false, not_or] at hends
    simp only [List.cons_append, List.mem_cons, List.mem_append, not_or]
    exact ⟨hends.1, hentity.not_mem mark hbody, hends.2, ih⟩

/-- A spelling brings in no character but those of entities. -/
theorem Spelled.mem_or {escaped content raw : List Char} {d : Char}
    (hspelled : Spelled escaped content raw) (hd : d ∈ raw) :
    d ∈ content ∨ isBodyChar d = true ∨ d ∈ ['&', ';'] := by
  induction hspelled with
  | nil => cases hd
  | @plain c content raw _ _ ih =>
    obtain rfl | hd := List.mem_cons.mp hd
    · exact .inl List.mem_cons_self
    · exact (ih hd).imp_left (List.mem_cons_of_mem c)
  | @entity c body content raw hentity _ ih =>
    simp only [List.cons_append, List.mem_cons, List.mem_append] at hd
    obtain rfl | hbody | rfl | hd := hd
    · exact .inr (.inr (by decide))
    · exact .inr (.inl (hentity.forall_isBodyChar d hbody))
    · exact .inr (.inr (by decide))
    · exact (ih hd).imp_left (List.mem_cons_of_mem c)

/-- No spelling of a text that shows something is blank. -/
theorem Spelled.allBlank_eq_false {escaped content raw : List Char}
    (hspelled : Spelled escaped content raw) (hcontent : allBlank content = false) :
    allBlank raw = false := by
  induction hspelled with
  | nil => exact hcontent
  | @plain c content raw _ _ ih =>
    simp only [allBlank, List.all_cons, Bool.and_eq_false_iff] at hcontent ⊢
    exact hcontent.imp_right ih
  | entity _ _ _ => simp [allBlank, show isBlank '&' = false by decide]

end DesignCompiler.Markup
