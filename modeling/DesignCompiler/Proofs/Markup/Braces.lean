import DesignCompiler.Proofs.Markup.Script
import DesignCompiler.Proofs.Text.Bytes

/-!
# Braces around expressions

An expression ends at the brace that closes the one before it, whatever braces, quotes and comment
marks its strings and comments hold. A scan of the bytes of a text finds the same brace as the walk
through its characters, so the place behind it is never inside a character.
-/

namespace DesignCompiler.Markup

open Text

/-! ## Scanning bytes -/

/-- The bytes behind the string that the given bytes begin within. A backslash takes the next byte
    along. -/
def behindString (quote : Nat) : List Nat → List Nat
  | b :: next :: rest =>
    if b = '\\'.toNat then behindString quote rest
    else if b = quote then next :: rest
    else behindString quote (next :: rest)
  | _ => []

/-- The bytes behind the comment that the given bytes begin within. -/
def behindComment : List Nat → List Nat
  | b :: next :: rest =>
    if b = '*'.toNat ∧ next = '/'.toNat then rest else behindComment (next :: rest)
  | _ => []

/-- The bytes behind the end of the line. -/
def behindLine (bytes : List Nat) : List Nat := (bytes.dropWhile (· != '\n'.toNat)).tail

theorem length_behindString_le (quote : Nat) (bytes : List Nat) :
    (behindString quote bytes).length ≤ bytes.length := by
  fun_induction behindString quote bytes <;> grind

theorem length_behindComment_le (bytes : List Nat) :
    (behindComment bytes).length ≤ bytes.length := by
  fun_induction behindComment bytes <;> grind

theorem length_behindLine_le (bytes : List Nat) : (behindLine bytes).length ≤ bytes.length := by
  have := (List.dropWhile_sublist (· != '\n'.toNat) (l := bytes)).length_le
  rw [behindLine, List.length_tail]
  omega

/-- The bytes behind the brace that closes the first of `depth` open ones. -/
def behindBrace? (depth : Nat) : List Nat → Option (List Nat)
  | [] => none
  | b :: rest =>
    if b = '{'.toNat then behindBrace? (depth + 1) rest
    else if b = '}'.toNat then
      if depth - 1 = 0 then some rest else behindBrace? (depth - 1) rest
    else if b = '"'.toNat ∨ b = '\''.toNat ∨ b = '\x60'.toNat then
      behindBrace? depth (behindString b rest)
    else if b = '/'.toNat ∧ rest.head? = some '*'.toNat then
      behindBrace? depth (behindComment rest.tail)
    else if b = '/'.toNat ∧ rest.head? = some '/'.toNat then behindBrace? depth (behindLine rest)
    else behindBrace? depth rest
termination_by bytes => bytes.length
decreasing_by
  all_goals
    have := length_behindString_le b rest
    have := length_behindComment_le rest.tail
    have := length_behindLine_le rest
    grind

/-- The offset behind the brace that closes the one at an offset. -/
def closingOffset? (bytes : List Nat) (start : Nat) : Option Nat :=
  (behindBrace? 0 (bytes.drop start)).map fun rest => bytes.length - rest.length

/-! ## Both scans side by side -/

/-- What is found behind a text, with the text put ahead of the expression. -/
def prependText (front : List Char) (found : List Char × List Char) : List Char × List Char :=
  (front ++ found.1, found.2)

theorem map_prependText_nil (found : Option (List Char × List Char)) :
    found.map (prependText []) = found := by
  cases found <;> rfl

theorem map_prependText_map (front back : List Char) (found : Option (List Char × List Char)) :
    (found.map (prependText back)).map (prependText front) =
      found.map (prependText (front ++ back)) := by
  rw [Option.map_map]
  congr
  funext pair
  simp [prependText]

theorem braceBody?_of_ne_code {mode : ScriptMode} (hmode : mode ≠ .code) (depth : Nat) (c : Char)
    (rest : List Char) :
    braceBody? depth mode (c :: rest) =
      (braceBody? depth (mode.after c rest.head?) rest).map (prependText [c]) := by
  rw [braceBody?]
  simp only [hmode, decide_false, Bool.false_and, Bool.false_eq_true, if_false, ne_eq,
    not_false_eq_true, if_true]
  rfl

theorem braceBody?_code (depth : Nat) (c : Char) (rest : List Char) :
    braceBody? depth .code (c :: rest) =
      if c = '{' then (braceBody? (depth + 1) .code rest).map (prependText [c])
      else if c = '}' then
        if depth = 0 then some ([], rest)
        else (braceBody? (depth - 1) .code rest).map (prependText [c])
      else (braceBody? depth (ScriptMode.after .code c rest.head?) rest).map (prependText [c]) := by
  by_cases hopen : c = '{'
  · subst hopen
    rfl
  by_cases hclose : c = '}'
  · subst hclose
    cases depth <;> rfl
  rw [braceBody?, if_neg (by simp [hclose]), if_neg hopen, if_neg hclose]
  simp only [ne_eq, not_true, if_false, beq_iff_eq, hopen, hclose]
  rfl

/-- The text behind the brace that the walk finds. -/
def afterBrace? (depth : Nat) (mode : ScriptMode) (text : List Char) : Option (List Char) :=
  (braceBody? depth mode text).map Prod.snd

theorem afterBrace?_of_ne_code {mode : ScriptMode} (hmode : mode ≠ .code) (depth : Nat) (c : Char)
    (rest : List Char) :
    afterBrace? depth mode (c :: rest) = afterBrace? depth (mode.after c rest.head?) rest := by
  rw [afterBrace?, braceBody?_of_ne_code hmode, Option.map_map]
  rfl

theorem afterBrace?_code (depth : Nat) (c : Char) (rest : List Char) :
    afterBrace? depth .code (c :: rest) =
      if c = '{' then afterBrace? (depth + 1) .code rest
      else if c = '}' then if depth = 0 then some rest else afterBrace? (depth - 1) .code rest
      else afterBrace? depth (ScriptMode.after .code c rest.head?) rest := by
  rw [afterBrace?, braceBody?_code]
  split_ifs <;> simp only [Option.map_map, Option.map_some] <;> rfl

/-- From within a string or a comment the walk goes on in code behind it, at the place that a scan
    of the bytes skips to. -/
def SkipsTo (mode : ScriptMode) (skip : List Nat → List Nat) (text : List Char) : Prop :=
  ∃ rest : List Char, rest.length ≤ text.length ∧ skip (utf8 text) = utf8 rest ∧
    ∀ depth, afterBrace? depth mode text = afterBrace? depth .code rest

theorem SkipsTo.cons {mode : ScriptMode} {skip skip' : List Nat → List Nat} {c : Char}
    {text : List Char} (hmode : mode ≠ .code) (hskip : skip (utf8 (c :: text)) = skip' (utf8 text))
    (htext : SkipsTo (mode.after c text.head?) skip' text) : SkipsTo mode skip (c :: text) := by
  obtain ⟨rest, hlength, hrest, hafter⟩ := htext
  refine ⟨rest, Nat.le_succ_of_le hlength, hskip.trans hrest, fun depth => ?_⟩
  rw [afterBrace?_of_ne_code hmode, hafter]

/-- A string or a comment that never ends has no brace behind it. -/
theorem skipsTo_nil {mode : ScriptMode} {skip : List Nat → List Nat} (hskip : skip [] = []) :
    SkipsTo mode skip [] :=
  ⟨[], Nat.le_refl 0, hskip, fun _ => rfl⟩

theorem skipsTo_code (text : List Char) : SkipsTo .code id text :=
  ⟨text, Nat.le_refl _, rfl, fun _ => rfl⟩

/-! ### Strings -/

theorem behindString_cons (quote b : Nat) (rest : List Nat) :
    behindString quote (b :: rest) =
      if b = '\\'.toNat then behindString quote rest.tail
      else if b = quote then rest
      else behindString quote rest := by
  cases rest with
  | nil => simp [behindString]
  | cons next rest => rw [behindString, List.tail_cons]

theorem behindString_of_ne {quote b : Nat} (hescape : b ≠ '\\'.toNat) (hquote : b ≠ quote)
    (rest : List Nat) : behindString quote (b :: rest) = behindString quote rest := by
  rw [behindString_cons, if_neg hescape, if_neg hquote]

theorem behindString_of_high {quote : Nat} (hquote : quote < 0x80) (b : Nat) (rest : List Nat)
    (hb : 0x80 ≤ b) : behindString quote (b :: rest) = behindString quote rest :=
  behindString_of_ne (fun h => by simp [h] at hb) (by omega) rest

theorem isStringQuote_cases {quote : Char} (hquote : isStringQuote quote = true) :
    quote = '"' ∨ quote = '\'' ∨ quote = '\x60' := by
  simpa [isStringQuote, or_assoc] using hquote

/-- The walk through a string, and the one behind a backslash in it. -/
theorem skipsTo_string {quote : Char} (hquote : isStringQuote quote = true) (text : List Char) :
    SkipsTo (.string quote) (behindString quote.toNat) text ∧
      SkipsTo (.escape quote) (fun bytes => behindString quote.toNat bytes.tail) text := by
  have hascii : quote.toNat < 0x80 := by
    obtain rfl | rfl | rfl := isStringQuote_cases hquote <;> decide
  have hbackslash : quote ≠ '\\' := by
    rintro rfl
    cases hquote
  induction text with
  | nil => exact ⟨skipsTo_nil rfl, skipsTo_nil rfl⟩
  | cons c text ih =>
    constructor
    · by_cases hescape : c = '\\'
      · subst hescape
        refine .cons (by simp) ?_ ih.2
        rw [utf8_cons_of_lt (by decide), behindString_cons, if_pos rfl]
      · by_cases hclose : c = quote
        · subst hclose
          have hmode : ScriptMode.after (.string c) c text.head? = .code := by
            simp [ScriptMode.after, hescape]
          refine .cons (by simp) ?_ (hmode ▸ skipsTo_code text)
          rw [utf8_cons_of_lt hascii, behindString_cons, if_neg (mt Char.toNat_inj.mp hescape),
            if_pos rfl, id_eq]
        · have hmode : ScriptMode.after (.string quote) c text.head? = .string quote := by
            simp [ScriptMode.after, hescape, hclose]
          refine .cons (by simp) (scan_utf8_cons (behindString_of_high hascii) fun _ => ?_)
            (by rw [hmode]; exact ih.1)
          exact behindString_of_ne (mt Char.toNat_inj.mp hescape) (mt Char.toNat_inj.mp hclose) _
    · -- The byte that the backslash takes along is the first one of the character.
      exact .cons (by simp) (scan_tail_utf8_cons (behindString_of_high hascii) c text) ih.1

/-! ### Comments -/

theorem behindComment_cons (b : Nat) (rest : List Nat) :
    behindComment (b :: rest) =
      if b = '*'.toNat ∧ rest.head? = some '/'.toNat then rest.tail else behindComment rest := by
  cases rest with
  | nil => simp [behindComment]
  | cons next rest => simp [behindComment]

theorem behindComment_of_ne {b : Nat} {rest : List Nat}
    (hne : ¬ (b = '*'.toNat ∧ rest.head? = some '/'.toNat)) :
    behindComment (b :: rest) = behindComment rest := by
  rw [behindComment_cons, if_neg hne]

theorem skipsTo_comment (text : List Char) : SkipsTo .comment behindComment text := by
  induction text with
  | nil => exact skipsTo_nil rfl
  | cons c text ih =>
    by_cases hclose : c = '*' ∧ text.head? = some '/'
    · obtain ⟨rfl, hnext⟩ := hclose
      have hmode : ScriptMode.after .comment '*' text.head? = .commentClosing := by
        simp [ScriptMode.after, hnext]
      have hclosing : SkipsTo .commentClosing List.tail text := by
        cases text with
        | nil => cases hnext
        | cons d text =>
          obtain rfl : d = '/' := Option.some.inj hnext
          refine .cons (by simp) ?_ (skipsTo_code text)
          rw [utf8_cons_of_lt (by decide), List.tail_cons, id_eq]
      refine .cons (by simp) ?_ (hmode ▸ hclosing)
      rw [utf8_cons_of_lt (by decide), behindComment_cons,
        if_pos ⟨rfl, (head?_utf8_eq_iff (by decide) text).mpr hnext⟩]
    · have hmode : ScriptMode.after .comment c text.head? = .comment := by
        simpa [ScriptMode.after] using hclose
      refine .cons (by simp) (scan_utf8_cons (fun b rest hb => ?_) fun _ => ?_)
        (by rw [hmode]; exact ih)
      · exact behindComment_of_ne fun h => by simp [h.1] at hb
      · apply behindComment_of_ne
        rwa [head?_utf8_eq_iff (by decide), Char.toNat_inj]

theorem behindLine_cons (b : Nat) (rest : List Nat) :
    behindLine (b :: rest) = if b = '\n'.toNat then rest else behindLine rest := by
  by_cases hb : b = '\n'.toNat
  · simp [behindLine, hb]
  · rw [if_neg hb, behindLine, List.dropWhile_cons_of_pos (by simpa using hb), behindLine]

theorem skipsTo_lineComment (text : List Char) : SkipsTo .lineComment behindLine text := by
  induction text with
  | nil => exact skipsTo_nil rfl
  | cons c text ih =>
    by_cases hbreak : c = '\n'
    · subst hbreak
      refine .cons (by simp) ?_ (skipsTo_code text)
      rw [utf8_cons_of_lt (by decide), behindLine_cons, if_pos rfl, id_eq]
    · have hmode : ScriptMode.after .lineComment c text.head? = .lineComment := by
        simp [ScriptMode.after, hbreak]
      refine .cons (by simp) (scan_utf8_cons (fun b rest hb => ?_) fun _ => ?_)
        (by rw [hmode]; exact ih)
      · rw [behindLine_cons, if_neg fun h => by simp [h] at hb]
      · rw [behindLine_cons, if_neg (mt Char.toNat_inj.mp hbreak)]

/-! ### Code -/

theorem behindBrace?_open (depth : Nat) (rest : List Nat) :
    behindBrace? depth ('{'.toNat :: rest) = behindBrace? (depth + 1) rest := by
  rw [behindBrace?, if_pos rfl]

theorem behindBrace?_close (depth : Nat) (rest : List Nat) :
    behindBrace? (depth + 1) ('}'.toNat :: rest) =
      if depth = 0 then some rest else behindBrace? depth rest := by
  rw [behindBrace?, if_neg (by decide), if_pos rfl, Nat.add_sub_cancel]

theorem behindBrace?_quote {quote : Char} (hquote : isStringQuote quote = true) (depth : Nat)
    (rest : List Nat) :
    behindBrace? depth (quote.toNat :: rest) =
      behindBrace? depth (behindString quote.toNat rest) := by
  obtain rfl | rfl | rfl := isStringQuote_cases hquote <;>
    rw [behindBrace?, if_neg (by decide), if_neg (by decide), if_pos (by decide)]

theorem behindBrace?_comment (depth : Nat) (rest : List Nat) :
    behindBrace? depth ('/'.toNat :: '*'.toNat :: rest) =
      behindBrace? depth (behindComment rest) := by
  rw [behindBrace?, if_neg (by decide), if_neg (by decide), if_neg (by decide), List.head?_cons,
    if_pos (by decide), List.tail_cons]

theorem behindBrace?_line (depth : Nat) (rest : List Nat) :
    behindBrace? depth ('/'.toNat :: '/'.toNat :: rest) =
      behindBrace? depth (behindLine ('/'.toNat :: rest)) := by
  rw [behindBrace?, if_neg (by decide), if_neg (by decide), if_neg (by decide), List.head?_cons,
    if_neg (by decide), if_pos (by decide)]

theorem behindBrace?_of_ne {b : Nat} {rest : List Nat} (hopen : b ≠ '{'.toNat)
    (hclose : b ≠ '}'.toNat)
    (hquote : ¬ (b = '"'.toNat ∨ b = '\''.toNat ∨ b = '\x60'.toNat))
    (hcomment : ¬ (b = '/'.toNat ∧ rest.head? = some '*'.toNat))
    (hline : ¬ (b = '/'.toNat ∧ rest.head? = some '/'.toNat)) (depth : Nat) :
    behindBrace? depth (b :: rest) = behindBrace? depth rest := by
  rw [behindBrace?, if_neg hopen, if_neg hclose, if_neg hquote, if_neg hcomment, if_neg hline]

theorem behindBrace?_of_high (depth b : Nat) (rest : List Nat) (hb : 0x80 ≤ b) :
    behindBrace? depth (b :: rest) = behindBrace? depth rest := by
  have hascii : ∀ mark : Char, mark.toNat < 0x80 → b ≠ mark.toNat := by
    intro mark hmark
    omega
  refine behindBrace?_of_ne (hascii '{' (by decide)) (hascii '}' (by decide)) ?_
    (fun h => hascii '/' (by decide) h.1) (fun h => hascii '/' (by decide) h.1) depth
  rintro (h | h | h)
  · exact hascii '"' (by decide) h
  · exact hascii '\'' (by decide) h
  · exact hascii '\x60' (by decide) h

/-- The scan of the bytes finds the brace that the walk finds. -/
theorem behindBrace?_utf8 (depth : Nat) (text : List Char) :
    behindBrace? (depth + 1) (utf8 text) = (afterBrace? depth .code text).map utf8 := by
  -- The induction is on the length, since both leave out strings and comments as a whole.
  induction hlength : text.length using Nat.strong_induction_on generalizing depth text with
  | _ length ih =>
  subst hlength
  cases text with
  | nil => simp [utf8, behindBrace?, afterBrace?, braceBody?]
  | cons c text =>
    have hcode : ∀ depth, behindBrace? (depth + 1) (utf8 text) =
        (afterBrace? depth .code text).map utf8 := fun depth =>
      ih text.length (by simp) depth text rfl
    have hskips : ∀ {mode : ScriptMode} {skip : List Nat → List Nat} {front : List Char},
        front.length ≤ text.length → SkipsTo mode skip front →
        behindBrace? (depth + 1) (skip (utf8 front)) = (afterBrace? depth mode front).map utf8 := by
      rintro mode skip front hfront ⟨rest, hrest, hskip, hafter⟩
      rw [hskip, hafter, ih rest.length (by simp; omega) depth rest rfl]
    rw [afterBrace?_code]
    by_cases hopen : c = '{'
    · subst hopen
      rw [utf8_cons_of_lt (by decide), behindBrace?_open, if_pos rfl, hcode]
    by_cases hclose : c = '}'
    · subst hclose
      rw [utf8_cons_of_lt (by decide), behindBrace?_close, if_neg hopen, if_pos rfl]
      cases depth with
      | zero => rfl
      | succ depth => exact hcode depth
    rw [if_neg hopen, if_neg hclose]
    by_cases hquote : isStringQuote c = true
    · have hmode : ScriptMode.after .code c text.head? = .string c := by
        rw [ScriptMode.after, if_pos hquote]
      have hascii : c.toNat < 0x80 := by
        obtain rfl | rfl | rfl := isStringQuote_cases hquote <;> decide
      rw [hmode, utf8_cons_of_lt hascii, behindBrace?_quote hquote,
        hskips (Nat.le_refl _) (skipsTo_string hquote text).1]
    by_cases hcomment : c = '/' ∧ text.head? = some '*'
    · obtain ⟨rfl, hnext⟩ := hcomment
      obtain ⟨text, rfl⟩ := List.head?_eq_some_iff.mp hnext
      rw [utf8_cons_of_lt (by decide), utf8_cons_of_lt (by decide), behindBrace?_comment,
        hskips (by simp) (skipsTo_comment text), ScriptMode.after]
      simp [isStringQuote, afterBrace?_of_ne_code, ScriptMode.after]
    by_cases hline : c = '/' ∧ text.head? = some '/'
    · obtain ⟨rfl, hnext⟩ := hline
      obtain ⟨text, rfl⟩ := List.head?_eq_some_iff.mp hnext
      have hskip := hskips (Nat.le_refl _) (skipsTo_lineComment ('/' :: text))
      rw [utf8_cons_of_lt (by decide)] at hskip
      rw [utf8_cons_of_lt (by decide), utf8_cons_of_lt (by decide), behindBrace?_line, hskip]
      rfl
    have hmode : ScriptMode.after .code c text.head? = .code := by
      rw [ScriptMode.after, if_neg hquote, if_neg (by simpa using hcomment),
        if_neg (by simpa using hline)]
    rw [hmode, ← hcode]
    refine scan_utf8_cons (behindBrace?_of_high (depth + 1)) fun _ => ?_
    refine behindBrace?_of_ne ?_ ?_ ?_ ?_ ?_ (depth + 1)
    · exact mt Char.toNat_inj.mp hopen
    · exact mt Char.toNat_inj.mp hclose
    · rw [Char.toNat_inj, Char.toNat_inj, Char.toNat_inj]
      simpa [isStringQuote, or_assoc] using hquote
    · rwa [head?_utf8_eq_iff (by decide), Char.toNat_inj]
    · rwa [head?_utf8_eq_iff (by decide), Char.toNat_inj]

/-! ## Expressions -/

/-- Text with matching braces outside its strings and comments. -/
inductive ExpressionBody : List Char → Prop where
  | nil : ExpressionBody []
  | plain {c : Char} {rest : List Char} :
      isStringQuote c = false → c ∉ ['{', '}', '/'] → ExpressionBody rest →
      ExpressionBody (c :: rest)
  | slash {rest : List Char} :
      rest.head? ≠ some '/' → rest.head? ≠ some '*' → ExpressionBody rest →
      ExpressionBody ('/' :: rest)
  | string {quote : Char} {text rest : List Char} :
      isStringQuote quote = true → StringBody quote text → ExpressionBody rest →
      ExpressionBody (quote :: text ++ quote :: rest)
  | blockComment {text rest : List Char} :
      ¬ ['*', '/'] <:+: text → ExpressionBody rest →
      ExpressionBody ('/' :: '*' :: text ++ '*' :: '/' :: rest)
  | lineComment {text rest : List Char} :
      '\n' ∉ text → ExpressionBody rest → ExpressionBody ('/' :: '/' :: text ++ '\n' :: rest)
  | group {inner rest : List Char} :
      ExpressionBody inner → ExpressionBody rest → ExpressionBody ('{' :: inner ++ '}' :: rest)

/-- Plain code before an expression. -/
theorem ExpressionBody.plain_append (text : List Char) {rest : List Char}
    (htext : text.all (fun c => !isStringQuote c && !(['{', '}', '/'].contains c)) = true)
    (hrest : ExpressionBody rest) : ExpressionBody (text ++ rest) := by
  induction text with
  | nil => exact hrest
  | cons c text ih =>
    simp only [List.all_cons, Bool.and_eq_true, Bool.not_eq_true'] at htext
    exact .plain htext.1.1 (by simpa using htext.1.2) (ih (by simpa using htext.2))

/-- No brace counts in strings and comments. -/
theorem LeadsToCode.braceBody?_eq {rest text : List Char} {mode : ScriptMode}
    (hleads : LeadsToCode rest mode text) (depth : Nat) :
    braceBody? depth mode (text ++ rest) =
      (braceBody? depth .code rest).map (prependText text) := by
  induction hleads with
  | code => exact (map_prependText_nil _).symm
  | step hmode _ ih =>
    rw [List.cons_append, braceBody?_of_ne_code hmode, ih, map_prependText_map,
      List.singleton_append]

/-- Whether the walk is at every depth back where it was behind the text. -/
def PassedOver (text rest : List Char) : Prop :=
  ∀ depth, braceBody? depth .code (text ++ rest) =
    (braceBody? depth .code rest).map (prependText text)

theorem PassedOver.nil (rest : List Char) : PassedOver [] rest := by
  intro depth
  exact (map_prependText_nil _).symm

/-- A character that is no brace, with all of the string or the comment that it begins. -/
theorem PassedOver.literal {c : Char} {text body rest : List Char} (hbrace : c ∉ ['{', '}'])
    (hleads : LeadsToCode (body ++ rest)
      (ScriptMode.after .code c (text ++ (body ++ rest)).head?) text)
    (hbody : PassedOver body rest) : PassedOver (c :: text ++ body) rest := by
  intro depth
  simp only [List.mem_cons, List.not_mem_nil, or_false, not_or] at hbrace
  have htext : c :: text ++ body ++ rest = c :: (text ++ (body ++ rest)) := by simp
  rw [htext, braceBody?_code, if_neg hbrace.1, if_neg hbrace.2, hleads.braceBody?_eq, hbody depth,
    map_prependText_map, map_prependText_map]
  rfl

/-- A character that is no brace and begins nothing. -/
theorem PassedOver.cons {c : Char} {body rest : List Char} (hbrace : c ∉ ['{', '}'])
    (hmode : ScriptMode.after .code c (body ++ rest).head? = .code) (hbody : PassedOver body rest) :
    PassedOver (c :: body) rest :=
  @PassedOver.literal c [] body rest hbrace (by rw [List.nil_append, hmode]; exact .code) hbody

theorem PassedOver.group {inner body rest : List Char}
    (hinner : PassedOver inner ('}' :: (body ++ rest))) (hbody : PassedOver body rest) :
    PassedOver ('{' :: inner ++ '}' :: body) rest := by
  intro depth
  have htext : '{' :: inner ++ '}' :: body ++ rest = '{' :: (inner ++ '}' :: (body ++ rest)) := by
    simp
  rw [htext, braceBody?_code, if_pos rfl, hinner (depth + 1), braceBody?_code, if_neg (by decide),
    if_pos rfl, if_neg (Nat.succ_ne_zero depth), Nat.add_sub_cancel, hbody depth,
    map_prependText_map, map_prependText_map, map_prependText_map]
  simp

/-- An expression is passed over as a whole, unless a slash at its end makes a comment with what
    follows. -/
theorem ExpressionBody.passedOver {body : List Char} (hbody : ExpressionBody body)
    {rest : List Char} (hslash : rest.head? ≠ some '/') (hstar : rest.head? ≠ some '*') :
    PassedOver body rest := by
  induction hbody generalizing rest with
  | nil => exact .nil rest
  | @plain c body hquote hc _ ih =>
    simp only [List.mem_cons, List.not_mem_nil, or_false, not_or] at hc
    exact .cons (by simp [hc]) (by simp [ScriptMode.after, hquote, hc]) (ih hslash hstar)
  | @slash body hbodySlash hbodyStar _ ih =>
    refine .cons (by decide) ?_ (ih hslash hstar)
    cases body with
    | nil => simp [ScriptMode.after, isStringQuote, hslash, hstar]
    | cons c body =>
      simp only [List.head?_cons, ne_eq, Option.some.injEq] at hbodySlash hbodyStar
      simp [ScriptMode.after, isStringQuote, hbodySlash, hbodyStar]
  | @string quote text body hquote htext _ ih =>
    have hbrace : quote ∉ ['{', '}'] := by
      obtain rfl | rfl | rfl := isStringQuote_cases hquote <;> decide
    have h := PassedOver.literal hbrace (leadsToCode_after_quote hquote htext _ _) (ih hslash hstar)
    simpa using h
  | @blockComment text body htext _ ih =>
    have h := @PassedOver.literal '/' ('*' :: (text ++ ['*', '/'])) body rest (by decide)
      (leadsToCode_after_slash_star htext _) (ih hslash hstar)
    simpa using h
  | @lineComment text body htext _ ih =>
    have h := @PassedOver.literal '/' ('/' :: (text ++ ['\n'])) body rest (by decide)
      (leadsToCode_after_slash_slash htext _) (ih hslash hstar)
    simpa using h
  | group _ _ ihinner ih => exact .group (ihinner (by simp) (by simp)) (ih hslash hstar)

theorem ExpressionBody.braceBody?_eq {body : List Char} (hbody : ExpressionBody body)
    (after : List Char) : braceBody? 0 .code (body ++ '}' :: after) = some (body, after) := by
  rw [hbody.passedOver (by simp) (by simp), braceBody?_code, if_neg (by decide), if_pos rfl,
    if_pos rfl, Option.map_some, prependText, List.append_nil]

/-! ## The closing brace -/

theorem byteLength_eq (text : List Char) : byteLength text = (utf8 text).length := by
  rw [byteLength, ← length_bytes, bytes_eq_flatMap, String.toList_ofList]
  rfl

theorem bytes_ofList (text : List Char) : bytes (String.ofList text) = utf8 text := by
  rw [bytes_eq_flatMap, String.toList_ofList]
  rfl

/-- Where the walk ends behind a brace, the scan from the brace on ends. -/
theorem closingOffset?_of_expression? {text body after : List Char}
    (hfound : expression? text = some (body, after)) (before : List Char) :
    closingOffset? (bytes (String.ofList (before ++ '{' :: text))) (byteLength before) =
      some (byteLength (before ++ '{' :: text) - byteLength after) := by
  have hafter : afterBrace? 0 .code text = some after := by
    rw [afterBrace?, ← expression?, hfound, Option.map_some]
  have hdrop : (utf8 (before ++ '{' :: text)).drop (utf8 before).length =
      '{'.toNat :: utf8 text := by
    rw [utf8_append, List.drop_left, utf8_cons_of_lt (by decide)]
  rw [closingOffset?, bytes_ofList, byteLength_eq, byteLength_eq, byteLength_eq, hdrop,
    behindBrace?_open, behindBrace?_utf8, hafter]
  rfl

/-- The brace behind an expression is the one found, whatever stands around the braces: the
    expression is what lies between them, and the place behind the second one is where a character
    begins. -/
theorem closingOffset?_braces {body : List Char} (hbody : ExpressionBody body)
    (before after : List Char) :
    expression? (body ++ '}' :: after) = some (body, after) ∧
      closingOffset? (bytes (String.ofList (before ++ '{' :: body ++ '}' :: after)))
          (byteLength before) =
        some (byteLength (before ++ '{' :: body ++ ['}'])) ∧
      (String.Pos.Raw.mk (byteLength (before ++ '{' :: body ++ ['}']))).IsValid
        (String.ofList (before ++ '{' :: body ++ '}' :: after)) := by
  have hfound : expression? (body ++ '}' :: after) = some (body, after) := hbody.braceBody?_eq after
  have htext : before ++ '{' :: body ++ '}' :: after = before ++ '{' :: body ++ ['}'] ++ after := by
    simp
  refine ⟨hfound, ?_, ?_⟩
  · have hlength : byteLength (before ++ '{' :: body ++ '}' :: after) - byteLength after =
        byteLength (before ++ '{' :: body ++ ['}']) := by
      rw [htext, byteLength_eq, utf8_append, List.length_append, byteLength_eq, Nat.add_sub_cancel,
        byteLength_eq]
    have hoffset := closingOffset?_of_expression? hfound before
    rw [← hlength]
    simpa using hoffset
  · rw [htext, String.ofList_append]
    exact String.Pos.Raw.isValid_rawEndPos.append_right _

/-- A quotient, a group that holds a string with an escaped quote and a brace, and both kinds of
    comments. -/
theorem closingOffset?_braces_nested :
    let body := "ë/2 + f(\x7bx: '\\'\x7d'\x7d) /* \x7d */ // \x7d\n".toList
    let source := String.ofList ("é".toList ++ '{' :: body ++ '}' :: "é".toList)
    expression? (body ++ '}' :: "é".toList) = some (body, "é".toList) ∧
      closingOffset? (bytes source) 2 = some 38 ∧ (String.Pos.Raw.mk 38).IsValid source := by
  intro body source
  have hstring : StringBody '\'' "\\'\x7d".toList := .escape (.plain (by decide) (by decide) .nil)
  have hinner : ExpressionBody "x: '\\'\x7d'".toList :=
    .plain_append "x: ".toList (by decide) (.string (by decide) hstring .nil)
  have hline := @ExpressionBody.lineComment " \x7d".toList [] (by decide) .nil
  have hblock := @ExpressionBody.blockComment " \x7d ".toList _ (by decide)
    (.plain_append " ".toList (by decide) hline)
  have hgroup := ExpressionBody.group hinner (.plain_append ") ".toList (by decide) hblock)
  have hbody : ExpressionBody body := .plain_append "ë".toList (by decide)
    (.slash (by decide) (by decide) (.plain_append "2 + f(".toList (by decide) hgroup))
  have hbefore : byteLength "é".toList = 2 := by
    rw [byteLength_eq]
    rfl
  have hopened : byteLength ("é".toList ++ '{' :: body ++ ['}']) = 38 := by
    rw [byteLength_eq]
    rfl
  have hbraces := closingOffset?_braces hbody "é".toList "é".toList
  rwa [hbefore, hopened] at hbraces

end DesignCompiler.Markup
