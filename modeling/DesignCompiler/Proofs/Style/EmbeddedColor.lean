import DesignCompiler.Proofs.Text.Classes
import DesignCompiler.Proofs.Text.Scanning
import DesignCompiler.Style.Color

/-!
# Colors within compound values

A color that a compound value holds is the color that its notation has by itself, and taking it out
leaves the rest as it is. One notation is cut short: a `var()` whose fallback is a function ends at
the closing parenthesis of the fallback, and is left with the color of its token.
-/

namespace DesignCompiler.Style

open Text

/-! ## Notations -/

/-- The names of functions, in lower case. -/
def functionNames : List (List Char) := ["rgb".toList, "rgba".toList, "var".toList]

/-- A function as it is written. -/
def call (name inside : List Char) : List Char := name ++ '(' :: (inside ++ [')'])

/-- A color as it is written: in hexadecimal digits, by its channels, or as a token, with or without
    a color that stands in for it. Names are in either letter case. -/
inductive ColorNotation where
  | hex (digits : List Char) (isHexDigit_of_mem : ∀ c ∈ digits, isHexDigit c = true)
  | channels (name inside : List Char)
      (name_eq : lowerAscii name = "rgb".toList ∨ lowerAscii name = "rgba".toList)
  | reference (name token : List Char) (name_eq : lowerAscii name = "var".toList)
      (not_mem : ',' ∉ token ∧ ')' ∉ token)
  | referenceOr (name token before : List Char) (fallback : ColorNotation) (after : List Char)
      (name_eq : lowerAscii name = "var".toList) (not_mem : ',' ∉ token ∧ ')' ∉ token)
      (before_blank : allBlank before = true) (after_blank : allBlank after = true)

namespace ColorNotation

/-- The text of a notation. -/
def text : ColorNotation → List Char
  | hex digits _ => '#' :: digits
  | channels name inside _ => call name inside
  | reference name token _ _ => call name token
  | referenceOr name token before fallback after _ _ _ _ =>
    call name (token ++ ',' :: (before ++ fallback.text ++ after))

/-- A notation is a function unless it is in hexadecimal digits. -/
def IsFunction : ColorNotation → Prop
  | hex _ _ => False
  | _ => True

/-- The fallback is a function. -/
def NestsFunction : ColorNotation → Prop
  | referenceOr _ _ _ fallback _ _ _ _ _ => fallback.IsFunction
  | _ => False

/-- The color of the token alone. -/
def tokenColor? (vocabulary : Vocabulary) : ColorNotation → Option Color
  | reference _ token _ _ | referenceOr _ token _ _ _ _ _ _ _ =>
    (vocabulary.colorToken? (String.ofList (tokenName (lowerAscii token)))).map Color.token
  | _ => none

end ColorNotation

/-- No color begins within a text. -/
structure NamesNoColor (text : List Char) : Prop where
  hash : '#' ∉ text
  rgb : ¬ "rgb".toList <:+: lowerAscii text
  var : ¬ "var".toList <:+: lowerAscii text

/-! ## Places of a compound value -/

theorem lowerAscii_append (front back : List Char) :
    lowerAscii (front ++ back) = lowerAscii front ++ lowerAscii back := List.map_append

theorem lowerAscii_call (name inside : List Char) :
    lowerAscii (call name inside) = call (lowerAscii name) (lowerAscii inside) := by
  simp [lowerAscii, call]

/-- A function ends at its first closing parenthesis. -/
theorem functionLength?_call {name : String} {written inside : List Char}
    (hwritten : lowerAscii written = name.toList) (hinside : ')' ∉ inside) (rest : List Char) :
    functionLength? name (call written inside ++ rest) = some (call written inside).length := by
  have hlower : lowerAscii (call written inside ++ rest) =
      (name.toList ++ ['(']) ++ (lowerAscii inside ++ ')' :: lowerAscii rest) := by
    rw [lowerAscii_append, lowerAscii_call, hwritten]
    simp [call]
  have hbefore : ')' ∉ lowerAscii inside := by
    rwa [mem_lowerAscii_iff (by decide)]
  have hrun : (lowerAscii inside ++ ')' :: lowerAscii rest).takeWhile (· != ')') =
      lowerAscii inside := by
    refine takeWhile_append_of_head? (fun c hc => ?_) fun c hc => ?_
    · rw [bne_iff_ne]
      rintro rfl
      exact hbefore hc
    · cases hc
      decide
  have hlength : written.length = name.length := by
    have := congrArg List.length hwritten
    rwa [lowerAscii, List.length_map, String.length_toList] at this
  rw [functionLength?, hlower, dropStart?_append]
  simp only [List.contains_eq_mem, hrun]
  simp [call, lowerAscii, hlength]
  omega

theorem functionLength?_eq_none {name : String} {text : List Char}
    (hname : ¬ name.toList ++ ['('] <+: lowerAscii text) : functionLength? name text = none := by
  rw [← isSome_dropStart?_iff, Option.not_isSome_iff_eq_none] at hname
  rw [functionLength?, hname]

/-- The names of the functions begin with two letters only. -/
theorem functionLength?_of_head {c : Char} (hc : c.toLower ≠ 'r' ∧ c.toLower ≠ 'v')
    (text : List Char) :
    ∀ name ∈ ["rgb", "rgba", "var"], functionLength? name (c :: text) = none := by
  simp only [List.forall_mem_cons, List.not_mem_nil, false_imp_iff, implies_true, and_true]
  refine ⟨?_, ?_, ?_⟩ <;> apply functionLength?_eq_none <;>
    simp [lowerAscii, Ne.symm hc.1, Ne.symm hc.2]

/-- A hexadecimal color reaches to its last digit, the eighth at most. -/
theorem embeddedColor?_hash (text : List Char) :
    embeddedColor? none ('#' :: text) =
      if 3 ≤ ((text.take 8).takeWhile isHexDigit).length then
        some (('#' :: text).take (((text.take 8).takeWhile isHexDigit).length + 1),
          ((text.take 8).takeWhile isHexDigit).length + 1)
      else none := by
  have hnone := functionLength?_of_head (c := '#') (by decide) text
  simp only [List.forall_mem_cons] at hnone
  rw [embeddedColor?, hnone.1, hnone.2.1, hnone.2.2.1]
  dsimp only
  split <;> rfl

/-- Any other color is a function. -/
theorem embeddedColor?_of_head {c : Char} (hc : c ≠ '#') (text : List Char) :
    embeddedColor? none (c :: text) =
      (functionLength? "rgb" (c :: text) <|> functionLength? "rgba" (c :: text) <|>
        functionLength? "var" (c :: text)).map fun length => ((c :: text).take length, length) := by
  rw [embeddedColor?]
  · rfl
  · rintro rest htext
    cases htext
    exact hc rfl

/-- There is no color at a place of a text that names none, whatever word comes next. -/
theorem embeddedColor?_eq_none {front : List Char} (hfront : NamesNoColor front) {c : Char}
    {text : List Char} (hsuffix : c :: text <:+ front) (back : List Char) :
    embeddedColor? none (c :: (text ++ ' ' :: back)) = none := by
  have hfunction : ∀ name : String, ' ' ∉ name.toList → ¬ name.toList <:+: lowerAscii front →
      functionLength? name (c :: (text ++ ' ' :: back)) = none := by
    intro name hblank hnot
    apply functionLength?_eq_none
    intro hprefix
    apply hnot
    have hhere : name.toList <+: lowerAscii (c :: text) ++ ' ' :: lowerAscii back := by
      have := (List.prefix_append name.toList ['(']).trans hprefix
      rwa [← List.cons_append, lowerAscii_append] at this
    exact (prefix_of_prefix_append_cons hblank hhere).isInfix.trans (hsuffix.map _).isInfix
  have hrgb := hfunction "rgb" (by decide) hfront.rgb
  have hrgba := hfunction "rgba" (by decide) fun hinfix =>
    hfront.rgb ((by decide : "rgb".toList <:+: "rgba".toList).trans hinfix)
  have hvar := hfunction "var" (by decide) hfront.var
  have hhash : c ≠ '#' := by
    rintro rfl
    exact hfront.hash (hsuffix.subset List.mem_cons_self)
  rw [embeddedColor?_of_head hhash, hrgb, hrgba, hvar]
  rfl

theorem embeddedColor?_blank (text : List Char) : embeddedColor? none (' ' :: text) = none := by
  have hnone := functionLength?_of_head (c := ' ') (by decide) text
  simp only [List.forall_mem_cons] at hnone
  rw [embeddedColor?_of_head (by decide), hnone.1, hnone.2.1, hnone.2.2.1]
  rfl

/-- The first color of a compound value is the one behind what names none. -/
theorem firstMatch?_embeddedColor {front color : List Char} (hfront : NamesNoColor front)
    {rest : List Char} (hne : color ≠ [])
    (hcolor : embeddedColor? none (color ++ rest) = some (color, color.length)) :
    firstMatch? embeddedColor? (front ++ ' ' :: (color ++ rest)) =
      some (front ++ [' '], color, rest) := by
  have hpassed := @firstMatch?_append_of_none _ embeddedColor? (fun _ _ _ => rfl) front
    (' ' :: (color ++ rest)) fun passed c back hback =>
      embeddedColor?_eq_none hfront ⟨passed, hback.symm⟩ _
  have hblank := @firstMatch?_append_of_none _ embeddedColor? (fun _ _ _ => rfl) [' ']
    (color ++ rest) fun passed c back hback => by
      obtain ⟨rfl, rfl⟩ : passed = [] ∧ back = [] := by
        cases passed with
        | nil => exact ⟨rfl, (List.cons.inj hback).2.symm⟩
        | cons d passed => simp at hback
      cases hback
      exact embeddedColor?_blank _
  have hhere := firstMatch?_of_some (by simp [hne]) hcolor
  rw [List.drop_left] at hhere
  rw [hpassed, ← List.singleton_append, hblank, hhere]
  rfl

/-! ## Notations at a place -/

theorem embeddedColor?_hex {digits : List Char} (hdigits : ∀ c ∈ digits, isHexDigit c = true)
    (hleast : 3 ≤ digits.length) (hmost : digits.length ≤ 8) {rest : List Char}
    (hrest : ∀ c ∈ rest.head?, isHexDigit c = false) :
    embeddedColor? none ('#' :: digits ++ rest) = some ('#' :: digits, ('#' :: digits).length) := by
  have hrun : ((digits ++ rest).take 8).takeWhile isHexDigit = digits :=
    takeWhile_take_append hdigits hmost (.inr hrest)
  rw [List.cons_append, embeddedColor?_hash, hrun, if_pos hleast]
  simp

/-- A function of another name does not begin here. -/
theorem functionLength?_call_of_ne {name : String} {written inside : List Char}
    (hname : ∀ tail, ¬ name.toList ++ ['('] <+: lowerAscii written ++ '(' :: tail)
    (rest : List Char) : functionLength? name (call written inside ++ rest) = none := by
  apply functionLength?_eq_none
  rw [lowerAscii_append, lowerAscii_call, call, List.append_assoc, List.cons_append]
  exact hname _

/-- A function reaches to its first closing parenthesis. -/
theorem embeddedColor?_call {name inside : List Char} (hname : lowerAscii name ∈ functionNames)
    (hinside : ')' ∉ inside) (rest : List Char) :
    embeddedColor? none (call name inside ++ rest) =
      some (call name inside, (call name inside).length) := by
  have hmarks : ∀ lower ∈ functionNames, '#' ∉ lower ∧ lower ≠ [] := by decide
  obtain ⟨hhash, hne⟩ := hmarks _ hname
  rw [mem_lowerAscii_iff (by decide)] at hhash
  obtain ⟨c, letters, rfl⟩ := List.exists_cons_of_ne_nil (mt List.map_eq_nil_iff.mpr hne)
  have hhead := embeddedColor?_of_head (List.ne_of_not_mem_cons hhash).symm
    (letters ++ '(' :: (inside ++ [')']) ++ rest)
  have htext : c :: (letters ++ '(' :: (inside ++ [')']) ++ rest) =
    call (c :: letters) inside ++ rest := rfl
  rw [htext] at hhead
  rw [hhead]
  simp only [functionNames, List.mem_cons, List.not_mem_nil, or_false] at hname
  obtain hrgb | hrgba | hvar := hname
  · rw [functionLength?_call hrgb hinside]
    simp
  · rw [functionLength?_call_of_ne (by simp [hrgba]), functionLength?_call hrgba hinside]
    simp
  · rw [functionLength?_call_of_ne (by simp [hvar]), functionLength?_call_of_ne (by simp [hvar]),
      functionLength?_call hvar hinside]
    simp

/-! ## Accepted colors -/

theorem trim_call {name inside : List Char} (hname : lowerAscii name ∈ functionNames) :
    trim (call name inside) = call name inside := by
  have hheads : ∀ lower ∈ functionNames, lower ≠ [] ∧ lower.head?.any isBlank = false := by decide
  obtain ⟨hne, hhead⟩ := hheads _ hname
  apply IsTrimmed.trim_eq
  constructor
  · intro c hc
    rw [call, List.head?_append_of_ne_nil _ (mt List.map_eq_nil_iff.mpr hne)] at hc
    rw [lowerAscii, List.head?_map, Option.mem_def.mp hc] at hhead
    rw [← isBlank_toLower]
    exact hhead
  · intro c hc
    rw [call, ← List.cons_append, ← List.append_assoc, List.getLast?_concat] at hc
    cases hc
    decide

/-- A number stands between blanks, so there is no parenthesis before the mark that closes it. -/
theorem eq_append_of_numberBefore? {close : Char} {text rest : List Char} {n : Nat}
    (hnumber : numberBefore? close text = some (n, rest)) :
    ∃ front, text = front ++ close :: rest ∧ ')' ∉ front := by
  unfold numberBefore? at hnumber
  dsimp only at hnumber
  split at hnumber
  · rename_i c behind hvalue hbehind
    split at hnumber
    · rename_i hclose
      obtain rfl := eq_of_beq hclose
      cases hnumber
      obtain ⟨before, hbefore, hbeforeBlank⟩ := exists_eq_append_trimStart text
      obtain ⟨between, hbetween, hbetweenBlank⟩ :=
        exists_eq_append_trimStart ((trimStart text).dropWhile isAsciiDigit)
      have hdigits : ')' ∉ (trimStart text).takeWhile isAsciiDigit :=
        fun hmem => absurd (List.mem_takeWhile_imp hmem) (by decide)
      refine ⟨before ++ (trimStart text).takeWhile isAsciiDigit ++ between, ?_, ?_⟩
      · rw [hbehind] at hbetween
        rw [List.append_assoc, List.append_assoc, ← hbetween, List.takeWhile_append_dropWhile]
        exact hbefore
      · simp only [List.mem_append, not_or]
        exact ⟨⟨not_mem_of_allBlank hbeforeBlank, hdigits⟩,
          not_mem_of_allBlank hbetweenBlank⟩
    · cases hnumber
  · cases hnumber

/-- A share stands between blanks. -/
theorem parenthesis_not_mem_of_share? {text : List Char} {share : Float}
    (hshare : share? (trim text) = some share) : ')' ∉ text := by
  obtain ⟨front, back, htext, hfront, hback⟩ := exists_eq_append_trim text
  have hcore : ')' ∉ trim text := by
    intro hmem
    rw [share?] at hshare
    split at hshare
    · rename_i hall
      rw [Bool.and_eq_true, List.all_eq_true] at hall
      exact absurd (hall.2 ')' hmem) (by decide)
    · cases hshare
  rw [htext]
  simp only [List.mem_append, not_or]
  exact ⟨⟨not_mem_of_allBlank hfront, hcore⟩, not_mem_of_allBlank hback⟩

/-- The last channels, or the last channel and the share, are closed by the only parenthesis. -/
theorem eq_concat_of_ofRgbFunction? {text : List Char} {rgba : Rgba}
    (hcolor : ofRgbFunction? text = some rgba) : ∃ front, text = front ++ [')'] ∧ ')' ∉ front := by
  simp only [ofRgbFunction?, Option.bind_eq_bind, Option.bind_eq_some_iff] at hcolor
  obtain ⟨arguments, hstart, ⟨r, afterRed⟩, hred, ⟨g, afterGreen⟩, hgreen, hrest⟩ := hcolor
  obtain ⟨name, rfl, hname⟩ : ∃ name, text = name ++ arguments ∧ ')' ∉ name := by
    cases hrgba : dropStart? "rgba(".toList text with
    | some others =>
      rw [hrgba] at hstart
      cases hstart
      exact ⟨_, eq_append_of_dropStart? hrgba, by decide⟩
    | none =>
      rw [hrgba] at hstart
      exact ⟨_, eq_append_of_dropStart? hstart, by decide⟩
  obtain ⟨redText, rfl, hredText⟩ := eq_append_of_numberBefore? hred
  obtain ⟨greenText, rfl, hgreenText⟩ := eq_append_of_numberBefore? hgreen
  suffices hblue : ∃ blueText, afterGreen = blueText ++ [')'] ∧ ')' ∉ blueText by
    obtain ⟨blueText, rfl, hblueText⟩ := hblue
    refine ⟨name ++ (redText ++ ',' :: (greenText ++ ',' :: blueText)), by simp, ?_⟩
    simp [hname, hredText, hgreenText, hblueText]
  split at hrest
  · rename_i b hblue
    exact eq_append_of_numberBefore? hblue
  · simp only [Option.bind_eq_some_iff] at hrest
    obtain ⟨⟨b, afterBlue⟩, hblue, inside, hinside, alpha, halpha, -⟩ := hrest
    obtain ⟨blueText, rfl, hblueText⟩ := eq_append_of_numberBefore? hblue
    obtain rfl := eq_append_of_dropEnd? hinside
    refine ⟨blueText ++ ',' :: inside, by simp, ?_⟩
    simp [hblueText, parenthesis_not_mem_of_share? halpha]

/-- A color in hexadecimal digits is made of them. -/
theorem isHexDigit_of_ofCssHex? {text : List Char} {rgba : Rgba}
    (hcolor : Rgba.ofCssHex? text = some rgba) :
    ∃ digits, text = '#' :: digits ∧ (∀ c ∈ digits, isHexDigit c = true) ∧
      3 ≤ digits.length ∧ digits.length ≤ 8 := by
  rw [Rgba.ofCssHex?] at hcolor
  split at hcolor
  · cases hcolor
  · rename_i digits hdigits
    split at hcolor
    · rename_i hall
      refine ⟨digits, eq_append_of_dropStart? hdigits, List.all_eq_true.mp hall, ?_⟩
      split at hcolor <;> cases hcolor <;> simp
    · cases hcolor

/-- A plain color with a parenthesis is a function. -/
theorem exists_ofRgbFunction?_of_plainColor? {text : List Char} {color : Color} (hopen : '(' ∈ text)
    (hcolor : plainColor? text = some color) : ∃ rgba, ofRgbFunction? text = some rgba := by
  have hnames : ∀ name ∈ ["white".toList, "black".toList, "transparent".toList], '(' ∉ name := by
    decide
  have hname : ∀ name ∈ ["white".toList, "black".toList, "transparent".toList],
      (text == name) = false := by
    intro name hname
    rw [beq_eq_false_iff_ne]
    exact fun heq => hnames name hname (heq ▸ hopen)
  rw [List.forall_mem_cons, List.forall_mem_cons, List.forall_mem_cons] at hname
  rw [plainColor?] at hcolor
  split at hcolor
  · obtain ⟨rgba, hhex, -⟩ := Option.map_eq_some_iff.mp hcolor
    obtain ⟨digits, rfl, hdigits, -⟩ := isHexDigit_of_ofCssHex? hhex
    have hmem : '(' ∈ digits := by simpa using hopen
    exact absurd (hdigits '(' hmem) (by decide)
  · split at hcolor
    · rename_i rgba hfunction
      exact ⟨rgba, hfunction⟩
    · rw [hname.1, hname.2.1, hname.2.2.1] at hcolor
      simp at hcolor

theorem eq_call_of_variableArguments? {text inside : List Char}
    (harguments : variableArguments? text = some inside) : text = call "var".toList inside := by
  obtain ⟨others, hstart, hend⟩ := Option.bind_eq_some_iff.mp harguments
  rw [eq_append_of_dropStart? hstart, eq_append_of_dropEnd? hend]
  rfl

theorem variableArguments?_call (inside : List Char) :
    variableArguments? (call "var".toList inside) = some inside := by
  simp [variableArguments?, call, dropEnd?_singleton_concat]

/-- A value that is no `var()` is a plain color. -/
theorem parseColor?_eq_plainColor? {raw : List Char}
    (hnone : variableArguments? (lowerAscii (trim raw)) = none) (vocabulary : Vocabulary) :
    parseColor? vocabulary raw = plainColor? (lowerAscii (trim raw)) := by
  rw [parseColor?]
  split
  · rfl
  · rename_i inside harguments
    rw [hnone] at harguments
    cases harguments

/-- A `var()` without a fallback is its token. -/
theorem parseColor?_of_alone {raw inside : List Char}
    (harguments : variableArguments? (lowerAscii (trim raw)) = some inside)
    (hcut : cutAt? (· == ',') inside = none) (vocabulary : Vocabulary) :
    parseColor? vocabulary raw =
      (vocabulary.colorToken? (String.ofList (tokenName inside))).map Color.token := by
  rw [parseColor?]
  split
  · rename_i hnone
    rw [harguments] at hnone
    cases hnone
  · rename_i found hfound
    obtain rfl := Option.some.inj (harguments.symm.trans hfound)
    split
    · rfl
    · rename_i hsome
      rw [hcut] at hsome
      cases hsome

/-- A `var()` with a fallback is its token, or the fallback if the vocabulary has none. -/
theorem parseColor?_of_fallback {raw inside name fallback : List Char}
    (harguments : variableArguments? (lowerAscii (trim raw)) = some inside)
    (hcut : cutAt? (· == ',') inside = some (name, fallback)) (vocabulary : Vocabulary) :
    parseColor? vocabulary raw =
      match vocabulary.colorToken? (String.ofList (tokenName name)) with
      | some expression => some (.token expression)
      | none => parseColor? vocabulary fallback := by
  rw [parseColor?]
  split
  · rename_i hnone
    rw [harguments] at hnone
    cases hnone
  · rename_i found hfound
    obtain rfl := Option.some.inj (harguments.symm.trans hfound)
    split
    · rename_i hnone
      rw [hcut] at hnone
      cases hnone
    · rename_i hsome
      rw [hcut] at hsome
      cases hsome
      rfl

/-- A text with a parenthesis that is not closed is no color. -/
theorem parseColor?_of_open {raw : List Char} (hopen : '(' ∈ raw) (hclose : ')' ∉ raw)
    (vocabulary : Vocabulary) : parseColor? vocabulary raw = none := by
  obtain ⟨front, back, hraw, hfront, hback⟩ := exists_eq_append_trim raw
  rw [hraw] at hopen hclose
  simp only [List.mem_append, not_or] at hopen hclose
  have hcore : '(' ∈ lowerAscii (trim raw) := by
    rw [mem_lowerAscii_iff (by decide)]
    obtain (hblank | hcore) | hblank := hopen
    · exact absurd hblank (not_mem_of_allBlank hfront)
    · exact hcore
    · exact absurd hblank (not_mem_of_allBlank hback)
  have hnone : ')' ∉ lowerAscii (trim raw) := by
    rw [mem_lowerAscii_iff (by decide)]
    exact hclose.1.2
  rw [parseColor?_eq_plainColor?, Option.eq_none_iff_forall_ne_some]
  · intro color hcolor
    obtain ⟨rgba, hrgba⟩ := exists_ofRgbFunction?_of_plainColor? hcore hcolor
    obtain ⟨text, htext, -⟩ := eq_concat_of_ofRgbFunction? hrgba
    exact hnone (by simp [htext])
  · rw [Option.eq_none_iff_forall_ne_some]
    intro inside harguments
    have htext := eq_call_of_variableArguments? harguments
    exact hnone (by simp [htext, call])

theorem parseColor?_reference_open {name token fallback : List Char}
    (hname : lowerAscii name = "var".toList) (htoken : ',' ∉ token) (hopen : '(' ∈ fallback)
    (hclose : ')' ∉ fallback) (vocabulary : Vocabulary) :
    parseColor? vocabulary (call name (token ++ ',' :: fallback)) =
      (vocabulary.colorToken? (String.ofList (tokenName (lowerAscii token)))).map Color.token := by
  have hlower : lowerAscii (trim (call name (token ++ ',' :: fallback))) =
      call "var".toList (lowerAscii token ++ ',' :: lowerAscii fallback) := by
    rw [trim_call (by simp [functionNames, hname]), lowerAscii_call, hname, lowerAscii_append]
    rfl
  have hcut : cutAt? (· == ',') (lowerAscii token ++ ',' :: lowerAscii fallback) =
      some (lowerAscii token, lowerAscii fallback) := by
    apply cutAt?_append_mark
    rwa [mem_lowerAscii_iff (by decide)]
  rw [parseColor?_of_fallback (by rw [hlower, variableArguments?_call]) hcut]
  cases vocabulary.colorToken? (String.ofList (tokenName (lowerAscii token))) with
  | some expression => rfl
  | none =>
    apply parseColor?_of_open
    · rwa [mem_lowerAscii_iff (by decide)]
    · rwa [mem_lowerAscii_iff (by decide)]

/-- Accepted channels hold no parenthesis. -/
theorem parenthesis_not_mem_of_accepted {vocabulary : Vocabulary} {name inside : List Char}
    (hname : lowerAscii name = "rgb".toList ∨ lowerAscii name = "rgba".toList)
    (haccepted : (parseColor? vocabulary (call name inside)).isSome = true) : ')' ∉ inside := by
  have hlower : lowerAscii (trim (call name inside)) =
      call (lowerAscii name) (lowerAscii inside) := by
    rw [trim_call, lowerAscii_call]
    obtain h | h := hname <;> simp [functionNames, h]
  rw [parseColor?_eq_plainColor?, hlower] at haccepted
  · obtain ⟨color, hcolor⟩ := Option.isSome_iff_exists.mp haccepted
    obtain ⟨rgba, hrgba⟩ := exists_ofRgbFunction?_of_plainColor? (by simp [call]) hcolor
    obtain ⟨front, hfront, hnone⟩ := eq_concat_of_ofRgbFunction? hrgba
    rw [call, ← List.cons_append, ← List.append_assoc] at hfront
    have hsame := List.append_cancel_right hfront
    rw [← mem_lowerAscii_iff (by decide)]
    exact fun hmem => hnone (by simp [← hsame, hmem])
  · rw [hlower, variableArguments?]
    obtain hname | hname := hname <;> simp [hname, call]

/-- Hexadecimal digits are in either letter case the color of a stylesheet. -/
theorem parseColor?_hexDigits {digits : List Char} (hdigits : ∀ c ∈ digits, isHexDigit c = true)
    (vocabulary : Vocabulary) :
    parseColor? vocabulary ('#' :: digits) =
      (Rgba.ofCssHex? ('#' :: lowerAscii digits)).map Color.argb := by
  have htrim : trim ('#' :: digits) = '#' :: digits := by
    apply IsTrimmed.trim_eq
    refine ⟨fun c hc => by cases hc; decide, fun c hc => ?_⟩
    obtain rfl | hmem := List.mem_cons.mp (List.mem_of_mem_getLast? hc)
    · decide
    · exact not_isBlank_of_isHexDigit (hdigits c hmem)
  have hlower : lowerAscii (trim ('#' :: digits)) = '#' :: lowerAscii digits := by
    rw [htrim]
    rfl
  rw [parseColor?_eq_plainColor?, hlower]
  · exact if_pos (by simp)
  · rw [hlower]
    rfl

/-- Accepted hexadecimal digits are three to eight. -/
theorem length_of_accepted {vocabulary : Vocabulary} {digits : List Char}
    (hdigits : ∀ c ∈ digits, isHexDigit c = true)
    (haccepted : (parseColor? vocabulary ('#' :: digits)).isSome = true) :
    3 ≤ digits.length ∧ digits.length ≤ 8 := by
  rw [parseColor?_hexDigits hdigits, Option.isSome_map] at haccepted
  obtain ⟨rgba, hrgba⟩ := Option.isSome_iff_exists.mp haccepted
  obtain ⟨others, hothers, -, hlength⟩ := isHexDigit_of_ofCssHex? hrgba
  cases hothers
  rwa [lowerAscii, List.length_map] at hlength

/-! ## Notations within compound values -/

namespace ColorNotation

theorem text_ne_nil (color : ColorNotation) : color.text ≠ [] := by
  cases color <;> simp [text, call]

/-- An accepted color whose fallback is no function is found at its place as a whole. -/
theorem embeddedColor?_text {vocabulary : Vocabulary} (color : ColorNotation)
    (haccepted : (parseColor? vocabulary color.text).isSome = true)
    (hplain : ¬ color.NestsFunction) {rest : List Char}
    (hrest : ∀ c ∈ rest.head?, isHexDigit c = false) :
    embeddedColor? none (color.text ++ rest) = some (color.text, color.text.length) := by
  cases color with
  | hex digits hdigits =>
    obtain ⟨hleast, hmost⟩ := length_of_accepted hdigits haccepted
    exact embeddedColor?_hex hdigits hleast hmost hrest
  | channels name inside hname =>
    exact embeddedColor?_call (by obtain h | h := hname <;> simp [functionNames, h])
      (parenthesis_not_mem_of_accepted hname haccepted) rest
  | reference name token hname htoken =>
    exact embeddedColor?_call (by simp [functionNames, hname]) htoken.2 rest
  | referenceOr name token before fallback after hname htoken hbefore hafter =>
    cases fallback with
    | hex digits hdigits =>
      apply embeddedColor?_call (by simp [functionNames, hname])
      have hclose : ')' ∉ digits := fun hmem => absurd (hdigits ')' hmem) (by decide)
      have hblank : isBlank ')' = false := by decide
      simp [text, htoken, hclose, not_mem_of_allBlank hbefore hblank,
        not_mem_of_allBlank hafter hblank]
    | channels | reference | referenceOr => exact absurd trivial hplain

theorem exists_cut_call {name : List Char} (hname : lowerAscii name ∈ functionNames)
    (inside : List Char) :
    ∃ front back, call name inside = front ++ ')' :: back ∧ ')' ∉ front ∧ '(' ∈ front := by
  have hmarks : ∀ lower ∈ functionNames, ')' ∉ lower := by decide
  have hclose := hmarks _ hname
  rw [mem_lowerAscii_iff (by decide)] at hclose
  obtain ⟨front, back, hcut, hfront⟩ := List.eq_append_cons_of_mem
    (show ')' ∈ inside ++ [')'] by simp)
  refine ⟨name ++ '(' :: front, back, by simp [call, hcut], ?_, by simp⟩
  simp [hclose, hfront]

/-- A function opens a parenthesis before the first one that closes. -/
theorem exists_cut_of_isFunction {color : ColorNotation} (hfunction : color.IsFunction) :
    ∃ front back, color.text = front ++ ')' :: back ∧ ')' ∉ front ∧ '(' ∈ front := by
  cases color with
  | hex => cases hfunction
  | channels name inside hname =>
    exact exists_cut_call (by obtain h | h := hname <;> simp [functionNames, h]) inside
  | reference name token hname => exact exists_cut_call (by simp [functionNames, hname]) token
  | referenceOr name token before fallback after hname =>
    exact exists_cut_call (by simp [functionNames, hname]) _

/-- A color that nests a function is cut at the first closing parenthesis, and a part is left. -/
theorem exists_cut_of_nestsFunction {color : ColorNotation} (hnests : color.NestsFunction)
    (vocabulary : Vocabulary) :
    ∃ cut left, color.text = cut ++ left ∧ cut ≠ [] ∧ left ≠ [] ∧
      (∀ rest, embeddedColor? none (cut ++ rest) = some (cut, cut.length)) ∧
      parseColor? vocabulary cut = color.tokenColor? vocabulary := by
  cases color with
  | hex | channels | reference => cases hnests
  | referenceOr name token before fallback after hname htoken hbefore hafter =>
    obtain ⟨front, back, hcut, hclose, hopen⟩ := exists_cut_of_isFunction hnests
    have hbefore : ')' ∉ before := not_mem_of_allBlank hbefore
    refine ⟨call name (token ++ ',' :: (before ++ front)), back ++ (after ++ [')']),
      ?_, ?_, ?_, ?_, ?_⟩
    · simp [text, call, hcut]
    · simp [call]
    · simp
    · exact embeddedColor?_call (by simp [functionNames, hname]) (by simp [htoken, hbefore, hclose])
    · exact parseColor?_reference_open hname htoken.1 (by simp [hopen])
        (by simp [hbefore, hclose]) vocabulary

end ColorNotation

/-- An accepted color is found in a compound value, behind what names no color, as the color that it
    is by itself, and is taken out as a whole. If its fallback is a function, only the color of its
    token is found, and not all of the notation is taken out. -/
theorem findColor?_embedded (vocabulary : Vocabulary) (color : ColorNotation)
    (haccepted : (parseColor? vocabulary color.text).isSome = true) {front back : List Char}
    (hfront : NamesNoColor front) (hback : ∀ c ∈ back.head?, isHexDigit c = false) :
    (¬ color.NestsFunction →
      findColor? vocabulary (front ++ ' ' :: (color.text ++ back)) =
          parseColor? vocabulary color.text ∧
        stripColor (front ++ ' ' :: (color.text ++ back)) = front ++ ' ' :: back) ∧
    (color.NestsFunction →
      findColor? vocabulary (front ++ ' ' :: (color.text ++ back)) = color.tokenColor? vocabulary ∧
        stripColor (front ++ ' ' :: (color.text ++ back)) ≠ front ++ ' ' :: back) := by
  constructor
  · intro hplain
    have hmatch := firstMatch?_embeddedColor hfront color.text_ne_nil
      (color.embeddedColor?_text haccepted hplain hback)
    rw [findColor?, stripColor, hmatch]
    simp
  · intro hnests
    obtain ⟨cut, left, htext, hcut, hleft, hfound, hcolor⟩ :=
      color.exists_cut_of_nestsFunction hnests vocabulary
    have hmatch := firstMatch?_embeddedColor hfront hcut (hfound (left ++ back))
    rw [htext, List.append_assoc, findColor?, stripColor, hmatch]
    refine ⟨hcolor, fun hsame => hleft ?_⟩
    simpa using hsame

/-- The token `--shadow` with a shade in hexadecimal digits for a fallback. -/
private def shadowColor : ColorNotation :=
  .referenceOr "VAR".toList "--shadow".toList " ".toList
    (.hex "1018280D".toList (List.all_eq_true.mp (by decide))) []
    (by decide) (by decide) (by decide) (by decide)

/-- A token with a color in channels for a fallback. -/
private def lineColor (token : String) (htoken : ',' ∉ token.toList ∧ ')' ∉ token.toList) :
    ColorNotation :=
  .referenceOr "var".toList token.toList " ".toList
    (.channels "rgb".toList "1, 2, 3".toList (by decide)) []
    (by decide) htoken (by decide) (by decide)

/-- A shadow with the fallback of its color, and a border with a known token that has one too. -/
theorem findColor?_embedded_shadow :
    (findColor? .standard "0 2px VAR(--shadow, #1018280D) inset".toList =
        some (.argb ⟨0x10, 0x18, 0x28, 0x0d⟩) ∧
      stripColor "0 2px VAR(--shadow, #1018280D) inset".toList = "0 2px  inset".toList) ∧
    findColor? .standard "1px solid var(--primary, rgb(1, 2, 3))".toList =
        some (.token "AppColors.primary") ∧
      stripColor "1px solid var(--primary, rgb(1, 2, 3))".toList ≠ "1px solid ".toList := by
  have hshadow : parseColor? .standard shadowColor.text =
      some (.argb ⟨0x10, 0x18, 0x28, 0x0d⟩) := by decide +kernel
  have hline : parseColor? .standard (lineColor "--primary" (by decide)).text =
      some (.token "AppColors.primary") := by decide +kernel
  have hinset : ∀ c ∈ " inset".toList.head?, isHexDigit c = false := fun c hc => by
    obtain rfl : ' ' = c := by simpa using hc
    decide
  have hembedded := (findColor?_embedded .standard shadowColor (by rw [hshadow]; rfl)
    (⟨by decide, by decide, by decide⟩ : NamesNoColor "0 2px".toList) hinset).1 id
  rw [hshadow] at hembedded
  have hnested := (@findColor?_embedded .standard (lineColor "--primary" (by decide))
    (by rw [hline]; rfl) "1px solid".toList [] ⟨by decide, by decide, by decide⟩
    (by simp)).2 trivial
  exact ⟨hembedded, hnested⟩

/-- Channels that stand in for an unknown token are the color of the value by itself, but not within
    a border, where a parenthesis is left over. -/
theorem findColor?_loses_channels :
    NamesNoColor "1px solid".toList ∧
      (lineColor "--line" (by decide)).text = "var(--line, rgb(1, 2, 3))".toList ∧
      parseColor? .standard "var(--line, rgb(1, 2, 3))".toList = some (.argb ⟨1, 2, 3, 255⟩) ∧
      findColor? .standard "1px solid var(--line, rgb(1, 2, 3))".toList = none ∧
      stripColor "1px solid var(--line, rgb(1, 2, 3))".toList = "1px solid )".toList :=
  ⟨⟨by decide, by decide, by decide⟩, by decide, by decide +kernel, by decide +kernel,
    by decide +kernel⟩

end DesignCompiler.Style
