import DesignCompiler.Proofs.Dart.Literal
import DesignCompiler.Proofs.Dart.Nesting
import DesignCompiler.Proofs.Text.Splitting
import Mathlib.Data.List.Forall2

/-!
# Layout

Over several lines an expression has the same tokens as on one line. Without its layout, which is
the line breaks with the spaces after them and the commas at the ends of lines, its text is the one
on a single line, wherever the lines are broken.
-/

namespace DesignCompiler.Dart

open Text

/-! ## Texts without their layout -/

/-- The brackets before the parts of an expression. -/
def openingBrackets : List Char := ['(', '[']

/-- The brackets after the parts of an expression. -/
def closingBrackets : List Char := [')', ']']

/-- A line without its indentation. -/
def unindented (line : List Char) : List Char := line.dropWhile (· == ' ')

/-- The text on a single line. A line break after an opening bracket goes with the indentation after
    it. A comma and a line break go too before a closing bracket, and elsewhere they are a comma and
    a space. -/
def withoutLayout : List Char → List Char
  | [] => []
  | c :: '\n' :: rest =>
    if c ∈ openingBrackets then c :: withoutLayout (unindented rest)
    else if c = ',' then
      if (unindented rest).head?.any (· ∈ closingBrackets) then withoutLayout (unindented rest)
      else ',' :: ' ' :: withoutLayout (unindented rest)
    else c :: withoutLayout ('\n' :: rest)
  | c :: rest => c :: withoutLayout rest
termination_by text => text.length
decreasing_by
  all_goals
    have : (unindented rest).length ≤ rest.length := (List.dropWhile_sublist _).length_le
    simp only [List.length_cons]
    omega

theorem withoutLayout_cons {c : Char} {rest : List Char} (hrest : rest.head? ≠ some '\n') :
    withoutLayout (c :: rest) = c :: withoutLayout rest := by
  rw [withoutLayout]
  rintro tail rfl
  exact hrest rfl

theorem withoutLayout_opening {c : Char} (hc : c ∈ openingBrackets) (rest : List Char) :
    withoutLayout (c :: '\n' :: rest) = c :: withoutLayout (unindented rest) := by
  rw [withoutLayout, if_pos hc]

theorem withoutLayout_comma_of_closing {rest : List Char}
    (hrest : (unindented rest).head?.any (· ∈ closingBrackets) = true) :
    withoutLayout (',' :: '\n' :: rest) = withoutLayout (unindented rest) := by
  rw [withoutLayout, if_neg (by decide), if_pos rfl, if_pos hrest]

theorem withoutLayout_comma {rest : List Char}
    (hrest : ¬ (unindented rest).head?.any (· ∈ closingBrackets) = true) :
    withoutLayout (',' :: '\n' :: rest) = ',' :: ' ' :: withoutLayout (unindented rest) := by
  rw [withoutLayout, if_neg (by decide), if_pos rfl, if_neg hrest]

theorem withoutLayout_append {text rest : List Char} (htext : '\n' ∉ text)
    (hrest : rest.head? ≠ some '\n') :
    withoutLayout (text ++ rest) = text ++ withoutLayout rest := by
  induction text with
  | nil => rfl
  | cons c text ih =>
    rw [List.mem_cons, not_or] at htext
    rw [List.cons_append, withoutLayout_cons, ih htext.2, List.cons_append]
    cases text with
    | nil => exact hrest
    | cons d text =>
      rw [List.mem_cons, not_or] at htext
      simpa using Ne.symm htext.2.1

theorem unindented_indented (n : Nat) {c : Char} {rest : List Char} (hc : c ≠ ' ') :
    unindented (List.replicate n ' ' ++ c :: rest) = c :: rest := by
  rw [unindented, List.dropWhile_append_of_pos (by simp),
    List.dropWhile_cons_of_neg (by simpa using hc)]

/-! ## Tokens -/

/-- The characters that no token begins with. -/
def layoutMarks : List Char := ['\n', ' ', ')', ']']

theorem mem_layoutMarks_of_closing {c : Char} (hc : c ∈ closingBrackets) : c ∈ layoutMarks :=
  List.mem_cons_of_mem _ (List.mem_cons_of_mem _ hc)

/-- A text that stands on one line and begins with a token. -/
structure IsToken (text : List Char) : Prop where
  singleLine : '\n' ∉ text
  begins : ∃ c ∈ text.head?, c ∉ layoutMarks

theorem forall_of_all {text : List Char} (hall : text.all (!layoutMarks.contains ·) = true) :
    ∀ c ∈ text, c ∉ layoutMarks := by
  simpa using hall

theorem isToken_of_forall {text : List Char} (hne : text ≠ [])
    (hall : ∀ c ∈ text, c ∉ layoutMarks) : IsToken text := by
  refine ⟨fun hline => hall _ hline (by decide), ?_⟩
  cases text with
  | nil => exact absurd rfl hne
  | cons c text => exact ⟨c, rfl, hall c List.mem_cons_self⟩

/-- A longer text begins with the same token. -/
theorem exists_head?_append {text : List Char} (h : ∃ c ∈ text.head?, c ∉ layoutMarks)
    (rest : List Char) : ∃ c ∈ (text ++ rest).head?, c ∉ layoutMarks := by
  obtain ⟨c, hc, hmark⟩ := h
  refine ⟨c, ?_, hmark⟩
  rw [List.head?_append, Option.mem_def.mp hc]
  rfl

theorem IsToken.append {text rest : List Char} (htext : IsToken text) (hrest : '\n' ∉ rest) :
    IsToken (text ++ rest) :=
  ⟨by simp [htext.singleLine, hrest], exists_head?_append htext.begins rest⟩

/-! ### Numbers -/

theorem not_mem_layoutMarks_of_isDigit {c : Char} (hc : c.isDigit = true) : c ∉ layoutMarks := by
  intro hmem
  simp only [layoutMarks, List.mem_cons, List.not_mem_nil, or_false] at hmem
  obtain rfl | rfl | rfl | rfl := hmem <;> exact absurd hc (by decide)

theorem not_mem_layoutMarks_of_mem_positional {d : Decimal.Scaled} {c : Char}
    (hc : c ∈ d.positional) : c ∉ layoutMarks := by
  have hdigits : ∀ c ∈ Nat.toDigits 10 d.coefficient, c ∉ layoutMarks := fun c hc =>
    not_mem_layoutMarks_of_isDigit (Nat.isDigit_of_mem_toDigits (by decide) (by decide) hc)
  have hzeros : ∀ n, ∀ c ∈ List.replicate n '0', c ∉ layoutMarks := by
    intro n c hc
    rw [List.eq_of_mem_replicate hc]
    decide
  rw [Decimal.Scaled.positional] at hc
  dsimp only at hc
  split at hc
  · obtain h | h := List.mem_append.mp hc
    · exact hdigits c h
    · exact hzeros _ c h
  · split at hc
    · simp only [List.mem_append, List.mem_cons] at hc
      obtain h | rfl | h := hc
      · exact hdigits c (List.mem_of_mem_take h)
      · decide
      · exact hdigits c (List.mem_of_mem_drop h)
    · simp only [List.mem_append, List.mem_cons] at hc
      obtain (rfl | rfl | h) | h := hc
      · decide
      · decide
      · exact hzeros _ c h
      · exact hdigits c h

theorem positional_ne_nil (d : Decimal.Scaled) : d.positional ≠ [] := by
  rw [Decimal.Scaled.positional]
  dsimp only
  split
  · exact List.append_ne_nil_of_left_ne_nil Nat.toDigits_ne_nil _
  · split <;> simp

theorem isToken_text (x : Float) : IsToken (Decimal.text x).toList := by
  have hsigned : ∀ {bits : Nat} {body : List Char}, body ≠ [] →
      (∀ c ∈ body, c ∉ layoutMarks) →
      IsToken (String.ofList
        ((if bits ≥ 0x8000000000000000 then ['-'] else []) ++ body)).toList := by
    intro bits body hne hbody
    rw [String.toList_ofList]
    refine isToken_of_forall (List.append_ne_nil_of_right_ne_nil _ hne) fun c hc => ?_
    obtain h | h := List.mem_append.mp hc
    · split at h
      · obtain rfl := List.mem_singleton.mp h
        decide
      · cases h
    · exact hbody c h
  rw [Decimal.text]
  split
  · exact isToken_of_forall (by decide) (forall_of_all (by decide))
  · split
    · exact hsigned (by decide) (forall_of_all (by decide))
    · split
      · exact hsigned (by decide) (forall_of_all (by decide))
      · exact hsigned (positional_ne_nil _) fun c hc => not_mem_layoutMarks_of_mem_positional hc

theorem isToken_numberText (x : Float) : IsToken (numberText x).toList := by
  rw [numberText]
  split
  · exact isToken_of_forall (by decide) (forall_of_all (by decide))
  · exact isToken_text x

/-! ### Literals -/

/-- A line break in a literal is written as an escape. -/
theorem not_mem_escapeChar (c : Char) : '\n' ∉ escapeChar c := by
  unfold escapeChar
  split
  · decide
  · decide
  · decide
  · decide
  · decide
  · decide
  · rw [List.mem_singleton]
    exact fun hc => ‹c = '\n' → False› hc.symm

theorem isToken_stringLiteral (text : String) : IsToken (stringLiteral text).toList := by
  rw [stringLiteral, String.toList_ofList]
  refine ⟨?_, '\'', rfl, by decide⟩
  have hbody : '\n' ∉ text.toList.flatMap escapeChar := by
    simp [not_mem_escapeChar]
  simp [hbody]

/-! ### Expressions -/

/-- The names that an expression itself is written with. -/
def Expr.names : Expr → List String
  | .call callee _ arguments => callee :: arguments.map Prod.fst
  | .ident path => [path]
  | _ => []

/-- All names in an expression are texts on one line that begin with a token. -/
def HasNames (e : Expr) : Prop := ∀ sub, Nested sub e → ∀ name ∈ sub.names, IsToken name.toList

namespace HasNames

theorem ident {path : String} (hnames : HasNames (.ident path)) : IsToken path.toList :=
  hnames _ .here path List.mem_cons_self

theorem callee {callee : String} {args : List Expr} {arguments : List Argument}
    (hnames : HasNames (.call callee args arguments)) : IsToken callee.toList :=
  hnames _ .here callee List.mem_cons_self

theorem args {callee : String} {args : List Expr} {arguments : List Argument}
    (hnames : HasNames (.call callee args arguments)) : ∀ e ∈ args, HasNames e :=
  fun _ hmem sub hsub => hnames sub (.positional hmem hsub)

theorem arguments {callee : String} {args : List Expr} {arguments : List Argument}
    (hnames : HasNames (.call callee args arguments)) :
    ∀ argument ∈ arguments, IsToken argument.1.toList ∧ HasNames argument.2 := by
  intro argument hmem
  refine ⟨hnames _ .here _ ?_, fun sub hsub => hnames sub (.named hmem hsub)⟩
  exact List.mem_cons_of_mem callee (List.mem_map_of_mem hmem)

theorem items {items : List Expr} (hnames : HasNames (.list items)) : ∀ e ∈ items, HasNames e :=
  fun _ hmem sub hsub => hnames sub (.element hmem hsub)

end HasNames

theorem not_mem_joined {texts : List String} (htexts : ∀ text ∈ texts, '\n' ∉ text.toList) :
    '\n' ∉ (joined ", " texts).toList := by
  rw [joined, String.toList_intercalate]
  intro hmem
  obtain h | ⟨piece, hpiece, h⟩ := mem_intercalate hmem
  · exact absurd h (by decide)
  · obtain ⟨text, htext, rfl⟩ := List.mem_map.mp hpiece
    exact htexts text htext h

mutual

/-- On one line an expression is a token followed by others. -/
theorem isToken_flat : ∀ e : Expr, HasNames e → IsToken e.flat.toList
  | .call callee args arguments, hnames => by
    rw [Expr.flat]
    simp only [String.toList_append]
    rw [List.append_assoc, List.append_assoc]
    refine hnames.callee.append ?_
    have hjoined :
        '\n' ∉ (joined ", " (Expr.flatList args ++ Expr.flatNamed arguments)).toList := by
      refine not_mem_joined fun text htext => ?_
      obtain h | h := List.mem_append.mp htext
      · exact (isToken_flatList args hnames.args text h).singleLine
      · exact (isToken_flatNamed arguments hnames.arguments text h).singleLine
    simp [hjoined]
  | .list items, hnames => by
    rw [Expr.flat]
    simp only [String.toList_append]
    have hjoined : '\n' ∉ (joined ", " (Expr.flatList items)).toList :=
      not_mem_joined fun text htext => (isToken_flatList items hnames.items text htext).singleLine
    exact ⟨by simp [hjoined], '[', rfl, by decide⟩
  | .str text, _ => isToken_stringLiteral text
  | .num value, _ => isToken_numberText value
  | .bool value, _ => by
    cases value <;> exact isToken_of_forall (by decide) (forall_of_all (by decide))
  | .ident path, hnames => hnames.ident
  | .extent (.fixed width), _ => isToken_numberText width
  | .extent .available, _ => isToken_of_forall (by decide) (forall_of_all (by decide))

theorem isToken_flatList : ∀ items : List Expr, (∀ e ∈ items, HasNames e) →
    ∀ text ∈ Expr.flatList items, IsToken text.toList
  | [], _ => by simp [Expr.flatList]
  | e :: items, hnames => by
    rw [List.forall_mem_cons] at hnames
    rw [Expr.flatList, List.forall_mem_cons]
    exact ⟨isToken_flat e hnames.1, isToken_flatList items hnames.2⟩

theorem isToken_flatNamed : ∀ arguments : List (String × Expr),
    (∀ argument ∈ arguments, IsToken argument.1.toList ∧ HasNames argument.2) →
    ∀ text ∈ Expr.flatNamed arguments, IsToken text.toList
  | [], _ => by simp [Expr.flatNamed]
  | (name, e) :: arguments, hnames => by
    rw [List.forall_mem_cons] at hnames
    rw [Expr.flatNamed, List.forall_mem_cons]
    refine ⟨?_, isToken_flatNamed arguments hnames.2⟩
    simp only [String.toList_append]
    rw [List.append_assoc]
    refine hnames.1.1.append ?_
    have he := (isToken_flat e hnames.1.2).singleLine
    simp [he]

end

/-! ## Expressions over several lines -/

/-- A text that without its layout is `flat`, by itself and before what follows it. -/
structure LaysOut (flat laid : List Char) : Prop where
  begins : ∃ c ∈ laid.head?, c ∉ layoutMarks
  withoutLayout_eq : ∀ rest, rest.head? ≠ some '\n' →
    withoutLayout (laid ++ rest) = flat ++ withoutLayout rest

theorem IsToken.laysOut {text : List Char} (htext : IsToken text) : LaysOut text text :=
  ⟨htext.begins, fun _ => withoutLayout_append htext.singleLine⟩

theorem LaysOut.after {front flat laid : List Char} (hfront : IsToken front)
    (hlaid : LaysOut flat laid) : LaysOut (front ++ flat) (front ++ laid) := by
  refine ⟨exists_head?_append hfront.begins laid, fun rest hrest => ?_⟩
  have hhead : (laid ++ rest).head? ≠ some '\n' := by
    obtain ⟨c, hc, hmark⟩ := exists_head?_append hlaid.begins rest
    intro hbreak
    rw [Option.mem_def, hbreak] at hc
    exact hmark (Option.some.inj hc ▸ by decide)
  rw [List.append_assoc, withoutLayout_append hfront.singleLine hhead,
    hlaid.withoutLayout_eq rest hrest, List.append_assoc]

/-- Parts on lines of their own, each ended by a comma. -/
def lines (indent : Nat) (parts : List (List Char)) : List Char :=
  parts.flatMap fun part => List.replicate indent ' ' ++ part ++ [',', '\n']

@[simp]
theorem lines_nil (indent : Nat) : lines indent [] = [] := rfl

theorem lines_cons (indent : Nat) (part : List Char) (parts : List (List Char)) :
    lines indent (part :: parts) =
      List.replicate indent ' ' ++ (part ++ ',' :: '\n' :: lines indent parts) := by
  simp [lines]

theorem unindented_lines_cons (indent : Nat) {part : List Char} {parts : List (List Char)}
    (hpart : ∃ c ∈ part.head?, c ∉ layoutMarks) (text : List Char) :
    unindented (lines indent (part :: parts) ++ text) =
      part ++ ',' :: '\n' :: (lines indent parts ++ text) := by
  obtain ⟨c, hc, hmark⟩ := hpart
  obtain ⟨part, rfl⟩ := List.head?_eq_some_iff.mp hc
  have hspace : c ≠ ' ' := by
    rintro rfl
    exact hmark (by decide)
  rw [lines_cons]
  simp only [List.append_assoc, List.cons_append]
  exact unindented_indented indent hspace

/-- The lines of parts up to the closing bracket come down to the parts with commas between them.
    The indentation that the text begins with belongs to the line break before it. -/
theorem LaysOut.withoutLayout_lines {flats parts : List (List Char)}
    (hparts : List.Forall₂ LaysOut flats parts) (indent outer : Nat) {closing : Char}
    (hclosing : closing ∈ closingBrackets) (rest : List Char) (hrest : rest.head? ≠ some '\n') :
    withoutLayout (unindented
        (lines indent parts ++ (List.replicate outer ' ' ++ closing :: rest))) =
      [',', ' '].intercalate flats ++ closing :: withoutLayout rest := by
  have hspace : closing ≠ ' ' := by
    rintro rfl
    exact absurd hclosing (by decide)
  induction hparts with
  | nil =>
    rw [lines_nil, List.nil_append, unindented_indented outer hspace, withoutLayout_cons hrest]
    rfl
  | @cons flat part flats parts hpart hothers ih =>
    rw [unindented_lines_cons indent hpart.begins, hpart.withoutLayout_eq _ (by simp)]
    -- Whether the comma stays is up to the next part, so the tail is taken apart once more.
    cases hothers with
    | nil =>
      have hlast : (unindented (lines indent [] ++ (List.replicate outer ' ' ++
          closing :: rest))).head?.any (· ∈ closingBrackets) = true := by
        rw [lines_nil, List.nil_append, unindented_indented outer hspace]
        simpa using hclosing
      rw [withoutLayout_comma_of_closing hlast, ih, List.intercalate_singleton]
      rfl
    | @cons next line flats parts hnext hothers =>
      obtain ⟨c, hc, hmark⟩ := hnext.begins
      have hmore : ¬ (unindented (lines indent (line :: parts) ++ (List.replicate outer ' ' ++
          closing :: rest))).head?.any (· ∈ closingBrackets) = true := by
        rw [unindented_lines_cons indent hnext.begins, List.head?_append, Option.mem_def.mp hc]
        intro hclose
        exact hmark (mem_layoutMarks_of_closing (by simpa using hclose))
      rw [withoutLayout_comma hmore, ih, List.intercalate_cons_cons]
      simp

/-- An expression over several lines: the parts of it that lay out lie between brackets. -/
theorem LaysOut.broken {front : List Char} {opening closing : Char}
    (hfront : IsToken (front ++ [opening])) (hopening : opening ∈ openingBrackets)
    (hclosing : closing ∈ closingBrackets) {flats parts : List (List Char)}
    (hparts : List.Forall₂ LaysOut flats parts) (indent outer : Nat) :
    LaysOut (front ++ opening :: ([',', ' '].intercalate flats ++ [closing]))
      (front ++ opening :: '\n' ::
        (lines indent parts ++ (List.replicate outer ' ' ++ [closing]))) := by
  constructor
  · rw [← List.singleton_append, ← List.append_assoc]
    exact exists_head?_append hfront.begins _
  · intro rest hrest
    have hline : '\n' ∉ front := fun h => hfront.singleLine (List.mem_append_left _ h)
    have hbreak : opening ≠ '\n' := by
      rintro rfl
      exact absurd hopening (by decide)
    have hlines := withoutLayout_lines hparts indent outer hclosing rest hrest
    simp only [List.append_assoc, List.cons_append, List.nil_append]
    rw [withoutLayout_append hline (by simpa using hbreak), withoutLayout_opening hopening, hlines]

theorem toList_spaces (n : Nat) : (Expr.spaces n).toList = List.replicate n ' ' := by
  rw [Expr.spaces, String.toList_ofList]

theorem toList_joined (texts : List String) :
    (joined ", " texts).toList = [',', ' '].intercalate (texts.map String.toList) := by
  rw [joined, String.toList_intercalate]
  rfl

/-- Wherever it stays on a line, an expression lays out. -/
theorem laysOut_render_of_flat {e : Expr} {indent column : Nat} (hnames : HasNames e)
    (hflat : e.render indent column = e.flat) :
    LaysOut e.flat.toList (e.render indent column).toList := by
  rw [hflat]
  exact (isToken_flat e hnames).laysOut

mutual

/-- The text of an expression is the one on a single line with a layout. -/
theorem laysOut_render : ∀ e : Expr, HasNames e → ∀ indent column,
    LaysOut e.flat.toList (e.render indent column).toList
  | .call callee args arguments, hnames, indent, column => by
    by_cases hstays : (Expr.call callee args arguments).staysFlat column = true
    · exact laysOut_render_of_flat hnames (by rw [Expr.render, if_pos hstays])
    · obtain ⟨parts, hparts, hlines⟩ := laysOut_renderList args hnames.args (indent + 2)
      obtain ⟨others, hothers, hnamed⟩ :=
        laysOut_renderNamed arguments hnames.arguments (indent + 2)
      have hopening : IsToken (callee.toList ++ ['(']) := hnames.callee.append (by decide)
      have hbroken := LaysOut.broken hopening (by decide) (show ')' ∈ closingBrackets by decide)
        (List.rel_append hparts hothers) (indent + 2) indent
      have hflat : (Expr.call callee args arguments).flat.toList =
          callee.toList ++ '(' :: ([',', ' '].intercalate ((Expr.flatList args).map String.toList ++
            (Expr.flatNamed arguments).map String.toList) ++ [')']) := by
        simp [Expr.flat, toList_joined]
      have hlaid : ((Expr.call callee args arguments).render indent column).toList =
          callee.toList ++ '(' :: '\n' ::
            (lines (indent + 2) (parts ++ others) ++ (List.replicate indent ' ' ++ [')'])) := by
        rw [Expr.render, if_neg hstays]
        simp [toList_spaces, hlines, hnamed, lines]
      rwa [hflat, hlaid]
  | .list items, hnames, indent, column => by
    by_cases hstays : (Expr.list items).staysFlat column = true
    · exact laysOut_render_of_flat hnames (by rw [Expr.render, if_pos hstays])
    · obtain ⟨parts, hparts, hlines⟩ := laysOut_renderList items hnames.items (indent + 2)
      have hopening : IsToken ([] ++ ['[']) :=
        isToken_of_forall (by decide) (forall_of_all (by decide))
      have hbroken := LaysOut.broken hopening (by decide) (show ']' ∈ closingBrackets by decide)
        hparts (indent + 2) indent
      have hflat : (Expr.list items).flat.toList =
          '[' :: ([',', ' '].intercalate ((Expr.flatList items).map String.toList) ++ [']']) := by
        simp [Expr.flat, toList_joined]
      have hlaid : ((Expr.list items).render indent column).toList =
          '[' :: '\n' :: (lines (indent + 2) parts ++ (List.replicate indent ' ' ++ [']'])) := by
        rw [Expr.render, if_neg hstays]
        simp [toList_spaces, hlines]
      rwa [hflat, hlaid]
  | .str text, hnames, _, _ => laysOut_render_of_flat hnames rfl
  | .num value, hnames, _, _ => laysOut_render_of_flat hnames rfl
  | .bool value, hnames, _, _ => laysOut_render_of_flat hnames rfl
  | .ident path, hnames, _, _ => laysOut_render_of_flat hnames rfl
  | .extent width, hnames, _, _ => laysOut_render_of_flat hnames rfl

/-- The lines of expressions. -/
theorem laysOut_renderList : ∀ items : List Expr, (∀ e ∈ items, HasNames e) → ∀ indent,
    ∃ parts, List.Forall₂ LaysOut ((Expr.flatList items).map String.toList) parts ∧
      (Expr.renderList indent items).toList = lines indent parts
  | [], _, indent => ⟨[], .nil, rfl⟩
  | e :: items, hnames, indent => by
    rw [List.forall_mem_cons] at hnames
    obtain ⟨parts, hparts, hlines⟩ := laysOut_renderList items hnames.2 indent
    refine ⟨(e.render indent indent).toList :: parts, .cons ?_ hparts, ?_⟩
    · exact laysOut_render e hnames.1 indent indent
    · rw [Expr.renderList, lines_cons, ← hlines]
      simp [toList_spaces]

/-- The lines of named arguments. -/
theorem laysOut_renderNamed : ∀ arguments : List (String × Expr),
    (∀ argument ∈ arguments, IsToken argument.1.toList ∧ HasNames argument.2) → ∀ indent,
    ∃ parts, List.Forall₂ LaysOut ((Expr.flatNamed arguments).map String.toList) parts ∧
      (Expr.renderNamed indent arguments).toList = lines indent parts
  | [], _, indent => ⟨[], .nil, rfl⟩
  | (name, e) :: arguments, hnames, indent => by
    rw [List.forall_mem_cons] at hnames
    obtain ⟨parts, hparts, hlines⟩ := laysOut_renderNamed arguments hnames.2 indent
    have he := laysOut_render e hnames.1.2 indent (indent + name.utf8ByteSize + 2)
    have hlabel : IsToken (name ++ ": ").toList := by
      rw [String.toList_append]
      exact hnames.1.1.append (by decide)
    have hpart := he.after hlabel
    rw [← String.toList_append] at hpart
    refine ⟨_, .cons hpart hparts, ?_⟩
    rw [Expr.renderNamed, lines_cons, ← hlines]
    simp [toList_spaces]

end

/-- Without its layout the text of an expression is the one on a single line, and where that ends
    within the width of a line there is no layout. -/
theorem withoutLayout_render {e : Expr} (hnames : HasNames e) (indent column : Nat) :
    withoutLayout (e.render indent column).toList = e.flat.toList ∧
      (column + e.flat.length ≤ 80 → '\n' ∉ (e.render indent column).toList) := by
  constructor
  · have h := (laysOut_render e hnames indent column).withoutLayout_eq [] (by simp)
    rwa [List.append_nil, withoutLayout, List.append_nil] at h
  · intro hfits
    have hflat : e.render indent column = e.flat := by
      have hstays : e.staysFlat column = true := by
        rw [Expr.staysFlat, Bool.or_eq_true]
        exact .inl (decide_eq_true hfits)
      cases e with
      | call => rw [Expr.render, if_pos hstays]
      | list => rw [Expr.render, if_pos hstays]
      | _ => rfl
    rw [hflat]
    exact (isToken_flat e hnames).singleLine

/-- A box around a text with a comma, brackets and a line break in it. -/
def notice : Expr :=
  .named "Padding" [
    ("padding", .ident "EdgeInsets.zero"),
    Expr.child (.call "Text" [.str "Nothing is left here, (so far),\n) as one can see."]
      [("maxLines", .num 2.0)])]

theorem withoutLayout_render_notice :
    HasNames notice ∧ '\n' ∈ (notice.render 4 60).toList ∧
      withoutLayout (notice.render 4 60).toList = notice.flat.toList := by
  have hnames : HasNames notice := by
    have hall : ∀ sub ∈ notice.subterms, ∀ name ∈ sub.names,
        name.toList ≠ [] ∧ name.toList.all (!layoutMarks.contains ·) = true := by decide +kernel
    intro sub hsub name hname
    obtain ⟨hne, hmarks⟩ := hall sub (mem_subterms_iff.mpr hsub) name hname
    exact isToken_of_forall hne (forall_of_all hmarks)
  refine ⟨hnames, by decide +kernel, (withoutLayout_render hnames 4 60).1⟩

end DesignCompiler.Dart
