import DesignCompiler.Proofs.Markup.RoundTrip

/-!
# What follows the root

Reading stops at the end of the root. It never looks past it, so that what follows does not matter,
and it needs all of it, so that no text that breaks off earlier can be read.
-/

namespace DesignCompiler.Markup

open Text

/-! ## Tokens -/

namespace TagToken

/-- A token that shows its own end. A name or a slash may go on in what follows. -/
def isDelimited : TagToken → Bool
  | .name _ => false
  | .slash => false
  | _ => true

/-- A token that shows its end, or after which the text goes on, has ended. -/
def HasEnded (token : TagToken) (rest : List Char) : Prop := token.isDelimited = true ∨ rest ≠ []

theorem scan?_slash {d : Char} (hd : d ≠ '>') (rest : List Char) :
    scan? ('/' :: d :: rest) = some (.slash, d :: rest) := by
  rw [scan?.eq_def]
  split
  case h_1 h => cases h
  case h_2 h => exact absurd (List.cons.inj (List.cons.inj h).2).1 hd
  case h_3 h =>
    obtain ⟨rfl, rfl⟩ := List.cons.inj h
    rfl

/-- The token that a text begins with, if that is no slash. -/
theorem scan?_of_ne {c : Char} (hc : c ≠ '/') (rest : List Char) :
    scan? (c :: rest) =
      if c == '>' then some (.close, rest)
      else if c == '=' then some (.equals, rest)
      else if c == '{' then some (.braceOpen, rest)
      else if startsName c then
        some (.name (c :: rest.takeWhile isNameChar), rest.dropWhile isNameChar)
      else if c == '"' || c == '\'' then
        match rest.dropWhile (· != c) with
        | [] => none
        | _ :: after => some (.string (c :: rest.takeWhile (· != c) ++ [c]), after)
      else none := by
  rw [scan?.eq_def]
  split
  case h_1 h => cases h
  case h_2 h => exact absurd (List.cons.inj h).1 hc
  case h_3 h =>
    obtain ⟨rfl, rfl⟩ := List.cons.inj h
    have hslash : ¬ (c == '/') = true := by simpa using hc
    by_cases hclose : (c == '>') = true
    · rw [if_pos hclose, if_pos hclose]
    · rw [if_neg hclose, if_neg hclose]
      exact if_neg hslash

/-- A slash is part of what ends an empty tag, or a token of its own. -/
theorem scan?_slash_append {tail rest : List Char} {token : TagToken}
    (hscan : scan? ('/' :: tail) = some (token, rest)) (hended : token.HasEnded rest)
    (more : List Char) : scan? ('/' :: (tail ++ more)) = some (token, rest ++ more) := by
  cases tail with
  | nil =>
    cases hscan
    exact absurd hended (by simp [HasEnded, isDelimited])
  | cons d others =>
    by_cases hd : d = '>'
    · subst hd
      cases hscan
      rfl
    · rw [scan?_slash hd] at hscan
      cases hscan
      exact scan?_slash hd (others ++ more)

/-- A token that has ended stays the same when more text follows. -/
theorem scan?_append {text rest : List Char} {token : TagToken}
    (hscan : scan? text = some (token, rest)) (hended : token.HasEnded rest) (more : List Char) :
    scan? (text ++ more) = some (token, rest ++ more) := by
  cases text with
  | nil => cases hscan
  | cons c tail =>
    rw [List.cons_append]
    by_cases hc : c = '/'
    · subst hc
      exact scan?_slash_append hscan hended more
    rw [scan?_of_ne hc] at hscan ⊢
    by_cases hclose : (c == '>') = true
    · rw [if_pos hclose] at hscan ⊢
      cases hscan
      rfl
    rw [if_neg hclose] at hscan ⊢
    by_cases hequals : (c == '=') = true
    · rw [if_pos hequals] at hscan ⊢
      cases hscan
      rfl
    rw [if_neg hequals] at hscan ⊢
    by_cases hbrace : (c == '{') = true
    · rw [if_pos hbrace] at hscan ⊢
      cases hscan
      rfl
    rw [if_neg hbrace] at hscan ⊢
    by_cases hstarts : startsName c = true
    · rw [if_pos hstarts] at hscan ⊢
      cases hscan
      have hname := hended.resolve_left (by simp [isDelimited])
      rw [takeWhile_append_of_ends (.inl hname), dropWhile_append_of_ends (.inl hname)]
    rw [if_neg hstarts] at hscan ⊢
    by_cases hquote : (c == '"' || c == '\'') = true
    · rw [if_pos hquote] at hscan ⊢
      split at hscan
      case h_1 => cases hscan
      case h_2 hdrop =>
        cases hscan
        have hstring : tail.dropWhile (· != c) ≠ [] := by simp [hdrop]
        rw [takeWhile_append_of_ends (.inl hstring), dropWhile_append_of_ends (.inl hstring), hdrop]
        rfl
    · rw [if_neg hquote] at hscan
      cases hscan

/-- A token that has ended is the next one whatever follows the text. -/
theorem next_append {text rest : List Char} {token : TagToken}
    (hnext : next text = .ok (token, rest)) (hended : token.HasEnded rest) (more : List Char) :
    next (text ++ more) = .ok (token, rest ++ more) := by
  unfold next at hnext
  split at hnext
  case h_1 => cases hnext
  case h_2 c tail hdrop =>
    split at hnext
    case h_1 hscan =>
      cases hnext
      have hblanks : text.dropWhile isSkipped ≠ [] := by simp [hdrop]
      have hfound := scan?_append hscan hended more
      rw [next, dropWhile_append_of_ends (.inl hblanks), hdrop, List.cons_append]
      rw [List.cons_append] at hfound
      simp only [hfound]
    case h_2 => cases hnext

theorem ne_nil_of_next {text : List Char} {found : TagToken × List Char}
    (hnext : next text = .ok found) : text ≠ [] := by
  rintro rfl
  cases hnext

end TagToken

open TagToken

/-! ## Expressions -/

/-- The brace that closes an expression is found whatever follows it. -/
theorem braceBody?_append {depth : Nat} {mode : ScriptMode} {text body after : List Char}
    (hbody : braceBody? depth mode text = some (body, after)) (more : List Char) :
    braceBody? depth mode (text ++ more) = some (body, after ++ more) := by
  induction text generalizing depth mode body after with
  | nil => cases hbody
  | cons c rest ih =>
    unfold braceBody? at hbody
    rw [List.cons_append, braceBody?]
    split at hbody
    case isTrue hclose =>
      cases hbody
      rw [if_pos hclose]
    case isFalse hclose =>
      obtain ⟨⟨front, back⟩, hrest, hpair⟩ := Option.map_eq_some_iff.mp hbody
      cases hpair
      -- The expression goes on, so the character that decides the mode is in the text itself.
      obtain ⟨d, others, rfl⟩ : ∃ d others, rest = d :: others := by
        cases rest with
        | nil => cases hrest
        | cons d others => exact ⟨d, others, rfl⟩
      have hfound := ih hrest
      rw [if_neg hclose]
      rw [List.head?_cons] at hfound
      simp only [List.cons_append, List.head?_cons] at hfound ⊢
      rw [hfound]
      rfl

theorem expression?_append {text body after : List Char}
    (hbody : expression? text = some (body, after)) (more : List Char) :
    expression? (text ++ more) = some (body, after ++ more) := braceBody?_append hbody more

/-! ## Tags -/

/-- The value of an attribute is the same whatever follows, if the token after it has ended. -/
theorem attributeValue_append {name text rest after : List Char} {value : Option (List Char)}
    {token : TagToken} (hvalue : attributeValue name text = .ok (value, rest))
    (hnext : next rest = .ok (token, after)) (hended : token.HasEnded after) (more : List Char) :
    attributeValue name (text ++ more) = .ok (value, rest ++ more) := by
  unfold attributeValue at hvalue
  split at hvalue
  case h_1 hequals =>
    rw [attributeValue, next_append hequals (.inl rfl)]
    split at hvalue
    case h_1 hstring =>
      cases hvalue
      simp only [next_append hstring (.inl rfl)]
    case h_2 hbrace =>
      simp only [next_append hbrace (.inl rfl)]
      split at hvalue
      case h_1 hbody =>
        cases hvalue
        simp only [expression?_append hbody]
      case h_2 => cases hvalue
    case h_3 => cases hvalue
    case h_4 => cases hvalue
  case h_2 hequals =>
    cases hvalue
    have hsame := next_append hnext hended more
    rw [attributeValue, hsame]
    split
    case h_1 htoken =>
      cases htoken
      exact absurd hnext (hequals _)
    case h_2 => rfl

section Attributes

variable {attributes : Dictionary String String} {text rest after : List Char}

theorem attributesFrom_selfClose (hnext : next text = .ok (.selfClose, rest)) :
    attributesFrom attributes text = .ok ((attributes, true), rest) := by
  rw [attributesFrom]
  split <;> simp_all

theorem attributesFrom_close (hnext : next text = .ok (.close, rest)) :
    attributesFrom attributes text = .ok ((attributes, false), rest) := by
  rw [attributesFrom]
  split <;> simp_all

theorem attributesFrom_name {key : List Char} {value : Option (List Char)}
    (hnext : next text = .ok (.name key, rest))
    (hvalue : attributeValue key rest = .ok (value, after)) :
    attributesFrom attributes text =
      attributesFrom (withAttribute attributes key value) after := by
  rw [attributesFrom]
  split
  case h_3 htoken =>
    rw [hnext] at htoken
    cases htoken
    split <;> simp_all
  all_goals simp_all

theorem attributesFrom_spread {body : List Char} (hnext : next text = .ok (.braceOpen, rest))
    (hspread : expression? rest = some (body, after)) :
    attributesFrom attributes text = attributesFrom attributes after := by
  rw [attributesFrom]
  split
  case h_4 htoken =>
    rw [hnext] at htoken
    cases htoken
    split <;> simp_all
  all_goals simp_all

/-- The rest of a tag that can be read begins with a token that has ended. -/
theorem exists_next_of_attributesFrom {found : Dictionary String String × Bool}
    (hfound : attributesFrom attributes text = .ok (found, after)) :
    ∃ token rest, next text = .ok (token, rest) ∧ token.HasEnded rest := by
  have hread := hfound
  rw [attributesFrom] at hfound
  split at hfound
  case h_1 hnext => exact ⟨_, _, hnext, .inl rfl⟩
  case h_2 hnext => exact ⟨_, _, hnext, .inl rfl⟩
  case h_3 key rest hnext =>
    refine ⟨_, _, hnext, .inr ?_⟩
    rintro rfl
    -- A name at the end of the text would be an attribute in a tag that is not closed.
    have hvalue : attributeValue key [] = .ok (some "true".toList, []) := rfl
    rw [attributesFrom_name hnext hvalue] at hread
    exact absurd (length_of_attributesFrom hread) (Nat.not_lt_zero _)
  case h_4 hnext => exact ⟨_, _, hnext, .inl rfl⟩
  case h_5 => cases hfound
  case h_6 => cases hfound

/-- The rest of a tag is read up to its end, whatever follows. -/
theorem attributesFrom_append {found : Dictionary String String × Bool}
    (hfound : attributesFrom attributes text = .ok (found, rest)) (more : List Char) :
    attributesFrom attributes (text ++ more) = .ok (found, rest ++ more) := by
  fun_induction attributesFrom attributes text with
  | case1 _ _ _ hnext =>
    cases hfound
    exact attributesFrom_selfClose (next_append hnext (.inl rfl) more)
  | case2 _ _ _ hnext =>
    cases hfound
    exact attributesFrom_close (next_append hnext (.inl rfl) more)
  | case3 attributes text key _ hnext value _ hvalue ih =>
    have hread : attributesFrom attributes text = .ok (found, rest) := by
      rw [attributesFrom_name hnext hvalue, hfound]
    obtain ⟨_, _, hname, hended⟩ := exists_next_of_attributesFrom hread
    obtain ⟨_, _, hafter, hafterEnded⟩ := exists_next_of_attributesFrom hfound
    rw [hnext] at hname
    cases hname
    rw [attributesFrom_name (next_append hnext hended more)
      (attributeValue_append hvalue hafter hafterEnded more)]
    exact ih hfound
  | case5 _ _ _ hnext _ _ hspread ih =>
    rw [attributesFrom_spread (next_append hnext (.inl rfl) more) (expression?_append hspread more)]
    exact ih hfound
  | _ => cases hfound

end Attributes

/-! ## Events -/

theorem openingEvent_append {place place' text rest : List Char} {event : Event}
    (hevent : openingEvent place text = .ok (event, rest)) (more : List Char) :
    openingEvent place' (text ++ more) = .ok (event, rest ++ more) := by
  unfold openingEvent at hevent
  split at hevent
  case h_1 hclose =>
    cases hevent
    rw [openingEvent, next_append hclose (.inl rfl)]
  case h_2 hname =>
    split at hevent
    case h_1 hattributes =>
      cases hevent
      obtain ⟨_, _, hafter, -⟩ := exists_next_of_attributesFrom hattributes
      rw [openingEvent, next_append hname (.inr (ne_nil_of_next hafter))]
      simp only [attributesFrom_append hattributes]
    case h_2 => cases hevent
  case h_3 => cases hevent
  case h_4 => cases hevent

theorem closingEvent_append {place place' text rest : List Char} {event : Event}
    (hevent : closingEvent place text = .ok (event, rest)) (more : List Char) :
    closingEvent place' (text ++ more) = .ok (event, rest ++ more) := by
  unfold closingEvent at hevent
  split at hevent
  case h_1 hclose =>
    cases hevent
    rw [closingEvent, next_append hclose (.inl rfl)]
  case h_2 hname =>
    split at hevent
    case h_1 hclose =>
      cases hevent
      rw [closingEvent, next_append hname (.inr (ne_nil_of_next hclose))]
      simp only [next_append hclose (.inl rfl)]
    case h_2 => cases hevent
    case h_3 => cases hevent
  case h_3 => cases hevent
  case h_4 => cases hevent

theorem expressionEvent_append {inside rest : List Char} {event : Event}
    (hevent : expressionEvent inside = .ok (event, rest)) (more : List Char) :
    expressionEvent (inside ++ more) = .ok (event, rest ++ more) := by
  unfold expressionEvent at hevent
  split at hevent
  case h_1 => cases hevent
  case h_2 hbody =>
    rw [expressionEvent, expression?_append hbody]
    split at hevent
    case h_1 hstatic =>
      cases hevent
      simp only [hstatic]
    case h_2 hstatic =>
      cases hevent
      simp only [hstatic]

/-- A run of text is the same when more follows, if it ends within the text. -/
theorem textEvent_append {c : Char} {rest : List Char} (hends : (textEvent c rest).2 ≠ [])
    (more : List Char) :
    textEvent c (rest ++ more) = ((textEvent c rest).1, (textEvent c rest).2 ++ more) := by
  rw [textEvent, textEvent, takeWhile_append_of_ends (.inl hends),
    dropWhile_append_of_ends (.inl hends)]

theorem nextEvent_closing (inside : List Char) :
    nextEvent '<' ('/' :: inside) = closingEvent ('<' :: '/' :: inside) inside := rfl

/-- An event is the same whatever follows, unless it is a run of text that ends the text. -/
theorem nextEvent_append {c : Char} {rest after : List Char} {event : Event}
    (hevent : nextEvent c rest = .ok (event, after)) (hends : endsText c = true ∨ after ≠ [])
    (more : List Char) : nextEvent c (rest ++ more) = .ok (event, after ++ more) := by
  by_cases htag : c = '<'
  · subst htag
    cases rest with
    | nil => cases hevent
    | cons d others =>
      by_cases hslash : d = '/'
      · subst hslash
        rw [nextEvent_closing] at hevent
        exact closingEvent_append hevent more
      · rw [nextEvent_opening (by simpa using hslash)] at hevent
        rw [List.cons_append, nextEvent_opening (by simpa using hslash)]
        exact openingEvent_append hevent more
  rw [nextEvent.eq_def, if_neg (by simpa using htag)] at hevent ⊢
  split at hevent
  case isTrue hbrace =>
    rw [if_pos hbrace]
    exact expressionEvent_append hevent more
  case isFalse hbrace =>
    have hafter : after ≠ [] := hends.resolve_left (by simp_all [endsText])
    have htext : textEvent c rest = (event, after) := Except.ok.inj hevent
    rw [if_neg hbrace, textEvent_append (by rwa [htext]), htext]

/-! ## Documents -/

/-- Reading a text with some nodes open completes a top level and leaves the rest of the text. -/
inductive Reads : List OpenNode → List Char → List Node → List Char → Prop where
  | complete {opened : List OpenNode} {c : Char} {rest after : List Char} {event : Event}
      {forest : List Node} :
      nextEvent c rest = .ok (event, after) →
      Progress.step (c :: rest) opened event = .ok (.complete forest) →
      Reads opened (c :: rest) forest after
  | within {opened outer : List OpenNode} {node : OpenNode} {c : Char}
      {rest after remaining : List Char} {event : Event} {forest : List Node} :
      nextEvent c rest = .ok (event, after) →
      Progress.step (c :: rest) opened event = .ok (.within node outer) →
      Reads (node :: outer) after forest remaining →
      Reads opened (c :: rest) forest remaining

/-- Reading comes to a top level exactly if it leaves some rest of the text. -/
theorem readForest_eq_ok_iff {opened : List OpenNode} {text : List Char} {forest : List Node} :
    readForest opened text = .ok forest ↔ ∃ remaining, Reads opened text forest remaining := by
  constructor
  · intro hread
    fun_induction readForest opened text with
    | case5 opened c rest event after hevent _ hstep =>
      cases hread
      exact ⟨after, .complete hevent hstep⟩
    | case6 opened c rest event after hevent node outer hstep ih =>
      obtain ⟨remaining, hrest⟩ := ih hread
      exact ⟨remaining, .within hevent hstep hrest⟩
    | _ => cases hread
  · rintro ⟨remaining, hreads⟩
    induction hreads with
    | complete hevent hstep => exact readForest_cons hevent hstep
    | within hevent hstep _ ih => rw [readForest_cons hevent hstep, Progress.resume, ih]

/-- The top level and the rest are determined by the text. -/
theorem Reads.unique {opened : List OpenNode} {text remaining remaining' : List Char}
    {forest forest' : List Node} (hreads : Reads opened text forest remaining)
    (hreads' : Reads opened text forest' remaining') :
    forest = forest' ∧ remaining = remaining' := by
  induction hreads with
  | complete hevent hstep =>
    cases hreads' with
    | complete hevent' hstep' =>
      cases hevent.symm.trans hevent'
      cases hstep.symm.trans hstep'
      exact ⟨rfl, rfl⟩
    | within hevent' hstep' =>
      cases hevent.symm.trans hevent'
      cases hstep.symm.trans hstep'
  | within hevent hstep _ ih =>
    cases hreads' with
    | complete hevent' hstep' =>
      cases hevent.symm.trans hevent'
      cases hstep.symm.trans hstep'
    | within hevent' hstep' hrest' =>
      cases hevent.symm.trans hevent'
      cases hstep.symm.trans hstep'
      exact ih hrest'

theorem Reads.ne_nil {opened : List OpenNode} {text remaining : List Char} {forest : List Node}
    (hreads : Reads opened text forest remaining) : text ≠ [] := by
  cases hreads <;> exact List.cons_ne_nil _ _

/-- An open node in a text that more text follows. -/
def OpenNode.followed (more : List Char) (node : OpenNode) : OpenNode :=
  { node with place := node.place ++ more }

/-- What reading has come to in a text that more text follows. -/
def Progress.followed (more : List Char) : Progress → Progress
  | .within node outer => .within (node.followed more) (outer.map (.followed more))
  | .complete forest => .complete forest

theorem add_followed (nodes : List Node) (opened : List OpenNode) (more : List Char) :
    Progress.add nodes (opened.map (.followed more)) =
      (Progress.add nodes opened).followed more := by
  cases opened <;> rfl

/-- The places of events and open nodes matter to faults only. -/
theorem step_followed {place : List Char} {opened : List OpenNode} {event : Event}
    {progress : Progress} (hstep : Progress.step place opened event = .ok progress)
    (more : List Char) :
    Progress.step (place ++ more) (opened.map (.followed more)) event =
      .ok (progress.followed more) := by
  cases event with
  | opening tag =>
    cases hstep
    rfl
  | empty head =>
    cases hstep
    simp only [Progress.step, add_followed]
  | text content =>
    cases hstep
    simp only [Progress.step, add_followed]
  | nothing =>
    cases hstep
    simp only [Progress.step, add_followed]
  | closing name =>
    cases opened with
    | nil => cases hstep
    | cons node outer =>
      simp only [Progress.step] at hstep
      split at hstep
      case isTrue hname =>
        cases hstep
        simp only [Progress.step, List.map_cons, OpenNode.followed, if_pos hname]
        exact congrArg _ (add_followed _ outer more)
      case isFalse => cases hstep

/-- Inside a node only a tag completes the top level. -/
theorem endsText_of_complete {opened : List OpenNode} {c : Char} {rest after place : List Char}
    {event : Event} {forest : List Node} (hevent : nextEvent c rest = .ok (event, after))
    (hstep : Progress.step place opened event = .ok (.complete forest)) (hopened : opened ≠ []) :
    endsText c = true := by
  obtain ⟨node, outer, rfl⟩ := List.exists_cons_of_ne_nil hopened
  by_contra htext
  simp only [endsText, Bool.or_eq_true, not_or] at htext
  rw [nextEvent.eq_def, if_neg htext.1, if_neg htext.2, textEvent] at hevent
  obtain ⟨rfl, -⟩ := Prod.mk.inj (Except.ok.inj hevent)
  split at hstep <;> cases hstep

/-- Reading is the same whatever follows. Outside all nodes it has to begin with a tag, since a run
    of text there might go on. -/
theorem Reads.append {opened : List OpenNode} {text remaining : List Char} {forest : List Node}
    (hreads : Reads opened text forest remaining) (hstart : opened = [] → BeginsTag text)
    (more : List Char) :
    Reads (opened.map (.followed more)) (text ++ more) forest (remaining ++ more) := by
  induction hreads with
  | @complete opened c rest after event forest hevent hstep =>
    have hends : endsText c = true := by
      by_cases hopened : opened = []
      · obtain rfl : c = '<' := by simpa [BeginsTag] using hstart hopened
        rfl
      · exact endsText_of_complete hevent hstep hopened
    exact .complete (nextEvent_append hevent (.inl hends) more) (step_followed hstep more)
  | within hevent hstep hrest ih =>
    exact .within (nextEvent_append hevent (.inr hrest.ne_nil) more) (step_followed hstep more)
      (ih (fun h => absurd h (List.cons_ne_nil _ _)))

/-! ## Sources -/

/-- The markup of a source is found where it was, whatever follows. -/
theorem markupFrom?_append {before text found : List Char} {mode : ScriptMode}
    (hfound : markupFrom? before mode text = some found) (more : List Char) :
    markupFrom? before mode (text ++ more) = some (found ++ more) := by
  induction text generalizing before mode with
  | nil => cases hfound
  | cons c rest ih =>
    -- Something stands after `c`: the rest of the markup, or the script before it.
    obtain ⟨d, others, rfl⟩ : ∃ d others, rest = d :: others := by
      cases rest with
      | nil => simp [markupFrom?, opensMarkup] at hfound
      | cons d others => exact ⟨d, others, rfl⟩
    rw [markupFrom?] at hfound
    rw [List.cons_append, markupFrom?]
    split at hfound
    case isTrue hopens =>
      cases hfound
      rw [if_pos (by simpa [opensMarkup] using hopens)]
      rfl
    case isFalse hopens =>
      rw [if_neg (by simpa [opensMarkup] using hopens)]
      simpa using ih hfound

theorem beginsTag_of_markupFrom? {before text found : List Char} {mode : ScriptMode}
    (hfound : markupFrom? before mode text = some found) : BeginsTag found := by
  induction text generalizing before mode with
  | nil => cases hfound
  | cons c rest ih =>
    rw [markupFrom?] at hfound
    split at hfound
    case isTrue hopens =>
      cases hfound
      simp only [Bool.and_eq_true, beq_iff_eq] at hopens
      rw [hopens.1.1.2]
      rfl
    case isFalse => exact ih hfound

/-- Reading a source gives a document and leaves the rest of the source unread. -/
structure ReadsDocument (source : List Char) (document : Document) (remaining : List Char) :
    Prop where
  reads : ∃ text, markupStart? source = some text ∧ Reads [] text document.forest remaining
  root : document.forest.find? Node.isElement = some document.root

theorem ofForest_eq_ok_iff {forest : List Node} {document : Document} :
    Document.ofForest forest = .ok document ↔
      forest = document.forest ∧ forest.find? Node.isElement = some document.root := by
  rw [Document.ofForest]
  split
  case h_1 root hroot =>
    constructor
    · rintro ⟨⟩
      exact ⟨rfl, hroot⟩
    · rintro ⟨rfl, hfound⟩
      cases hroot.symm.trans hfound
      rfl
  case h_2 hroot =>
    constructor
    · exact fun h => nomatch h
    · rintro ⟨-, hfound⟩
      cases hroot.symm.trans hfound

theorem readDocument_eq_ok_iff {source : List Char} {document : Document} :
    readDocument source = .ok document ↔ ∃ remaining, ReadsDocument source document remaining := by
  constructor
  · intro hread
    unfold readDocument at hread
    split at hread
    case h_1 => cases hread
    case h_2 text hstart =>
      split at hread
      case h_1 => cases hread
      case h_2 forest hforest =>
        obtain ⟨rfl, hroot⟩ := ofForest_eq_ok_iff.mp hread
        obtain ⟨remaining, hreads⟩ := readForest_eq_ok_iff.mp hforest
        exact ⟨remaining, ⟨text, hstart, hreads⟩, hroot⟩
  · rintro ⟨remaining, ⟨text, hstart, hreads⟩, hroot⟩
    have hforest := readForest_eq_ok_iff.mpr ⟨remaining, hreads⟩
    rw [readDocument, hstart]
    simp only [hforest]
    exact ofForest_eq_ok_iff.mpr ⟨rfl, hroot⟩

/-- A source can be read exactly if reading it leaves some rest of it. -/
theorem parse_eq_ok_iff {source : List Char} {document : Document} :
    parse (String.ofList source) = .ok document ↔
      ∃ remaining, ReadsDocument source document remaining := by
  rw [← readDocument_eq_ok_iff, parse, String.toList_ofList]
  cases readDocument source <;> simp [Except.mapError]

theorem ReadsDocument.append {source remaining : List Char} {document : Document}
    (hreads : ReadsDocument source document remaining) (more : List Char) :
    ReadsDocument (source ++ more) document (remaining ++ more) := by
  obtain ⟨⟨text, hstart, hforest⟩, hroot⟩ := hreads
  refine ⟨⟨text ++ more, markupFrom?_append hstart more, ?_⟩, hroot⟩
  exact hforest.append (fun _ => beginsTag_of_markupFrom? hstart) more

theorem ReadsDocument.unique {source remaining remaining' : List Char}
    {document document' : Document}
    (hreads : ReadsDocument source document remaining)
    (hreads' : ReadsDocument source document' remaining') : remaining = remaining' := by
  obtain ⟨⟨text, hstart, hforest⟩, -⟩ := hreads
  obtain ⟨⟨text', hstart', hforest'⟩, -⟩ := hreads'
  cases hstart.symm.trans hstart'
  exact (hforest.unique hforest').2

/-- A source that breaks off within what reading it takes up cannot be read. -/
theorem ReadsDocument.parse_truncated {front back remaining : List Char} {document : Document}
    (hreads : ReadsDocument (front ++ back) document remaining)
    (hshort : remaining.length < back.length) :
    ∃ fault, parse (String.ofList front) = .error fault := by
  cases hparse : parse (String.ofList front) with
  | error fault => exact ⟨fault, rfl⟩
  | ok document' =>
    obtain ⟨rest, hfront⟩ := parse_eq_ok_iff.mp hparse
    have hrest := (hfront.append back).unique hreads
    rw [← hrest, List.length_append] at hshort
    omega

/-- Parsing does not look past the root. Whatever follows a source that can be parsed, the document
    is the same; and parsing takes up some front part of the source of which nothing can be missing.
    So no text that parsing takes up to its last character has a shorter front part that can be
    parsed. -/
theorem parse_append {source : String} {document : Document}
    (hparse : parse source = .ok document) :
    (∀ more : String, parse (source ++ more) = .ok document) ∧
    ∃ remaining, ReadsDocument source.toList document remaining ∧
      ∀ front back, source.toList = front ++ back → remaining.length < back.length →
        ∃ fault, parse (String.ofList front) = .error fault := by
  rw [← String.ofList_toList (s := source), parse_eq_ok_iff] at hparse
  obtain ⟨remaining, hreads⟩ := hparse
  refine ⟨fun more => ?_, remaining, hreads, fun front back hsource hshort => ?_⟩
  · rw [← String.ofList_toList (s := source ++ more), parse_eq_ok_iff, String.toList_append]
    exact ⟨_, hreads.append more.toList⟩
  · rw [hsource] at hreads
    exact hreads.parse_truncated hshort

/-- A paragraph with nothing after it: with more behind it the document is the same, and none of its
    truncations can be parsed. -/
theorem parse_append_paragraph :
    ∃ document, parse "return <p>hi<br/></p>" = .ok document ∧
      (∀ more : String, parse ("return <p>hi<br/></p>" ++ more) = .ok document) ∧
      ∀ front back, "return <p>hi<br/></p>".toList = front ++ back → back ≠ [] →
        ∃ fault, parse (String.ofList front) = .error fault := by
  let paragraph : Node := .element ⟨"p", ⟨[]⟩⟩ [.text "hi", .element ⟨"br", ⟨[]⟩⟩ []]
  have hgap : PrintsAttributes [] [] := .nil isGap_nil
  have hletters : Spelled escapedInText ['h', 'i'] ['h', 'i'] :=
    .plain (by decide) (.plain (by decide) .nil)
  have hname : Source.isName "p".toList = true ∧ Source.isName "br".toList = true := by decide
  have hopening := nextEvent_tag hname.1 (by decide) (by decide) (by simp) (by simp) hgap false
    "hi<br/></p>".toList
  have htext := @nextEvent_text _ _ "<br/></p>".toList _ hletters (by decide) (by decide) rfl
  have hbreak := nextEvent_tag hname.2 (by decide) (by decide) (by simp) (by simp) hgap true
    "</p>".toList
  have hclosing := @nextEvent_tagEnd "p".toList [] hname.1
  have hforest : Reads [] "<p>hi<br/></p>".toList [paragraph] [] :=
    .within hopening rfl (.within htext rfl (.within hbreak rfl (.complete hclosing rfl)))
  have hreads : ReadsDocument "return <p>hi<br/></p>".toList ⟨[paragraph], paragraph⟩ [] :=
    ⟨⟨_, by decide, hforest⟩, rfl⟩
  have hparse : parse "return <p>hi<br/></p>" = .ok ⟨[paragraph], paragraph⟩ :=
    parse_eq_ok_iff.mpr ⟨[], hreads⟩
  obtain ⟨hmore, remaining, hremaining, htruncated⟩ := parse_append hparse
  cases hremaining.unique hreads
  exact ⟨_, hparse, hmore, fun front back hsource hback =>
    htruncated front back hsource (List.length_pos_of_ne_nil hback)⟩

end DesignCompiler.Markup
