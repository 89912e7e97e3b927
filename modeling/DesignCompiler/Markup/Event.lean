import DesignCompiler.Markup.Tag

/-!
# Markup events

Markup is a sequence of events: opening and closing tags of elements and fragments, elements closed
at once, and texts. An event is read from the front of the text and takes up at least one character.
-/

namespace DesignCompiler.Markup

open TagToken

/-- The name of an element as written, and what it says about itself. -/
structure OpeningTag where
  name : List Char
  head : Element

/-- What the front of a text of markup says. A fragment has no name. -/
inductive Event where
  | opening (tag : Option OpeningTag)
  | empty (head : Element)
  | closing (name : Option (List Char))
  | text (content : List Char)
  | nothing

/-- The event of a tag, read after its `<`; `place` is the text from the `<` on. -/
def openingEvent (place text : List Char) : Reading Event :=
  match next text with
  | .ok (.close, rest) => .ok (.opening none, rest)
  | .ok (.name written, rest) =>
    match attributesFrom Dictionary.empty rest with
    | .ok ((attributes, closesItself), after) =>
      let head : Element := ⟨normalTag written, attributes⟩
      .ok (if closesItself then .empty head else .opening (some ⟨written, head⟩), after)
    | .error fault => .error fault
  | .ok _ => .error (.unexpected place)
  | .error fault => .error fault

/-- The event of a closing tag, read after its `</`; `place` is the text from the `<` on. -/
def closingEvent (place text : List Char) : Reading Event :=
  match next text with
  | .ok (.close, rest) => .ok (.closing none, rest)
  | .ok (.name written, rest) =>
    match next rest with
    | .ok (.close, after) => .ok (.closing (some written), after)
    | .ok (_, after) => .error (.unexpected after)
    | .error fault => .error fault
  | .ok _ => .error (.unexpected place)
  | .error fault => .error fault

/-- The event of an expression, read after its opening brace. -/
def expressionEvent (inside : List Char) : Reading Event :=
  match expression? inside with
  | none => .error (.unterminatedExpression ('\x7b' :: inside))
  | some (body, after) =>
    match staticString? body with
    | some content => .ok (if Text.allBlank content then .nothing else .text content, after)
    | none => .ok (.nothing, after)

/-- A character that ends a run of text. -/
def endsText (c : Char) : Bool := c == '<' || c == '\x7b'

/-- The event of a run of text that begins with `c`. -/
def textEvent (c : Char) (rest : List Char) : Event × List Char :=
  let content := textContent (c :: rest.takeWhile (!endsText ·))
  (if content.isEmpty then .nothing else .text content, rest.dropWhile (!endsText ·))

/-- The event that the text `c :: rest` begins with. -/
def nextEvent (c : Char) (rest : List Char) : Reading Event :=
  if c == '<' then
    match rest with
    | '/' :: inside => closingEvent (c :: rest) inside
    | _ => openingEvent (c :: rest) rest
  else if c == '\x7b' then expressionEvent rest
  else .ok (textEvent c rest)

theorem length_of_openingEvent {place text rest : List Char} {event : Event}
    (h : openingEvent place text = .ok (event, rest)) : rest.length < text.length := by
  unfold openingEvent at h
  split at h
  · rename_i hclose
    cases h
    exact length_of_next hclose
  · rename_i hname
    have h₁ := length_of_next hname
    split at h
    · rename_i hattributes
      cases h
      have h₂ := length_of_attributesFrom hattributes
      omega
    · cases h
  · cases h
  · cases h

theorem length_of_closingEvent {place text rest : List Char} {event : Event}
    (h : closingEvent place text = .ok (event, rest)) : rest.length < text.length := by
  unfold closingEvent at h
  split at h
  · rename_i hclose
    cases h
    exact length_of_next hclose
  · rename_i hname
    have h₁ := length_of_next hname
    split at h
    · rename_i hclose
      cases h
      have h₂ := length_of_next hclose
      omega
    · cases h
    · cases h
  · cases h
  · cases h

/-- Each event takes up at least one character. -/
theorem length_of_nextEvent {c : Char} {rest after : List Char} {event : Event}
    (h : nextEvent c rest = .ok (event, after)) : after.length ≤ rest.length := by
  unfold nextEvent at h
  split at h
  · split at h
    · have := length_of_closingEvent h
      simp only [List.length_cons]
      omega
    · have := length_of_openingEvent h
      omega
  · split at h
    · unfold expressionEvent at h
      split at h
      · cases h
      · rename_i hbody
        have := length_of_expression? hbody
        split at h <;> cases h <;> omega
    · cases h
      exact (List.dropWhile_sublist _).length_le

end DesignCompiler.Markup
