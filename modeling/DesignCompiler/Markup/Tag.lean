import DesignCompiler.Markup.Literal
import DesignCompiler.Markup.Node
import DesignCompiler.Text.Lowercase

/-!
# Tags

The inside of a tag is read token by token. An attribute without a value is `true`, one whose value
is an expression without a static string is left out, and a spread is passed over.
-/

namespace DesignCompiler.Markup

open TagToken

/-- A reading of a text: a value and the text that remains, or a fault at one of its places. -/
abbrev Reading (α : Type) := Except (Fault (List Char)) (α × List Char)

/-- The tag of an element with this name: its lower-case form, or `div` for a member expression. -/
def normalTag (name : List Char) : String :=
  if name.contains '.' then "div" else String.ofList (Text.lowerAscii name)

/-- Whether the attribute holds class names. -/
def isClassAttribute (name : List Char) : Bool :=
  name == "className".toList || name == "class".toList

/-- The value of an attribute, read after its name. -/
def attributeValue (name text : List Char) : Reading (Option (List Char)) :=
  match next text with
  | .ok (.equals, rest) =>
    match next rest with
    | .ok (.string quoted, after) => .ok (some (decodeEntities (unquote quoted)), after)
    | .ok (.braceOpen, inside) =>
      match expression? inside with
      | some (body, after) =>
        .ok (if isClassAttribute name then classNames? body else staticString? body, after)
      | none => .error (.unterminatedExpression ('\x7b' :: inside))
    | .ok _ => .error (.unexpected rest)
    | .error fault => .error fault
  | _ => .ok (some "true".toList, text)

theorem length_of_expression? {text body after : List Char}
    (h : expression? text = some (body, after)) : after.length < text.length := by
  have := length_of_braceBody? h
  omega

theorem length_of_attributeValue {name text rest : List Char} {value : Option (List Char)}
    (h : attributeValue name text = .ok (value, rest)) : rest.length ≤ text.length := by
  unfold attributeValue at h
  split at h
  · rename_i after hequals
    have h₁ := length_of_next hequals
    split at h
    · rename_i hstring
      cases h
      have h₂ := length_of_next hstring
      omega
    · rename_i hbrace
      have h₂ := length_of_next hbrace
      split at h
      · rename_i hbody
        cases h
        have h₃ := length_of_expression? hbody
        omega
      · cases h
    · cases h
    · cases h
  · cases h
    exact Nat.le_refl _

/-- The attributes with one more, unless it has no value. -/
def withAttribute (attributes : Dictionary String String) (name : List Char)
    (value : Option (List Char)) : Dictionary String String :=
  match value with
  | some value => attributes.insert (String.ofList name) (String.ofList value)
  | none => attributes

/-- The rest of a tag after its name and the attributes already read: all attributes, and whether
    the tag closes itself. -/
def attributesFrom (attributes : Dictionary String String) (text : List Char) :
    Reading (Dictionary String String × Bool) :=
  match _htoken : next text with
  | .ok (.selfClose, rest) => .ok ((attributes, true), rest)
  | .ok (.close, rest) => .ok ((attributes, false), rest)
  | .ok (.name key, rest) =>
    match _hvalue : attributeValue key rest with
    | .ok (value, after) => attributesFrom (withAttribute attributes key value) after
    | .error fault => .error fault
  | .ok (.braceOpen, inside) =>
    match _hspread : expression? inside with
    | some (_, after) => attributesFrom attributes after
    | none => .error (.unterminatedExpression ('\x7b' :: inside))
  | .ok _ => .error (.unexpected text)
  | .error fault => .error fault
termination_by text.length
decreasing_by
  · have h₁ := length_of_next _htoken
    have h₂ := length_of_attributeValue _hvalue
    omega
  · have h₁ := length_of_next _htoken
    have h₂ := length_of_expression? _hspread
    omega

theorem length_of_attributesFrom {attributes : Dictionary String String} {text rest : List Char}
    {found : Dictionary String String × Bool}
    (h : attributesFrom attributes text = .ok (found, rest)) : rest.length < text.length := by
  fun_induction attributesFrom attributes text with
  | case1 _ _ _ hnext => cases h; exact length_of_next hnext
  | case2 _ _ _ hnext => cases h; exact length_of_next hnext
  | case3 _ _ _ _ hnext _ _ hvalue ih =>
    have h₁ := length_of_next hnext
    have h₂ := length_of_attributeValue hvalue
    have h₃ := ih h
    omega
  | case5 _ _ _ hnext _ _ hspread ih =>
    have h₁ := length_of_next hnext
    have h₂ := length_of_expression? hspread
    have h₃ := ih h
    omega
  | _ => cases h

end DesignCompiler.Markup
