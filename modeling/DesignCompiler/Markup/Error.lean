/-!
# Markup errors

While a text is read, a place in it is the text that remains from there; in an error that is handed
out it is the offset in bytes. So the type of places is a parameter.
-/

namespace DesignCompiler.Markup

/-- Why markup cannot be read, with the place of the fault. -/
inductive Fault (Place : Type) where
  | noElement
  | unclosed (tag : String) (place : Place)
  | mismatched (expected found : String) (place : Place)
  | unexpected (place : Place)
  | unterminatedExpression (place : Place)
  deriving DecidableEq

/-- The same fault with its place expressed otherwise. -/
def Fault.map {Place Place' : Type} (f : Place → Place') : Fault Place → Fault Place'
  | .noElement => .noElement
  | .unclosed tag place => .unclosed tag (f place)
  | .mismatched expected found place => .mismatched expected found (f place)
  | .unexpected place => .unexpected (f place)
  | .unterminatedExpression place => .unterminatedExpression (f place)

/-- A markup error, placed by its offset in the UTF-8 form of the text. -/
abbrev Error := Fault Nat

/-- The sentence that reports an error. -/
def Fault.message : Error → String
  | .noElement => "no markup element found"
  | .unclosed tag offset => s!"element <{tag}> opened at byte {offset} is never closed"
  | .mismatched expected found offset =>
    s!"closing tag at byte {offset} does not match: expected </{expected}>, found </{found}>"
  | .unexpected offset => s!"unexpected input at byte {offset}"
  | .unterminatedExpression offset => s!"unterminated expression starting at byte {offset}"

end DesignCompiler.Markup
