import DesignCompiler.Style.Length
import DesignCompiler.Style.Vocabulary

/-!
# Fonts

Weights are told apart by hundreds. A family is looked up in the vocabulary and otherwise used by
its own name.
-/

namespace DesignCompiler.Style

open Text

/-- The weights that are told apart. -/
inductive FontWeight where
  | w400
  | w500
  | w600
  | w700
  deriving DecidableEq

namespace FontWeight

/-- The weight of a number, rounded down. -/
def ofNumber (n : Int) : FontWeight :=
  if n ≥ 700 then .w700 else if n ≥ 600 then .w600 else if n ≥ 500 then .w500 else .w400

/-- The weight that a value denotes, by name or by number; 400 for what is neither. -/
def parse (raw : List Char) : FontWeight :=
  let value := lowerAscii (trim raw)
  if value == "bold".toList then .w700
  else if value == "normal".toList then .w400
  else ((leadingInt? value).map ofNumber).getD .w400

/-- The constant of a weight. -/
def path : FontWeight → String
  | .w400 => "FontWeight.w400"
  | .w500 => "FontWeight.w500"
  | .w600 => "FontWeight.w600"
  | .w700 => "FontWeight.w700"

end FontWeight

/-- The name by which the app knows the first family of a list. A family in the vocabulary has the
    name given there, possibly none; generic families are passed over. -/
def familyAmong? (vocabulary : Vocabulary) : List (List Char) → Option String
  | [] => none
  | candidate :: rest =>
    let name := dropEnds (fun c => c == '"' || c == '\'') (trim candidate)
    let key := lower name
    if name.isEmpty then familyAmong? vocabulary rest
    else match vocabulary.fontFamilies.get? (String.ofList key) with
      | some mapped => mapped
      | none =>
        if occursIn "serif".toList key || occursIn "monospace".toList key then
          familyAmong? vocabulary rest
        else some (String.ofList name)

/-- The font of the app for a list of families separated by commas. -/
def fontFamily? (vocabulary : Vocabulary) (raw : List Char) : Option String :=
  familyAmong? vocabulary (splitOn (· == ',') raw)

end DesignCompiler.Style
