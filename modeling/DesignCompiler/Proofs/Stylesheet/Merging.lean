import DesignCompiler.Proofs.Dictionary
import DesignCompiler.Stylesheet.Table

/-!
# Merging rules

In the table of a list of rules, a property of a class has the last value that any rule of that
class declares for it.
-/

namespace DesignCompiler

open Stylesheet

/-- The value of a property of a class. -/
def StyleTable.value? (table : StyleTable) (name property : String) : Option String :=
  (table.get? name).bind (·.get? property)

namespace Stylesheet

/-- The values that declarations give a property, in order. -/
def declaredValues (property : String) (declarations : List Declaration) : List String :=
  (declarations.filter (·.property = property)).map Declaration.value

/-- The values that rules give a property of a class, in order. -/
def ruleValues (name property : String) (rules : List FlatRule) : List String :=
  rules.flatMap fun rule =>
    if lastClassName? rule.selector = some name then declaredValues property rule.declarations
    else []

theorem ruleValues_append (name property : String) (front back : List FlatRule) :
    ruleValues name property (front ++ back) =
      ruleValues name property front ++ ruleValues name property back := List.flatMap_append

end Stylesheet

namespace StyleTable

theorem get?_declareAll (properties : PropertyMap) (declarations : List Declaration)
    (property : String) :
    (declareAll properties declarations).get? property =
      (declaredValues property declarations).getLast?.or (properties.get? property) := by
  induction declarations generalizing properties with
  | nil => rfl
  | cons declaration declarations ih =>
    rw [declareAll, List.foldl_cons, ← declareAll, ih, Dictionary.get?_insert, declaredValues,
      declaredValues]
    by_cases hproperty : declaration.property = property
    · rw [if_pos hproperty, List.filter_cons_of_pos (by simpa using hproperty), List.map_cons,
        List.getLast?_cons]
      cases ((declarations.filter (·.property = property)).map Declaration.value).getLast? <;> rfl
    · rw [if_neg hproperty, List.filter_cons_of_neg (by simpa using hproperty)]

/-- Filing a rule: its declarations come before what the table held. -/
theorem value?_addRule (table : StyleTable) (rule : FlatRule) (name property : String) :
    (table.addRule rule).value? name property =
      (ruleValues name property [rule]).getLast?.or (table.value? name property) := by
  rw [ruleValues, List.flatMap_singleton, addRule]
  cases hclass : lastClassName? rule.selector with
  | none => rfl
  | some known =>
    rw [value?, Dictionary.get?_insert, value?]
    by_cases hname : known = name
    · subst hname
      rw [if_pos rfl, if_pos rfl, Option.bind_some, get?_declareAll]
      cases table.get? known <;> rfl
    · rw [if_neg hname, if_neg (by simpa using hname)]
      rfl

/-- Each property of each class has the last value that the rules give it. -/
theorem value?_ofRules (rules : List FlatRule) (name property : String) :
    (ofRules rules).value? name property = (ruleValues name property rules).getLast? := by
  suffices hfold : ∀ table : StyleTable, (rules.foldl addRule table).value? name property =
      (ruleValues name property rules).getLast?.or (table.value? name property) by
    rw [ofRules, hfold]
    exact Option.or_none
  induction rules with
  | nil => exact fun table => rfl
  | cons rule rules ih =>
    intro table
    have hvalues : ruleValues name property (rule :: rules) =
        ruleValues name property [rule] ++ ruleValues name property rules :=
      ruleValues_append name property [rule] rules
    rw [List.foldl_cons, ih, value?_addRule, hvalues, List.getLast?_append, Option.or_assoc]

/-- The classes of the table are those that the rules are filed under. -/
theorem contains_ofRules (rules : List FlatRule) (name : String) :
    (ofRules rules).contains name =
      rules.any fun rule => lastClassName? rule.selector = some name := by
  suffices hfold : ∀ table : StyleTable, (rules.foldl addRule table).contains name =
      (table.contains name || rules.any fun rule => lastClassName? rule.selector = some name) by
    rw [ofRules, hfold]
    exact Bool.false_or _
  induction rules with
  | nil => simp
  | cons rule rules ih =>
    intro table
    rw [List.foldl_cons, ih, List.any_cons, ← Bool.or_assoc]
    congr 1
    rw [addRule]
    cases hclass : lastClassName? rule.selector with
    | none => simp
    | some known =>
      rw [Dictionary.contains_insert, Bool.or_comm]
      simp

end StyleTable

end DesignCompiler
