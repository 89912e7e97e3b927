import DesignCompiler.Stylesheet.Flatten
import DesignCompiler.Stylesheet.SelectorToken

/-!
# The style table

Rules are filed under the last class of their selector. Declarations for one class are merged, and
a later value replaces an earlier one.
-/

namespace DesignCompiler

open Stylesheet Text

/-- The properties of each class. -/
abbrev StyleTable := Dictionary String PropertyMap

/-- A stylesheet compiler: it turns nested text into flat text, or fails with a message. -/
abbrev Preprocessor := String → Except String String

namespace StyleTable

/-- The properties with the declarations of a rule put in, one after another. -/
def declareAll (properties : PropertyMap) (declarations : List Declaration) : PropertyMap :=
  declarations.foldl (fun map d => map.insert d.property d.value) properties

/-- The table with a rule filed. A selector without a class files nothing. -/
def addRule (table : StyleTable) (rule : FlatRule) : StyleTable :=
  match lastClassName? rule.selector with
  | none => table
  | some name =>
    table.insert name (declareAll ((table.get? name).getD Dictionary.empty) rule.declarations)

/-- The table of flat rules. -/
def ofRules (rules : List FlatRule) : StyleTable := rules.foldl addRule Dictionary.empty

/-- The table of a nested stylesheet. -/
def ofSource (source : String) : StyleTable := ofRules (flatten source)

/-- The table of what the preprocessor makes of the stylesheet, or of the stylesheet itself if there
    is no preprocessor or it fails. -/
def compile (source : String) (preprocessor : Option Preprocessor) : StyleTable :=
  match preprocessor with
  | none => ofSource source
  | some run =>
    match run source with
    | .ok flat => ofSource flat
    | .error _ => ofSource source

/-- The class by which an element with this class attribute is styled: its first class that is in
    the table, else its first class. -/
def selectClass? (table : StyleTable) (classAttribute : String) : Option String :=
  let classes := (words classAttribute.toList).map String.ofList
  classes.find? table.contains <|> classes.head?

end StyleTable

end DesignCompiler
