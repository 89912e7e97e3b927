import DesignCompiler.Geometry

/-!
# Dart expressions

Widgets, decorations and literals are expression trees. What depends on a widget already built
looks at its tree and never at rendered text.
-/

namespace DesignCompiler.Dart

/-- A Dart expression. A call has its positional arguments first and then its named ones. -/
inductive Expr where
  | call (callee : String) (args : List Expr) (named : List (String × Expr))
  | list (items : List Expr)
  | str (text : String)
  | num (value : Float)
  | bool (value : Bool)
  | ident (path : String)
  | extent (width : Extent)
  deriving Inhabited

/-- A named argument. -/
abbrev Argument := String × Expr

namespace Expr

/-- The named argument `name` if there is a value for it. -/
def optional (name : String) : Option Expr → List Argument
  | some value => [(name, value)]
  | none => []

/-- A call with named arguments only. -/
def named (callee : String) (arguments : List Argument) : Expr := .call callee [] arguments

/-- The argument `children` of a layout widget. -/
def children (items : List Expr) : Argument := ("children", .list items)

/-- The argument `child` of a wrapper. -/
def child (e : Expr) : Argument := ("child", e)

end Expr

end DesignCompiler.Dart
