import DesignCompiler.Dart.Expr

/-!
# Questions about an expression

The expressions nested in an expression, in the order of a walk from the root, and what they use.
-/

namespace DesignCompiler.Dart.Expr

/-- The name that a call calls. -/
def callee? : Expr → Option String
  | .call callee _ _ => some callee
  | _ => none

/-- Whether the expression is a call of `callee`. -/
def isCallOf (e : Expr) (callee : String) : Bool := e.callee? == some callee

/-- The value of the first named argument with this name. -/
def argument? (e : Expr) (name : String) : Option Expr :=
  match e with
  | .call _ _ arguments => (arguments.find? fun argument => argument.1 == name).map Prod.snd
  | _ => none

mutual

/-- The expression and all expressions nested in it, each before its own parts. -/
def subterms : Expr → List Expr
  | .call callee args arguments =>
    .call callee args arguments :: (subtermsOfList args ++ subtermsOfNamed arguments)
  | .list items => .list items :: subtermsOfList items
  | e => [e]

/-- The expressions nested in a list of expressions. -/
def subtermsOfList : List Expr → List Expr
  | [] => []
  | e :: rest => subterms e ++ subtermsOfList rest

/-- The expressions nested in named arguments. -/
def subtermsOfNamed : List (String × Expr) → List Expr
  | [] => []
  | (_, e) :: rest => subterms e ++ subtermsOfNamed rest

end

/-- Whether a call of `callee` is nested in the expression. -/
def usesCallee (e : Expr) (callee : String) : Bool := e.subterms.any (·.isCallOf callee)

/-- Whether the expression is an identifier that starts with `start`. -/
def isIdentStartingWith (start : String) : Expr → Bool
  | .ident path => start.toList.isPrefixOf path.toList
  | _ => false

/-- Whether an identifier that starts with `start` is nested in the expression. -/
def usesIdentStartingWith (e : Expr) (start : String) : Bool :=
  e.subterms.any (·.isIdentStartingWith start)

mutual

/-- The expression with every fixed extent equal to `width` replaced by the available width. -/
def markAvailable (width : Float) : Expr → Expr
  | .extent (.fixed w) => if w == width then .extent .available else .extent (.fixed w)
  | .call callee args arguments =>
    .call callee (markAvailableInList width args) (markAvailableInNamed width arguments)
  | .list items => .list (markAvailableInList width items)
  | e => e

/-- Each expression of a list with its extents marked. -/
def markAvailableInList (width : Float) : List Expr → List Expr
  | [] => []
  | e :: rest => markAvailable width e :: markAvailableInList width rest

/-- Each named argument with its extents marked. -/
def markAvailableInNamed (width : Float) : List (String × Expr) → List (String × Expr)
  | [] => []
  | (name, e) :: rest => (name, markAvailable width e) :: markAvailableInNamed width rest

end

end DesignCompiler.Dart.Expr
