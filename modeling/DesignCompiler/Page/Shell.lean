import DesignCompiler.Dart.Query
import DesignCompiler.Options
import DesignCompiler.Style.Resolved

/-!
# The root shell

The root widget is freed of wrappers that only mean something inside a row or a column and put into
the shell that the mode asks for. Widths equal to that of the design frame become the width of the
viewport.
-/

namespace DesignCompiler.Page

open Dart Style

/-- Wrappers that share out the free space of a row or a column. -/
def isFlexWrapper (callee : String) : Bool := callee == "Expanded" || callee == "Flexible"

mutual

/-- The widget inside all flex wrappers around it. -/
def unwrapFlex : Expr → Expr
  | .call callee args arguments =>
    if isFlexWrapper callee then (unwrappedChild? arguments).getD (.call callee args arguments)
    else .call callee args arguments
  | e => e

/-- The first argument `child`, freed of flex wrappers. -/
def unwrappedChild? : List (String × Expr) → Option Expr
  | [] => none
  | (name, e) :: rest => if name == "child" then some (unwrapFlex e) else unwrappedChild? rest

end

/-- A widget that scrolls. -/
def scroll (child : Expr) : Expr := .named "SingleChildScrollView" [Expr.child child]

/-- The shell of a mode around the root widget, painted with the decoration of the root. -/
def shell (mode : GenerationMode) (decoration : Option Expr) (inner : Expr) : Expr :=
  match mode with
  | .raw => inner
  | .scaffold =>
    .named "Scaffold" [("body", .named "Container" (
      ("width", .extent .available) :: Expr.optional "decoration" decoration ++
        [Expr.child (scroll inner)]))]
  | .fit =>
    let fitted := scroll (.named "FittedBox" [
      ("alignment", .ident "Alignment.topLeft"),
      ("fit", .ident "BoxFit.fitWidth"),
      Expr.child inner])
    match decoration with
    | some decoration => .named "DecoratedBox" [("decoration", decoration), Expr.child fitted]
    | none => fitted

/-- The root widget in its shell. -/
def wrapRoot (widget : Expr) (style : ResolvedStyle) (mode : GenerationMode) : Expr :=
  let root := shell mode (style.decoration.toExpr? false) (unwrapFlex widget)
  match style.size.width with
  | some width => root.markAvailable width
  | none => root

end DesignCompiler.Page
