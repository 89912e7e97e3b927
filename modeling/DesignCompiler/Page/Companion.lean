import DesignCompiler.Dart.Query

/-!
# Companion widgets

Form controls with a state of their own are private widgets at the end of the document, each with
the source of its class and of its state.
-/

namespace DesignCompiler.Page

open Dart

/-- Lines in braces after a line, indented by two, with `tail` after the closing brace. -/
def braced (head : String) (body : List String) (tail : String) : List String :=
  (head ++ " \x7b") :: body.map ("  " ++ ·) ++ ["\x7d" ++ tail]

/-- The class of a stateful widget with its fields and its constructor. -/
def widgetClass (name : String) (fields : List String) (parameters : String) : List String :=
  braced ("class " ++ name ++ " extends StatefulWidget")
    (fields.map ("final " ++ · ++ ";") ++ [
      "const " ++ name ++ "(\x7b" ++ parameters ++ "\x7d);",
      "@override",
      "State<" ++ name ++ "> createState() => " ++ name ++ "State();"]) ""

/-- The class of the state of a widget: its field, how that starts, and how it is shown. -/
def stateClass (name field : String) (start view : List String) : List String :=
  braced ("class " ++ name ++ "State extends State<" ++ name ++ ">")
    (["late " ++ field ++ ";", "@override"] ++
      braced "void initState()" ("super.initState();" :: start) "" ++
      ["@override"] ++ braced "Widget build(BuildContext context)" view "") ""

/-- A callback that sets the state unless the widget is gone. -/
def callback (head assignment : String) : List String :=
  let guarded := braced "if (!mounted)" ["return;"] ""
  braced head (guarded ++ ["setState(() => " ++ assignment ++ ");"]) ","

/-- A call with an argument on each line, as the result. -/
def returned (callee : String) (arguments : List String) : List String :=
  ("return " ++ callee ++ "(") :: arguments.map ("  " ++ ·) ++ [");"]

/-- A private companion widget: its name and its source. -/
structure Companion where
  name : String
  lines : List String

/-- The source of a companion. -/
def Companion.source (companion : Companion) : String := "\n".intercalate companion.lines

/-- The companion with a name, the fields of its widget and the parts of its state. -/
def companion (name : String) (fields : List String) (parameters field : String)
    (start view : List String) : Companion :=
  let name := "_" ++ name
  { name := name
    lines := widgetClass name fields parameters ++ [""] ++ stateClass name field start view }

/-- The field that shows a date picker. -/
def dateField : Companion :=
  companion "GeneratedDateTimeField" ["String? label", "String? hint", "DateTime? initialDate"]
    "this.label, this.hint, this.initialDate"
    "DateTime _selectedDate" ["_selectedDate = widget.initialDate ?? DateTime.now();"]
    (returned "AppInputFullTime" ([
      "label: widget.label,",
      "hint: widget.hint ?? 'YYYY/MM/DD',",
      "initialTime: _selectedDate,"] ++
      callback "onTimeChanged: (next)" "_selectedDate = next" ++ [
      "minimumYear: 1900,",
      "maximumYear: 2100,"]))

/-- The group of radio options. -/
def radioGroup : Companion :=
  companion "GeneratedRadioGroup" [
    "String initialValue", "List<AppRadioOption> options", "Color? activeColor",
    "Color? inactiveColor"]
    "required this.initialValue, required this.options, this.activeColor, this.inactiveColor"
    "String _value" [
      "if (widget.initialValue.isNotEmpty) \x7b",
      "  _value = widget.initialValue;",
      "\x7d else if (widget.options.isNotEmpty) \x7b",
      "  _value = widget.options.first.value;",
      "\x7d else \x7b",
      "  _value = '';",
      "\x7d"]
    (braced "if (widget.options.isEmpty)" ["return const SizedBox.shrink();"] "" ++
      returned "AppRadioGroup" ([
        "value: _value,",
        "options: widget.options,",
        "activeColor: widget.activeColor,",
        "inactiveColor: widget.inactiveColor,"] ++
        callback "onChanged: (next)" "_value = next"))

/-- The checkbox. -/
def checkbox : Companion :=
  companion "GeneratedCheckbox" ["String title", "bool initialChecked", "Color? borderColor"]
    "required this.title, required this.initialChecked, this.borderColor"
    "bool _checked" ["_checked = widget.initialChecked;"]
    (returned "AppCheckbox" ([
      "title: widget.title,",
      "isChecked: _checked,",
      "borderColor: widget.borderColor,"] ++
      callback "onTap: ()" "_checked = !_checked"))

/-- The companions that an expression uses, in the order in which they are written. -/
def companionsOf (root : Expr) : List Companion :=
  [dateField, radioGroup, checkbox].filter fun companion => root.usesCallee companion.name

end DesignCompiler.Page
