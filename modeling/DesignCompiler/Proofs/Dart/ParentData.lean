import DesignCompiler.Dart.Query
import DesignCompiler.Page.Shell

/-!
# Parent data

Some widgets talk to the widget right above them and break anywhere else: a share of free space
belongs into a row or a column, offsets into a stack, and spans into rich text. An expression keeps
the discipline when every such widget in it stands where its parent expects it.
-/

namespace DesignCompiler.Dart

/-- Where an expression stands: alone, as an argument of a call, or as an element of a list. -/
inductive Place where
  | root
  | positional (callee : String)
  | named (callee name : String)
  | element (list : Place)
  deriving DecidableEq

/-- An element of the list `children` of a widget. -/
def Place.childOf (callee : String) : Place := .element (.named callee "children")

/-- An occurrence of an expression at a place in another one that stands at a place itself. -/
inductive Occurs : Place → Expr → Place → Expr → Prop where
  | here {place : Place} {e : Expr} : Occurs place e place e
  | positional {place inner : Place} {callee : String} {args : List Expr}
      {named : List Argument} {arg e : Expr} :
      arg ∈ args → Occurs (.positional callee) arg inner e →
      Occurs place (.call callee args named) inner e
  | named {place inner : Place} {callee : String} {args : List Expr}
      {named : List Argument} {argument : Argument} {e : Expr} :
      argument ∈ named → Occurs (.named callee argument.1) argument.2 inner e →
      Occurs place (.call callee args named) inner e
  | element {place inner : Place} {items : List Expr} {item e : Expr} :
      item ∈ items → Occurs (.element place) item inner e →
      Occurs place (.list items) inner e

/-- Whether a call may stand at a place. -/
structure Place.Admits (place : Place) (callee : String) : Prop where
  flex : Page.isFlexWrapper callee = true → place = .childOf "Row" ∨ place = .childOf "Column"
  positioned : callee = "Positioned" → place = .childOf "Stack"
  widgetSpan : callee = "WidgetSpan" → place = .childOf "TextSpan"
  textSpan : callee = "TextSpan" → place = .named "RichText" "text" ∨ place = .childOf "TextSpan"

/-- An expression at a place all of whose calls stand where they may. -/
def LegalAt (place : Place) (e : Expr) : Prop :=
  ∀ inner callee args named, Occurs place e inner (.call callee args named) → inner.Admits callee

/-- The discipline: an expression by itself is legal. -/
def ParentData (e : Expr) : Prop := LegalAt .root e

/-- An expression that is legal wherever it stands. -/
def Free (e : Expr) : Prop := ∀ place, LegalAt place e

/-- Arguments that are legal wherever they stand. -/
def FreeArguments (arguments : List Argument) : Prop := ∀ argument ∈ arguments, Free argument.2

/-- The calls that do not stand everywhere. -/
def parentDataWidgets : List String :=
  ["Expanded", "Flexible", "Positioned", "WidgetSpan", "TextSpan"]

theorem Place.admits_of_not_mem {place : Place} {callee : String}
    (hcallee : callee ∉ parentDataWidgets) : place.Admits callee := by
  simp only [parentDataWidgets, List.mem_cons, List.not_mem_nil, or_false, not_or] at hcallee
  obtain ⟨hexpanded, hflexible, hpositioned, hwidgetSpan, htextSpan⟩ := hcallee
  refine ⟨fun hflex => ?_, fun h => absurd h hpositioned, fun h => absurd h hwidgetSpan,
    fun h => absurd h htextSpan⟩
  simp [Page.isFlexWrapper, hexpanded, hflexible] at hflex

/-! ## Legal calls and lists -/

theorem legalAt_call {place : Place} {callee : String} {args : List Expr}
    {named : List Argument} (hcallee : place.Admits callee)
    (hargs : ∀ arg ∈ args, LegalAt (.positional callee) arg)
    (hnamed : ∀ argument ∈ named, LegalAt (.named callee argument.1) argument.2) :
    LegalAt place (.call callee args named) := by
  intro inner _ _ _ hoccurs
  cases hoccurs with
  | here => exact hcallee
  | positional hmem hinside => exact hargs _ hmem _ _ _ _ hinside
  | named hmem hinside => exact hnamed _ hmem _ _ _ _ hinside

theorem legalAt_list {place : Place} {items : List Expr}
    (hitems : ∀ item ∈ items, LegalAt (.element place) item) : LegalAt place (.list items) := by
  intro inner _ _ _ hoccurs
  cases hoccurs with
  | element hmem hinside => exact hitems _ hmem _ _ _ _ hinside

/-- A legal call is legal wherever its callee may stand. -/
theorem LegalAt.free {place : Place} {callee : String} {args : List Expr} {named : List Argument}
    (hlegal : LegalAt place (.call callee args named)) (hcallee : callee ∉ parentDataWidgets) :
    Free (.call callee args named) := by
  intro other
  refine legalAt_call (Place.admits_of_not_mem hcallee) (fun arg harg => ?_)
    fun argument hargument => ?_
  · exact fun inner _ _ _ hoccurs => hlegal _ _ _ _ (.positional harg hoccurs)
  · exact fun inner _ _ _ hoccurs => hlegal _ _ _ _ (.named hargument hoccurs)

@[simp]
theorem free_str (text : String) : Free (.str text) := by
  intro place inner _ _ _ hoccurs
  cases hoccurs

@[simp]
theorem free_num (value : Float) : Free (.num value) := by
  intro place inner _ _ _ hoccurs
  cases hoccurs

@[simp]
theorem free_bool (value : Bool) : Free (.bool value) := by
  intro place inner _ _ _ hoccurs
  cases hoccurs

@[simp]
theorem free_ident (path : String) : Free (.ident path) := by
  intro place inner _ _ _ hoccurs
  cases hoccurs

@[simp]
theorem free_extent (width : Extent) : Free (.extent width) := by
  intro place inner _ _ _ hoccurs
  cases hoccurs

theorem free_list {items : List Expr} (hitems : ∀ item ∈ items, Free item) : Free (.list items) :=
  fun _ => legalAt_list fun item hitem => hitems item hitem _

theorem free_call {callee : String} {args : List Expr} {named : List Argument}
    (hcallee : callee ∉ parentDataWidgets) (hargs : ∀ arg ∈ args, Free arg)
    (hnamed : FreeArguments named) : Free (.call callee args named) :=
  fun _ => legalAt_call (Place.admits_of_not_mem hcallee) (fun arg harg => hargs arg harg _)
    fun argument hargument => hnamed argument hargument _

theorem free_named {callee : String} {arguments : List Argument}
    (hcallee : callee ∉ parentDataWidgets) (harguments : FreeArguments arguments) :
    Free (.named callee arguments) :=
  free_call hcallee (by simp) harguments

/-! ## Free arguments -/

@[simp]
theorem freeArguments_nil : FreeArguments [] := by simp [FreeArguments]

@[simp]
theorem freeArguments_cons {argument : Argument} {arguments : List Argument} :
    FreeArguments (argument :: arguments) ↔ Free argument.2 ∧ FreeArguments arguments := by
  simp [FreeArguments]

@[simp]
theorem freeArguments_append {front back : List Argument} :
    FreeArguments (front ++ back) ↔ FreeArguments front ∧ FreeArguments back := by
  simp [FreeArguments, or_imp, forall_and]

@[simp]
theorem freeArguments_optional {name : String} {value : Option Expr} :
    FreeArguments (Expr.optional name value) ↔ ∀ e ∈ value, Free e := by
  cases value <;> simp [FreeArguments, Expr.optional]

theorem freeArguments_optional_map {α : Type} {name : String} {value : Option α} {f : α → Expr}
    (hf : ∀ x, Free (f x)) : FreeArguments (Expr.optional name (value.map f)) := by
  cases value <;> simp [hf]

@[simp]
theorem free_child {e : Expr} : Free (Expr.child e).2 ↔ Free e := Iff.rfl

/-- A widget whose children may stand in it is free. -/
theorem free_children {callee : String} {items : List Expr} (front : List Argument)
    (hcallee : callee ∉ parentDataWidgets) (hfront : FreeArguments front)
    (hitems : ∀ item ∈ items, LegalAt (.childOf callee) item) :
    Free (.named callee (front ++ [Expr.children items])) := by
  refine fun place => legalAt_call (Place.admits_of_not_mem hcallee) (by simp) ?_
  intro argument hargument
  obtain hargument | hargument := List.mem_append.mp hargument
  · exact hfront argument hargument _
  · obtain rfl := List.mem_singleton.mp hargument
    exact legalAt_list hitems

/-! ## Nested expressions -/

mutual

/-- What is nested in a legal expression is legal somewhere. -/
theorem LegalAt.exists_of_mem_subterms {place : Place} {sub : Expr} :
    ∀ e : Expr, LegalAt place e → sub ∈ e.subterms → ∃ inner, LegalAt inner sub
  | .call callee args named, hlegal, hsub => by
    simp only [Expr.subterms, List.mem_cons, List.mem_append] at hsub
    obtain rfl | hargs | hnamed := hsub
    · exact ⟨place, hlegal⟩
    · exact exists_legalAt_of_mem_subtermsOfList (.positional callee) args
        (fun arg harg inner _ _ _ hoccurs => hlegal _ _ _ _ (.positional harg hoccurs)) hargs
    · exact exists_legalAt_of_mem_subtermsOfNamed callee named
        (fun argument hargument inner _ _ _ hoccurs =>
          hlegal _ _ _ _ (.named hargument hoccurs)) hnamed
  | .list items, hlegal, hsub => by
    simp only [Expr.subterms, List.mem_cons] at hsub
    obtain rfl | hitems := hsub
    · exact ⟨place, hlegal⟩
    · exact exists_legalAt_of_mem_subtermsOfList (.element place) items
        (fun item hitem inner _ _ _ hoccurs => hlegal _ _ _ _ (.element hitem hoccurs)) hitems
  | .str _, hlegal, hsub | .num _, hlegal, hsub | .bool _, hlegal, hsub | .ident _, hlegal, hsub
  | .extent _, hlegal, hsub => by
    obtain rfl := List.mem_singleton.mp hsub
    exact ⟨place, hlegal⟩

theorem exists_legalAt_of_mem_subtermsOfList {sub : Expr} (place : Place) :
    ∀ items : List Expr, (∀ item ∈ items, LegalAt place item) → sub ∈ Expr.subtermsOfList items →
      ∃ inner, LegalAt inner sub
  | [], _, hsub => by simp [Expr.subtermsOfList] at hsub
  | item :: items, hlegal, hsub => by
    rw [List.forall_mem_cons] at hlegal
    rw [Expr.subtermsOfList, List.mem_append] at hsub
    obtain hitem | hitems := hsub
    · exact LegalAt.exists_of_mem_subterms item hlegal.1 hitem
    · exact exists_legalAt_of_mem_subtermsOfList place items hlegal.2 hitems

theorem exists_legalAt_of_mem_subtermsOfNamed {sub : Expr} (callee : String) :
    ∀ arguments : List (String × Expr),
      (∀ argument ∈ arguments, LegalAt (.named callee argument.1) argument.2) →
      sub ∈ Expr.subtermsOfNamed arguments → ∃ inner, LegalAt inner sub
  | [], _, hsub => by simp [Expr.subtermsOfNamed] at hsub
  | (name, e) :: arguments, hlegal, hsub => by
    rw [List.forall_mem_cons] at hlegal
    rw [Expr.subtermsOfNamed, List.mem_append] at hsub
    obtain he | harguments := hsub
    · exact LegalAt.exists_of_mem_subterms e hlegal.1 he
    · exact exists_legalAt_of_mem_subtermsOfNamed callee arguments hlegal.2 harguments

end

mutual

/-- Marking the available width moves no call. -/
theorem LegalAt.markAvailable {place : Place} (width : Float) :
    ∀ e : Expr, LegalAt place e → LegalAt place (e.markAvailable width)
  | .call callee args named, hlegal => by
    rw [Expr.markAvailable]
    refine legalAt_call (hlegal _ _ _ _ .here) ?_ ?_
    · exact legalAt_markAvailableInList width args fun arg harg inner _ _ _ hoccurs =>
        hlegal _ _ _ _ (.positional harg hoccurs)
    · exact legalAt_markAvailableInNamed width callee named
        fun argument hargument inner _ _ _ hoccurs => hlegal _ _ _ _ (.named hargument hoccurs)
  | .list items, hlegal => by
    rw [Expr.markAvailable]
    refine legalAt_list ?_
    exact legalAt_markAvailableInList width items fun item hitem inner _ _ _ hoccurs =>
      hlegal _ _ _ _ (.element hitem hoccurs)
  | .extent (.fixed w), _ => by
    rw [Expr.markAvailable]
    split <;> exact free_extent _ place
  | .extent .available, hlegal | .str _, hlegal | .num _, hlegal | .bool _, hlegal
  | .ident _, hlegal => hlegal

theorem legalAt_markAvailableInList {place : Place} (width : Float) :
    ∀ items : List Expr, (∀ item ∈ items, LegalAt place item) →
      ∀ item ∈ Expr.markAvailableInList width items, LegalAt place item
  | [], _ => by simp [Expr.markAvailableInList]
  | item :: items, hlegal => by
    rw [List.forall_mem_cons] at hlegal
    rw [Expr.markAvailableInList, List.forall_mem_cons]
    exact ⟨LegalAt.markAvailable width item hlegal.1,
      legalAt_markAvailableInList width items hlegal.2⟩

theorem legalAt_markAvailableInNamed (width : Float) (callee : String) :
    ∀ arguments : List (String × Expr),
      (∀ argument ∈ arguments, LegalAt (.named callee argument.1) argument.2) →
      ∀ argument ∈ Expr.markAvailableInNamed width arguments,
        LegalAt (.named callee argument.1) argument.2
  | [], _ => by simp [Expr.markAvailableInNamed]
  | (name, e) :: arguments, hlegal => by
    rw [List.forall_mem_cons] at hlegal
    rw [Expr.markAvailableInNamed, List.forall_mem_cons]
    exact ⟨LegalAt.markAvailable width e hlegal.1,
      legalAt_markAvailableInNamed width callee arguments hlegal.2⟩

end

/-- A free widget has no flex wrapper around it. -/
theorem Free.unwrapFlex_eq {e : Expr} (hfree : Free e) : Page.unwrapFlex e = e := by
  cases e with
  | call callee args named =>
    have hadmits := hfree .root _ _ _ _ .here
    rw [Page.unwrapFlex, if_neg]
    intro hflex
    obtain hrow | hcolumn := hadmits.flex hflex
    · cases hrow
    · cases hcolumn
  | _ => rfl

end DesignCompiler.Dart
