import DesignCompiler.Dart.Query

/-!
# Nested expressions

An expression is nested in another one if it is that one or stands somewhere in its arguments or
items. Marking the available width changes extents but no other part.
-/

namespace DesignCompiler.Dart

/-- An expression that another one is or has among its parts, at any depth. -/
inductive Nested (sub : Expr) : Expr → Prop where
  | here : Nested sub sub
  | positional {callee : String} {args : List Expr} {named : List Argument} {arg : Expr} :
      arg ∈ args → Nested sub arg → Nested sub (.call callee args named)
  | named {callee : String} {args : List Expr} {named : List Argument} {argument : Argument} :
      argument ∈ named → Nested sub argument.2 → Nested sub (.call callee args named)
  | element {items : List Expr} {item : Expr} :
      item ∈ items → Nested sub item → Nested sub (.list items)

namespace Nested

theorem trans {sub middle e : Expr} (hsub : Nested sub middle) (hmiddle : Nested middle e) :
    Nested sub e := by
  induction hmiddle with
  | here => exact hsub
  | positional hmem _ ih => exact .positional hmem ih
  | named hmem _ ih => exact .named hmem ih
  | element hmem _ ih => exact .element hmem ih

/-- A named argument of a call with no positional ones. -/
theorem of_mem_named {callee : String} {arguments : List Argument} {sub : Expr}
    {argument : Argument} (hmem : argument ∈ arguments) (hsub : Nested sub argument.2) :
    Nested sub (.named callee arguments) := .named hmem hsub

/-- The child of a wrapper whose last argument it is. -/
theorem of_child {callee : String} {sub e : Expr} (front : List Argument) (hsub : Nested sub e) :
    Nested sub (.named callee (front ++ [Expr.child e])) :=
  .of_mem_named (List.mem_append_right front (List.mem_singleton.mpr rfl)) hsub

/-- One of the children of a layout widget. -/
theorem of_children {callee : String} {sub e : Expr} {items : List Expr} {arguments : List Argument}
    (hchildren : Expr.children items ∈ arguments) (hmem : e ∈ items) (hsub : Nested sub e) :
    Nested sub (.named callee arguments) := .of_mem_named hchildren (.element hmem hsub)

end Nested

/-! ## The walk over an expression -/

theorem mem_subtermsOfList_iff {sub : Expr} {items : List Expr} :
    sub ∈ Expr.subtermsOfList items ↔ ∃ item ∈ items, sub ∈ item.subterms := by
  induction items with
  | nil => simp [Expr.subtermsOfList]
  | cons item items ih => simp [Expr.subtermsOfList, ih]

theorem mem_subtermsOfNamed_iff {sub : Expr} {arguments : List Argument} :
    sub ∈ Expr.subtermsOfNamed arguments ↔ ∃ argument ∈ arguments, sub ∈ argument.2.subterms := by
  induction arguments with
  | nil => simp [Expr.subtermsOfNamed]
  | cons argument arguments ih =>
    simp [Expr.subtermsOfNamed, ih]

mutual

private theorem nested_of_mem_subterms {sub : Expr} :
    ∀ e : Expr, sub ∈ e.subterms → Nested sub e
  | .call callee args named, hsub => by
    simp only [Expr.subterms, List.mem_cons, List.mem_append] at hsub
    obtain rfl | hargs | hnamed := hsub
    · exact .here
    · obtain ⟨arg, hmem, hinside⟩ := nested_of_mem_subtermsOfList args hargs
      exact .positional hmem hinside
    · obtain ⟨argument, hmem, hinside⟩ := nested_of_mem_subtermsOfNamed named hnamed
      exact .named hmem hinside
  | .list items, hsub => by
    simp only [Expr.subterms, List.mem_cons] at hsub
    obtain rfl | hitems := hsub
    · exact .here
    · obtain ⟨item, hmem, hinside⟩ := nested_of_mem_subtermsOfList items hitems
      exact .element hmem hinside
  | .str _, hsub | .num _, hsub | .bool _, hsub | .ident _, hsub | .extent _, hsub => by
    obtain rfl := List.mem_singleton.mp hsub
    exact .here

private theorem nested_of_mem_subtermsOfList {sub : Expr} :
    ∀ items : List Expr, sub ∈ Expr.subtermsOfList items → ∃ item ∈ items, Nested sub item
  | [], hsub => by simp [Expr.subtermsOfList] at hsub
  | item :: items, hsub => by
    rw [Expr.subtermsOfList, List.mem_append] at hsub
    obtain hitem | hitems := hsub
    · exact ⟨item, List.mem_cons_self, nested_of_mem_subterms item hitem⟩
    · obtain ⟨other, hmem, hinside⟩ := nested_of_mem_subtermsOfList items hitems
      exact ⟨other, List.mem_cons_of_mem item hmem, hinside⟩

private theorem nested_of_mem_subtermsOfNamed {sub : Expr} :
    ∀ arguments : List (String × Expr), sub ∈ Expr.subtermsOfNamed arguments →
      ∃ argument ∈ arguments, Nested sub argument.2
  | [], hsub => by simp [Expr.subtermsOfNamed] at hsub
  | (name, e) :: arguments, hsub => by
    rw [Expr.subtermsOfNamed, List.mem_append] at hsub
    obtain he | harguments := hsub
    · exact ⟨_, List.mem_cons_self, nested_of_mem_subterms e he⟩
    · obtain ⟨other, hmem, hinside⟩ := nested_of_mem_subtermsOfNamed arguments harguments
      exact ⟨other, List.mem_cons_of_mem _ hmem, hinside⟩

end

theorem mem_subterms_iff {sub e : Expr} : sub ∈ e.subterms ↔ Nested sub e := by
  constructor
  · exact nested_of_mem_subterms e
  · intro hsub
    induction hsub with
    | here => cases sub <;> simp [Expr.subterms]
    | positional hmem _ ih =>
      rw [Expr.subterms, List.mem_cons, List.mem_append, mem_subtermsOfList_iff]
      exact .inr (.inl ⟨_, hmem, ih⟩)
    | named hmem _ ih =>
      rw [Expr.subterms, List.mem_cons, List.mem_append, mem_subtermsOfNamed_iff]
      exact .inr (.inr ⟨_, hmem, ih⟩)
    | element hmem _ ih =>
      rw [Expr.subterms, List.mem_cons, mem_subtermsOfList_iff]
      exact .inr ⟨_, hmem, ih⟩

theorem isCallOf_iff {e : Expr} {callee : String} :
    e.isCallOf callee = true ↔ ∃ args named, e = .call callee args named := by
  cases e <;> simp [Expr.isCallOf, Expr.callee?]

/-- A call of the callee stands somewhere in the expression. -/
def Calls (e : Expr) (callee : String) : Prop :=
  ∃ args named, Nested (.call callee args named) e

theorem usesCallee_iff {e : Expr} {callee : String} :
    e.usesCallee callee = true ↔ Calls e callee := by
  simp only [Expr.usesCallee, List.any_eq_true, mem_subterms_iff, isCallOf_iff]
  constructor
  · rintro ⟨_, hnested, args, named, rfl⟩
    exact ⟨args, named, hnested⟩
  · rintro ⟨args, named, hnested⟩
    exact ⟨_, hnested, args, named, rfl⟩

/-! ## Marking the available width -/

theorem markAvailableInList_eq_map (width : Float) (items : List Expr) :
    Expr.markAvailableInList width items = items.map (Expr.markAvailable width) := by
  induction items with
  | nil => rfl
  | cons item items ih => rw [Expr.markAvailableInList, ih, List.map_cons]

theorem markAvailableInNamed_eq_map (width : Float) (arguments : List Argument) :
    Expr.markAvailableInNamed width arguments =
      arguments.map fun argument => (argument.1, argument.2.markAvailable width) := by
  induction arguments with
  | nil => rfl
  | cons argument arguments ih => rw [Expr.markAvailableInNamed, ih, List.map_cons]

/-- Only a call is marked to a call. -/
theorem exists_of_markAvailable_eq_call {width : Float} {e : Expr} {callee : String}
    {args : List Expr} {named : List Argument}
    (hmarked : e.markAvailable width = .call callee args named) :
    ∃ items arguments, e = .call callee items arguments ∧
      args = items.map (Expr.markAvailable width) ∧
      named = arguments.map fun argument => (argument.1, argument.2.markAvailable width) := by
  unfold Expr.markAvailable at hmarked
  split at hmarked
  · split at hmarked <;> cases hmarked
  · obtain ⟨rfl, rfl, rfl⟩ := Expr.call.inj hmarked
    exact ⟨_, _, rfl, markAvailableInList_eq_map _ _, markAvailableInNamed_eq_map _ _⟩
  · cases hmarked
  · rename_i hcall _
    exact absurd hmarked (hcall _ _ _)

/-- Only a list is marked to a list. -/
theorem exists_of_markAvailable_eq_list {width : Float} {e : Expr} {marked : List Expr}
    (hmarked : e.markAvailable width = .list marked) :
    ∃ items, e = .list items ∧ marked = items.map (Expr.markAvailable width) := by
  unfold Expr.markAvailable at hmarked
  split at hmarked
  · split at hmarked <;> cases hmarked
  · cases hmarked
  · obtain rfl := Expr.list.inj hmarked
    exact ⟨_, rfl, markAvailableInList_eq_map _ _⟩
  · rename_i hlist
    exact absurd hmarked (hlist _)

/-- What is nested in a marked expression is a marked part of it. -/
theorem Nested.exists_of_markAvailable {width : Float} {sub e : Expr}
    (hsub : Nested sub (e.markAvailable width)) :
    ∃ inner, Nested inner e ∧ sub = inner.markAvailable width := by
  generalize hmarked : e.markAvailable width = marked at hsub
  induction hsub generalizing e with
  | here => exact ⟨e, .here, hmarked.symm⟩
  | positional hmem _ ih =>
    obtain ⟨items, arguments, rfl, rfl, -⟩ := exists_of_markAvailable_eq_call hmarked
    obtain ⟨item, hitem, heq⟩ := List.mem_map.mp hmem
    obtain ⟨inner, hinner, rfl⟩ := ih heq
    exact ⟨inner, .positional hitem hinner, rfl⟩
  | named hmem _ ih =>
    obtain ⟨items, arguments, rfl, -, rfl⟩ := exists_of_markAvailable_eq_call hmarked
    obtain ⟨argument, hargument, rfl⟩ := List.mem_map.mp hmem
    obtain ⟨inner, hinner, rfl⟩ := ih rfl
    exact ⟨inner, .named hargument hinner, rfl⟩
  | element hmem _ ih =>
    obtain ⟨items, rfl, rfl⟩ := exists_of_markAvailable_eq_list hmarked
    obtain ⟨item, hitem, heq⟩ := List.mem_map.mp hmem
    obtain ⟨inner, hinner, rfl⟩ := ih heq
    exact ⟨inner, .element hitem hinner, rfl⟩

end DesignCompiler.Dart
