import DesignCompiler.Proofs.Markup.Table
import Mathlib.Data.List.Nodup

/-!
# Links of the node table

A node table keeps its links twice, as parents and as lists of children. Every change keeps the two
in agreement.
-/

namespace DesignCompiler.Markup.Dom

/-! ## What a change does to the links -/

section Lookups

variable (dom : Dom) (data : NodeData) (parent child node : Nat)

@[simp] theorem size_insert : (dom.insert data).size = dom.size + 1 := by simp [size, insert]

@[simp] theorem parent?_insert : (dom.insert data).parent? node = dom.parent? node := by
  simp only [parent?, insert, Array.getElem?_push]
  split
  case isTrue hnode => simp [hnode]
  case isFalse => rfl

@[simp] theorem children_insert : (dom.insert data).children node = dom.children node := by
  simp only [children, insert, Array.getElem?_push]
  split
  case isTrue hnode => simp [hnode]
  case isFalse => rfl

theorem append_of_not_lt (hnull : ¬ (parent < dom.size ∧ child < dom.size)) :
    dom.append parent child = dom := by
  rw [append, if_neg (by simpa using hnull)]

end Lookups

section Append

variable {dom : Dom} {parent child : Nat}

/-- The entries without a child in the list of its parent. -/
def detached (dom : Dom) (child : Nat) : Array NodeEntry :=
  match dom.parent? child with
  | some old =>
    dom.entries.modify old fun e => { e with children := e.children.filter (· != child) }
  | none => dom.entries

theorem entries_append (hparent : parent < dom.size) (hchild : child < dom.size) :
    (dom.append parent child).entries =
      ((dom.detached child).modify child fun e => { e with parent := some parent }).modify parent
        fun e => { e with children := e.children ++ [child] } := by
  rw [append, if_pos (by simp [hparent, hchild])]
  rfl

theorem getElem?_detached (dom : Dom) (child node : Nat) :
    (dom.detached child)[node]? = dom.entries[node]?.map fun e =>
      if dom.parent? child = some node then
        { e with children := e.children.filter (· != child) }
      else e := by
  rw [detached]
  cases dom.parent? child with
  | none => simp
  | some old =>
    simp only [Array.getElem?_modify, Option.some.injEq]
    split <;> simp

/-- What stands at a number after an append. -/
theorem getElem?_append (hparent : parent < dom.size) (hchild : child < dom.size) (node : Nat) :
    (dom.append parent child).entries[node]? = dom.entries[node]?.map fun e =>
      { data := e.data
        parent := if node = child then some parent else e.parent
        children :=
          (if dom.parent? child = some node then e.children.filter (· != child) else e.children) ++
            if node = parent then [child] else [] } := by
  rw [entries_append hparent hchild, Array.getElem?_modify, Array.getElem?_modify,
    getElem?_detached]
  cases dom.entries[node]? with
  | none => simp
  | some e =>
    simp only [@eq_comm _ parent node, @eq_comm _ child node, Option.map_some]
    split <;> split <;> split <;> simp

/-- An appended node has the new parent, and all others keep theirs. -/
theorem parent?_append (hparent : parent < dom.size) (hchild : child < dom.size) (node : Nat) :
    (dom.append parent child).parent? node =
      if node = child then some parent else dom.parent? node := by
  rw [parent?, getElem?_append hparent hchild, Option.bind_map, parent?]
  split
  case isTrue hmoved =>
    rw [hmoved, Array.getElem?_eq_getElem hchild]
    rfl
  case isFalse => rfl

theorem children_append (hparent : parent < dom.size) (hchild : child < dom.size) (node : Nat) :
    (dom.append parent child).children node =
      (if dom.parent? child = some node then (dom.children node).filter (· != child)
        else dom.children node) ++ if node = parent then [child] else [] := by
  rw [children, getElem?_append hparent hchild, Option.map_map, children]
  cases hentry : dom.entries[node]? with
  | none =>
    have hnode : node ≠ parent := by
      rintro rfl
      simp [Array.getElem?_eq_getElem hparent] at hentry
    simp [hnode]
  | some e => rfl

theorem data?_append (dom : Dom) (parent child node : Nat) :
    (dom.append parent child).data? node = dom.data? node := by
  by_cases hin : parent < dom.size ∧ child < dom.size
  · rw [data?, getElem?_append hin.1 hin.2, Option.map_map]
    rfl
  · rw [append_of_not_lt dom parent child hin]

theorem size_append (dom : Dom) (parent child : Nat) :
    (dom.append parent child).size = dom.size := by
  by_cases hin : parent < dom.size ∧ child < dom.size
  · rw [size, entries_append hin.1 hin.2, detached]
    cases dom.parent? child <;> simp [size]
  · rw [append_of_not_lt dom parent child hin]

end Append

/-! ## Agreement of the links -/

/-- Parents and lists of children say the same, and no list has a node twice. -/
structure Linked (dom : Dom) : Prop where
  mem_children_iff : ∀ parent child, child ∈ dom.children parent ↔ dom.parent? child = some parent
  nodup : ∀ parent, (dom.children parent).Nodup

/-- What becomes of a table in which a node moves to the end of the children of a parent. It is in
    no other list, and the other nodes keep their order in all lists. -/
structure Moved (dom dom' : Dom) (parent child : Nat) : Prop where
  getLast?_children : (dom'.children parent).getLast? = some child
  count_children : ∀ node, (dom'.children node).count child = if node = parent then 1 else 0
  filter_children : ∀ node,
    (dom'.children node).filter (· != child) = (dom.children node).filter (· != child)
  parent?_eq : ∀ node, dom'.parent? node = if node = child then some parent else dom.parent? node
  data?_eq : ∀ node, dom'.data? node = dom.data? node
  size_eq : dom'.size = dom.size

section Linked

variable {dom : Dom} {parent child : Nat}

/-- A node is in the list of one parent at most. -/
theorem Linked.parent_eq {parent' : Nat} (hlinked : dom.Linked) (hmem : child ∈ dom.children parent)
    (hmem' : child ∈ dom.children parent') : parent = parent' := by
  rw [hlinked.mem_children_iff] at hmem hmem'
  exact Option.some.inj (hmem.symm.trans hmem')

theorem linked_empty : empty.Linked where
  mem_children_iff := fun parent child => by simp [children, parent?, empty]
  nodup := fun parent => by simp [children, empty]

theorem Linked.insert (hlinked : dom.Linked) (data : NodeData) : (dom.insert data).Linked where
  mem_children_iff := fun parent child => by simpa using hlinked.mem_children_iff parent child
  nodup := fun parent => by simpa using hlinked.nodup parent

/-- With agreeing links a node that is appended leaves no trace in any list. -/
theorem Linked.children_append (hlinked : dom.Linked) (hparent : parent < dom.size)
    (hchild : child < dom.size) (node : Nat) :
    (dom.append parent child).children node =
      (dom.children node).filter (· != child) ++ if node = parent then [child] else [] := by
  rw [Dom.children_append hparent hchild]
  split
  case isTrue => rfl
  case isFalse hold =>
    have habsent : child ∉ dom.children node := fun hmem =>
      hold ((hlinked.mem_children_iff node child).mp hmem)
    rw [List.filter_eq_self.mpr fun other hmem => by
      simpa using ne_of_mem_of_not_mem hmem habsent]

theorem Linked.append (hlinked : dom.Linked) (parent child : Nat) :
    (dom.append parent child).Linked := by
  by_cases hin : parent < dom.size ∧ child < dom.size
  case neg => rwa [append_of_not_lt dom parent child hin]
  case pos =>
    obtain ⟨hparent, hchild⟩ := hin
    constructor
    · intro node other
      rw [hlinked.children_append hparent hchild, parent?_append hparent hchild, List.mem_append,
        List.mem_filter, hlinked.mem_children_iff]
      by_cases hmoved : other = child <;> by_cases hunder : node = parent
      · simp [hmoved, hunder]
      · simp [hmoved, hunder, Ne.symm hunder]
      · simp [hmoved, hunder]
      · simp [hmoved, hunder]
    · intro node
      have hkept : ((dom.children node).filter (· != child)).Nodup := (hlinked.nodup node).filter _
      rw [hlinked.children_append hparent hchild]
      split
      case isTrue => exact List.Nodup.append hkept (List.nodup_singleton child) (by simp)
      case isFalse => rwa [List.append_nil]

theorem Linked.insertChild (hlinked : dom.Linked) (parent : Nat) (data : NodeData) :
    (dom.insertChild parent data).Linked :=
  (hlinked.insert data).append parent dom.size

theorem Linked.moved (hlinked : dom.Linked) (hparent : parent < dom.size)
    (hchild : child < dom.size) : Moved dom (dom.append parent child) parent child where
  getLast?_children := by simp [hlinked.children_append hparent hchild]
  count_children := fun node => by
    rw [hlinked.children_append hparent hchild, List.count_append, List.count_eq_zero_of_not_mem]
    · split <;> simp
    · simp
  filter_children := fun node => by
    rw [hlinked.children_append hparent hchild, List.filter_append, List.filter_filter]
    split <;> simp
  parent?_eq := parent?_append hparent hchild
  data?_eq := data?_append dom parent child
  size_eq := size_append dom parent child

end Linked

/-! ## Sequences of changes -/

/-- A change of a table. It may use any numbers, also of nodes that do not exist. -/
inductive Edit where
  | insert (data : NodeData)
  | insertChild (parent : Nat) (data : NodeData)
  | append (parent child : Nat)
  | setRoot (node : Nat)

/-- Make a change. -/
def Edit.apply (dom : Dom) : Edit → Dom
  | .insert data => dom.insert data
  | .insertChild parent data => dom.insertChild parent data
  | .append parent child => dom.append parent child
  | .setRoot node => dom.setRoot node

/-- The table that changes of the empty table lead to. -/
def run (edits : List Edit) : Dom := edits.foldl Edit.apply empty

theorem Linked.apply {dom : Dom} (hlinked : dom.Linked) (edit : Edit) :
    (edit.apply dom).Linked := by
  cases edit with
  | insert data => exact hlinked.insert data
  | insertChild parent data => exact hlinked.insertChild parent data
  | append parent child => exact hlinked.append parent child
  | setRoot node => exact ⟨hlinked.mem_children_iff, hlinked.nodup⟩

theorem linked_run (edits : List Edit) : (run edits).Linked := by
  have hsteps : ∀ dom : Dom, dom.Linked → (edits.foldl Edit.apply dom).Linked := by
    induction edits with
    | nil => exact fun _ hlinked => hlinked
    | cons edit rest ih => exact fun dom hlinked => ih _ (hlinked.apply edit)
  exact hsteps empty linked_empty

end DesignCompiler.Markup.Dom
