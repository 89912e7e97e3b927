import DesignCompiler.Proofs.Markup.Forest
import Mathlib.Data.List.Nodup
import Mathlib.Logic.Relation
import Mathlib.Order.WellFoundedSet

/-!
# The walk through the node table

The walk keeps the nodes that it has still to visit on a stack, and puts the children of a node in
its place. In a table without cycles it ends, and the nodes come in pre-order: a node, then the
pre-orders of its children from left to right.
-/

namespace DesignCompiler.Markup.Dom

section Traversal

variable {dom : Dom}

/-! ## Below a node -/

/-- The first node is a child of the second. -/
def IsChildOf (dom : Dom) (child parent : Nat) : Prop := dom.parent? child = some parent

/-- The first node is the second, or it is somewhere below it. -/
def IsBelow (dom : Dom) (node top : Nat) : Prop := Relation.ReflTransGen dom.IsChildOf node top

theorem IsChildOf.unique {child parent parent' : Nat} (hchild : dom.IsChildOf child parent)
    (hchild' : dom.IsChildOf child parent') : parent = parent' :=
  Option.some.inj (hchild.symm.trans hchild')

theorem IsChildOf.lt_size {child parent : Nat} (hchild : dom.IsChildOf child parent) :
    child < dom.size := by
  by_contra hnot
  rw [IsChildOf, parent?, Array.getElem?_eq_none (Nat.not_lt.mp hnot)] at hchild
  cases hchild

theorem lt_size_of_mem_children {child parent : Nat} (hmem : child ∈ dom.children parent) :
    parent < dom.size := by
  by_contra hnot
  rw [children, Array.getElem?_eq_none (Nat.not_lt.mp hnot)] at hmem
  cases hmem

theorem Linked.mem_children {child parent : Nat} (hlinked : dom.Linked) :
    child ∈ dom.children parent ↔ dom.IsChildOf child parent :=
  hlinked.mem_children_iff parent child

/-- There are finitely many nodes, so no way down goes on for ever. -/
theorem IsForest.wellFounded (hforest : dom.IsForest) : WellFounded dom.IsChildOf := by
  have horder : IsStrictOrder Nat (Relation.TransGen dom.IsChildOf) :=
    { irrefl := hforest.acyclic, trans := fun _ _ _ => Relation.TransGen.trans }
  have hfinite := (Set.finite_lt_nat dom.size).wellFoundedOn (r := Relation.TransGen dom.IsChildOf)
  rw [Set.wellFoundedOn_iff] at hfinite
  refine Subrelation.wf ?_ hfinite
  intro child parent hchild
  exact ⟨.single hchild, hchild.lt_size,
    lt_size_of_mem_children (hforest.toLinked.mem_children.mpr hchild)⟩

/-- A node that is below two nodes has them above it on one way up. -/
theorem IsBelow.comparable {node top top' : Nat} (hbelow : dom.IsBelow node top)
    (hbelow' : dom.IsBelow node top') : dom.IsBelow top top' ∨ dom.IsBelow top' top :=
  Relation.ReflTransGen.total_of_right_unique (fun _ _ _ => IsChildOf.unique) hbelow hbelow'

/-- Nothing is below two children of a node. -/
theorem IsForest.eq_of_isBelow (hforest : dom.IsForest) {node child child' parent : Nat}
    (hchild : dom.IsChildOf child parent) (hchild' : dom.IsChildOf child' parent)
    (hbelow : dom.IsBelow node child) (hbelow' : dom.IsBelow node child') : child = child' := by
  -- The lower one of two different children would have the other between itself and the parent.
  have hsame : ∀ {low high : Nat}, dom.IsChildOf low parent → dom.IsChildOf high parent →
      dom.IsBelow low high → low = high := by
    intro low high hlow hhigh hbetween
    obtain rfl | ⟨above, habove, hrest⟩ := hbetween.cases_head
    · rfl
    · obtain rfl := habove.unique hlow
      exact absurd (Relation.TransGen.tail' hrest hhigh) (hforest.acyclic above)
  obtain hlower | hhigher := hbelow.comparable hbelow'
  · exact hsame hchild hchild' hlower
  · exact (hsame hchild' hchild hhigher).symm

/-! ## Pre-order -/

/-- The node, then the pre-orders of its children from left to right. -/
def IsForest.preorder (hforest : dom.IsForest) (node : Nat) : List Nat :=
  node :: (dom.children node).attach.flatMap fun child => hforest.preorder child.val
termination_by hforest.wellFounded.wrap node
decreasing_by exact hforest.toLinked.mem_children.mp child.property

theorem IsForest.preorder_eq (hforest : dom.IsForest) (node : Nat) :
    hforest.preorder node = node :: (dom.children node).flatMap hforest.preorder := by
  rw [preorder, ← List.flatMap_map, List.attach_map_subtype_val]

theorem IsForest.mem_preorder_iff (hforest : dom.IsForest) {node : Nat} (other : Nat) :
    other ∈ hforest.preorder node ↔ dom.IsBelow other node := by
  induction node using hforest.wellFounded.induction with
  | _ node ih =>
    rw [hforest.preorder_eq, List.mem_cons, List.mem_flatMap, IsBelow,
      Relation.ReflTransGen.cases_tail_iff, @eq_comm _ node]
    refine or_congr_right (exists_congr fun child => ?_)
    rw [hforest.toLinked.mem_children, and_comm]
    exact and_congr_left fun hchild => ih child hchild

theorem IsForest.nodup_preorder (hforest : dom.IsForest) (node : Nat) :
    (hforest.preorder node).Nodup := by
  induction node using hforest.wellFounded.induction with
  | _ node ih =>
    rw [hforest.preorder_eq, List.nodup_cons, List.nodup_flatMap]
    refine ⟨fun hmem => ?_, fun child hchild => ih child (hforest.toLinked.mem_children.mp hchild),
      ?_⟩
    · obtain ⟨child, hchild, hbelow⟩ := List.mem_flatMap.mp hmem
      rw [hforest.mem_preorder_iff] at hbelow
      exact hforest.acyclic node (.tail' hbelow (hforest.toLinked.mem_children.mp hchild))
    · refine (hforest.nodup node).imp_of_mem fun {child child'} hchild hchild' hne => ?_
      rw [Function.onFun, List.disjoint_left]
      intro other hother hother'
      rw [hforest.mem_preorder_iff] at hother hother'
      rw [hforest.toLinked.mem_children] at hchild hchild'
      exact hne (hforest.eq_of_isBelow hchild hchild' hother hother')

theorem IsForest.length_preorder_le (hforest : dom.IsForest) {node : Nat}
    (hnode : node < dom.size) : (hforest.preorder node).length ≤ dom.size := by
  have hrange : hforest.preorder node ⊆ List.range dom.size := by
    intro other hother
    rw [List.mem_range]
    obtain rfl | ⟨above, hchild, -⟩ := ((hforest.mem_preorder_iff other).mp hother).cases_head
    · exact hnode
    · exact hchild.lt_size
  simpa using ((hforest.nodup_preorder node).subperm hrange).length_le

/-- A child comes somewhere behind its parent. -/
theorem IsForest.sublist_preorder (hforest : dom.IsForest) {node child parent : Nat}
    (hchild : dom.IsChildOf child parent) (hparent : parent ∈ hforest.preorder node) :
    [parent, child].Sublist (hforest.preorder node) := by
  induction node using hforest.wellFounded.induction with
  | _ node ih =>
    rw [hforest.preorder_eq, List.mem_cons, List.mem_flatMap] at hparent
    rw [hforest.preorder_eq]
    obtain rfl | ⟨other, hother, hparent⟩ := hparent
    · apply List.Sublist.cons_cons
      rw [List.singleton_sublist, List.mem_flatMap]
      exact ⟨child, hforest.toLinked.mem_children.mpr hchild,
        (hforest.mem_preorder_iff child).mpr .refl⟩
    · have hwithin := ih other (hforest.toLinked.mem_children.mp hother) hparent
      have hpart := (List.singleton_sublist.mpr hother).flatMap hforest.preorder
      rw [List.flatMap_singleton] at hpart
      exact (hwithin.trans hpart).cons node

/-! ## The loop -/

/-- One round of the walk: the node on top of the stack is visited, and its children take its place.
    A number that stands for no node is passed over. -/
def round (dom : Dom) : List Nat × List Nat → List Nat × List Nat
  | (visited, []) => (visited, [])
  | (visited, node :: stack) =>
    if node < dom.size then (visited ++ [node], dom.children node ++ stack) else (visited, stack)

/-- The walk collects what its rounds visit. -/
theorem fst_iterate_round (rounds : Nat) (visited stack : List Nat) :
    (dom.round^[rounds] (visited, stack)).1 = visited ++ dom.walk rounds stack := by
  induction rounds generalizing visited stack with
  | zero => simp [walk]
  | succ rounds ih =>
    rw [Function.iterate_succ_apply]
    cases stack with
    | nil =>
      have hnil : dom.walk rounds [] = [] := by cases rounds <;> rfl
      rw [round, ih, hnil, walk]
    | cons node stack =>
      rw [round, walk]
      split
      case isTrue hnode =>
        rw [ih, children, Array.getElem?_eq_getElem hnode]
        simp
      case isFalse hnode =>
        rw [ih, Array.getElem?_eq_none (Nat.not_lt.mp hnode)]

/-- The rounds for the nodes on top of the stack are those for each of them in turn. -/
theorem iterate_round_flatMap {order : Nat → List Nat} {nodes : List Nat}
    (hnodes : ∀ node ∈ nodes, ∀ visited stack,
      dom.round^[(order node).length] (visited, node :: stack) = (visited ++ order node, stack))
    (visited stack : List Nat) :
    dom.round^[(nodes.flatMap order).length] (visited, nodes ++ stack) =
      (visited ++ nodes.flatMap order, stack) := by
  induction nodes generalizing visited with
  | nil => simp
  | cons node nodes ih =>
    rw [List.forall_mem_cons] at hnodes
    rw [List.flatMap_cons, List.length_append, Nat.add_comm, Function.iterate_add_apply,
      List.cons_append, hnodes.1, ih hnodes.2, List.append_assoc]

/-- After as many rounds as there are nodes below it, a node has been replaced by its pre-order. -/
theorem IsForest.iterate_round_preorder (hforest : dom.IsForest) {node : Nat}
    (hnode : node < dom.size) (visited stack : List Nat) :
    dom.round^[(hforest.preorder node).length] (visited, node :: stack) =
      (visited ++ hforest.preorder node, stack) := by
  induction node using hforest.wellFounded.induction generalizing visited stack with
  | _ node ih =>
    have hchildren : ∀ child ∈ dom.children node, ∀ visited stack,
        dom.round^[(hforest.preorder child).length] (visited, child :: stack) =
          (visited ++ hforest.preorder child, stack) := by
      intro child hmem
      have hchild := hforest.toLinked.mem_children.mp hmem
      exact ih child hchild hchild.lt_size
    rw [hforest.preorder_eq, List.length_cons, Function.iterate_succ_apply, round, if_pos hnode,
      iterate_round_flatMap hchildren, List.append_assoc, List.singleton_append]

theorem IsForest.iterate_round_size (hforest : dom.IsForest) {node : Nat}
    (hnode : node < dom.size) :
    dom.round^[dom.size] ([], [node]) = (hforest.preorder node, []) := by
  have hrounds := Nat.sub_add_cancel (hforest.length_preorder_le hnode)
  have hrest : dom.round (hforest.preorder node, []) = (hforest.preorder node, []) := rfl
  rw [← hrounds, Function.iterate_add_apply, hforest.iterate_round_preorder hnode, List.nil_append,
    Function.iterate_fixed hrest]

/-! ## Walks -/

/-- What the walk from a node of a table without cycles comes to. -/
structure WalksInOrder (hforest : dom.IsForest) (node : Nat) : Prop where
  /-- The stack is empty in the end, after as many rounds as the table has nodes at most. -/
  iterate_round_eq : dom.round^[dom.size] ([], [node]) = (dom.descendants node, [])
  descendants_eq : dom.descendants node = hforest.preorder node
  mem_iff : ∀ other, other ∈ dom.descendants node ↔ dom.IsBelow other node
  nodup : (dom.descendants node).Nodup
  sublist : ∀ child parent, child ∈ dom.descendants node → child ≠ node →
    dom.IsChildOf child parent → [parent, child].Sublist (dom.descendants node)
  texts_eq : (dom.element? node).isSome → dom.texts node = (dom.children node).flatMap dom.texts

theorem collapsedTexts_flatMap {α : Type} (nodes : List α) (contents : α → List String) :
    Node.collapsedTexts (nodes.flatMap contents) =
      nodes.flatMap fun node => Node.collapsedTexts (contents node) := by
  simp only [Node.collapsedTexts, List.map_flatMap, List.filter_flatMap]

theorem IsForest.descendants_eq_preorder (hforest : dom.IsForest) {node : Nat}
    (hnode : node < dom.size) : dom.descendants node = hforest.preorder node := by
  have hvisited := @fst_iterate_round dom dom.size [] [node]
  rw [hforest.iterate_round_size hnode, List.nil_append] at hvisited
  exact hvisited.symm

/-- An element has no text of its own. -/
theorem IsForest.texts_eq_flatMap (hforest : dom.IsForest) {node : Nat} (hnode : node < dom.size)
    (helement : (dom.element? node).isSome) :
    dom.texts node = (dom.children node).flatMap dom.texts := by
  have hown : dom.text? node = none := by
    rw [element?] at helement
    rw [text?]
    cases hdata : dom.data? node with
    | none => rfl
    | some data =>
      rw [hdata] at helement
      cases data with
      | element head => rfl
      | text content => cases helement
  have hchild : ∀ child ∈ dom.children node, dom.texts child =
      Node.collapsedTexts ((hforest.preorder child).filterMap dom.text?) := by
    intro child hmem
    have hchild := hforest.toLinked.mem_children.mp hmem
    rw [texts, hforest.descendants_eq_preorder hchild.lt_size]
  rw [texts, hforest.descendants_eq_preorder hnode, hforest.preorder_eq,
    List.filterMap_cons_none hown, List.filterMap_flatMap, collapsedTexts_flatMap]
  exact (List.flatMap_congr hchild).symm

theorem IsForest.walksInOrder (hforest : dom.IsForest) {node : Nat} (hnode : node < dom.size) :
    WalksInOrder hforest node := by
  have heq := hforest.descendants_eq_preorder hnode
  constructor
  · rw [heq, hforest.iterate_round_size hnode]
  · exact heq
  · rw [heq]
    exact hforest.mem_preorder_iff
  · rw [heq]
    exact hforest.nodup_preorder node
  · intro child parent hmem hne hchild
    rw [heq] at hmem ⊢
    obtain rfl | ⟨above, habove, hbelow⟩ := ((hforest.mem_preorder_iff child).mp hmem).cases_head
    · exact absurd rfl hne
    · obtain rfl := habove.unique hchild
      exact hforest.sublist_preorder hchild ((hforest.mem_preorder_iff above).mpr hbelow)
  · exact hforest.texts_eq_flatMap hnode

end Traversal

/-- From every node of every table without cycles that changes of the empty table lead to, the walk
    ends and is the pre-order: every node of the subtree comes once, behind its parent, and the
    texts of an element are those of its children in order. The table of a document has no
    cycles. -/
theorem walksInOrder_run :
    (∀ (edits : List Edit)
      (hacyclic : ∀ node, ¬ Relation.TransGen (run edits).IsChildOf node node) (node : Nat),
      node < (run edits).size → WalksInOrder ⟨linked_run edits, hacyclic⟩ node) ∧
    ∀ (document : Document) (node : Nat), node < (ofDocument document).size →
      WalksInOrder (bears_ofDocument document).ascends.isForest node :=
  ⟨fun _ _ _ hnode => IsForest.walksInOrder _ hnode, fun _ _ hnode => IsForest.walksInOrder _ hnode⟩

/-- A text that was inserted before its parent, and moved to another one. -/
theorem walksInOrder_run_moved :
    let edits : List Edit := [.insert (.text " two\n words "), .insert (.element ⟨"div", .empty⟩),
      .append 1 0, .insertChild 1 (.text "one"), .insertChild 1 (.element ⟨"span", .empty⟩),
      .append 3 0]
    let document : Document := ⟨[.element ⟨"p", .empty⟩ [.text "hi"]], .text "hi"⟩
    (run edits).descendants 1 = [1, 2, 3, 0] ∧ (run edits).texts 1 = ["one", "two words"] ∧
      (∃ hforest : (run edits).IsForest, WalksInOrder hforest 1) ∧
      (ofDocument document).descendants 0 = [0, 1] ∧
      ∃ hforest : (ofDocument document).IsForest, WalksInOrder hforest 0 := by
  intro edits document
  let height : Nat → Nat := fun node => if node = 1 then 2 else if node = 3 then 1 else 0
  have hheight : ∀ child parent, (run edits).IsChildOf child parent →
      height child < height parent := by
    have hlinks : ∀ child < 4, ∀ parent ∈ (run edits).parent? child,
        height child < height parent := by decide +kernel
    exact fun child parent hchild => hlinks child hchild.lt_size parent hchild
  have hacyclic : ∀ node, ¬ Relation.TransGen (run edits).IsChildOf node node := by
    intro node hcycle
    have hless := hcycle.lift height hheight
    rw [Relation.transGen_eq_self] at hless
    exact lt_irrefl _ hless
  exact ⟨rfl, by decide +kernel, ⟨_, walksInOrder_run.1 edits hacyclic 1 (by decide)⟩, rfl,
    ⟨_, walksInOrder_run.2 document 0 (by decide)⟩⟩

end DesignCompiler.Markup.Dom
