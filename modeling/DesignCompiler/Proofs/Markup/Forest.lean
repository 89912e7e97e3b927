import DesignCompiler.Proofs.Markup.Links
import DesignCompiler.Proofs.Markup.Truncation
import Mathlib.Data.List.Forall2
import Mathlib.Logic.Relation

/-!
# The forest of a document

The table of a document holds its trees side by side: no node is above itself, and the nodes without
a parent are the roots of the trees, in order. The root of the document is one of them.
-/

namespace DesignCompiler.Markup.Dom

/-! ## Insertion of trees -/

/-- Whether inserting a node below another one keeps a property of tables. -/
def KeptByChildren (motive : Dom → Prop) : Prop :=
  ∀ (dom : Dom) (parent : Nat) (data : NodeData), motive dom → parent < dom.size →
    motive (dom.insertChild parent data)

mutual

/-- What is kept when a node is inserted below another one is kept when a tree is. -/
theorem KeptByChildren.insertTree {motive : Dom → Prop} (hkept : KeptByChildren motive) :
    ∀ (node : Node) {dom : Dom} {parent : Nat}, motive dom → parent < dom.size →
      motive (dom.insertTree (some parent) node)
  | .text content, dom, parent, hdom, hparent => hkept dom parent (.text content) hdom hparent
  | .element head children, dom, parent, hdom, hparent =>
    hkept.insertTrees children (hkept dom parent (.element head) hdom hparent)
      (by rw [place, size_insertChild hparent]; omega)

theorem KeptByChildren.insertTrees {motive : Dom → Prop} (hkept : KeptByChildren motive) :
    ∀ (nodes : List Node) {dom : Dom} {parent : Nat}, motive dom → parent < dom.size →
      motive (dom.insertTrees (some parent) nodes)
  | [], _, _, hdom, _ => hdom
  | node :: rest, _, _, hdom, hparent =>
    hkept.insertTrees rest (hkept.insertTree node hdom hparent)
      (Nat.lt_trans hparent (insertTree_spec node hparent).2.1)

end

/-- A tree that gets no parent is one node without a parent, and the rest is inserted below it. -/
theorem KeptByChildren.insertTree_none {motive : Dom → Prop} (hkept : KeptByChildren motive)
    (node : Node) {dom : Dom} (hroot : ∀ data, motive (dom.insert data)) :
    motive (dom.insertTree none node) := by
  cases node with
  | text content => exact hroot (.text content)
  | element head children =>
    exact hkept.insertTrees children (hroot (.element head)) (by simp [place])

theorem parent?_insertChild {dom : Dom} {parent : Nat} (hparent : parent < dom.size)
    (data : NodeData) (node : Nat) :
    (dom.insertChild parent data).parent? node =
      if node = dom.size then some parent else dom.parent? node := by
  have hsize := size_insert dom data
  rw [insertChild, parent?_append (by omega) (by omega), parent?_insert]

/-- A tree that gets no parent is found at the number that was free, and all entries stay. -/
theorem insertTree_none_spec (dom : Dom) (node : Node) :
    (dom.insertTree none node).Holds dom.size node ∧
      ∀ (i : Nat) (entry : NodeEntry), dom.entries[i]? = some entry →
        (dom.insertTree none node).entries[i]? = some entry := by
  have hkeeps : ∀ (data : NodeData) (i : Nat) (entry : NodeEntry), dom.entries[i]? = some entry →
      (dom.insert data).entries[i]? = some entry := fun data i entry hentry => by
    have hi := (Array.getElem?_eq_some_iff.mp hentry).1
    rw [insert, Array.getElem?_push_lt hi, ← Array.getElem?_eq_getElem hi, hentry]
  have hroot : ∀ data, (dom.insert data).entries[dom.size]? = some ⟨data, none, []⟩ :=
    fun data => by simp [insert, size]
  cases node with
  | text content => exact ⟨⟨none, hroot _⟩, hkeeps _⟩
  | element head children =>
    have hsize : dom.size < (dom.insert (.element head)).size := by simp
    obtain ⟨numbers, hextends, hholds⟩ := insertTrees_spec children hsize
    refine ⟨⟨none, numbers, hextends.hung _ (hroot _), hholds⟩, fun i entry hentry => ?_⟩
    have hi : i < dom.size := (Array.getElem?_eq_some_iff.mp hentry).1
    rw [insertTree, place, hextends.other i (by omega) (by omega), hkeeps _ i entry hentry]

/-! ## Forests -/

/-- The links of the table agree, and no node is above itself. -/
structure IsForest (dom : Dom) : Prop extends Linked dom where
  acyclic : ∀ node,
    ¬ Relation.TransGen (fun child parent => dom.parent? child = some parent) node node

/-- The links of the table agree, and every node stands after its parent. -/
structure Ascends (dom : Dom) : Prop extends Linked dom where
  lt_of_parent? : ∀ child parent, dom.parent? child = some parent → parent < child

theorem Ascends.isForest {dom : Dom} (hdom : dom.Ascends) : dom.IsForest where
  toLinked := hdom.toLinked
  acyclic := by
    -- A path upwards leads to smaller numbers.
    have hless : ∀ {node above : Nat},
        Relation.TransGen (fun child parent => dom.parent? child = some parent) node above →
          above < node := by
      intro node above hpath
      induction hpath with
      | single hparent => exact hdom.lt_of_parent? _ _ hparent
      | tail _ hparent ih => exact Nat.lt_trans (hdom.lt_of_parent? _ _ hparent) ih
    exact fun node hcycle => Nat.lt_irrefl node (hless hcycle)

theorem Ascends.insert {dom : Dom} (hdom : dom.Ascends) (data : NodeData) :
    (dom.insert data).Ascends where
  toLinked := hdom.toLinked.insert data
  lt_of_parent? := fun child parent hparent =>
    hdom.lt_of_parent? child parent (by rwa [parent?_insert] at hparent)

theorem keptByChildren_ascends : KeptByChildren Ascends := fun dom parent data hdom hparent => by
  refine ⟨hdom.toLinked.insertChild parent data, fun child above habove => ?_⟩
  rw [parent?_insertChild hparent] at habove
  split at habove
  case isTrue hchild =>
    cases habove
    rwa [hchild]
  case isFalse => exact hdom.lt_of_parent? child above habove

/-- The nodes without a parent. -/
def tops (dom : Dom) : List Nat :=
  (List.range dom.size).filter fun node => (dom.parent? node).isNone

theorem parent?_of_mem_tops {dom : Dom} {node : Nat} (hnode : node ∈ dom.tops) :
    dom.parent? node = none := by
  simpa using (List.mem_filter.mp hnode).2

theorem firstTopElement?_eq_find? (dom : Dom) :
    dom.firstTopElement? = dom.tops.find? fun node => (dom.element? node).isSome := by
  rw [tops, List.find?_filter, firstTopElement?]
  simp only [Bool.decide_and, Bool.decide_coe, Bool.and_comm]

theorem tops_insert (dom : Dom) (data : NodeData) :
    (dom.insert data).tops = dom.tops ++ [dom.size] := by
  have hfree : dom.parent? dom.size = none := by simp [parent?, size]
  rw [tops, size_insert, List.range_succ, List.filter_append]
  simp [tops, hfree]

theorem keptByChildren_tops (nodes : List Nat) : KeptByChildren fun dom => dom.tops = nodes :=
  fun dom parent data hdom hparent => by
    show (dom.insertChild parent data).tops = nodes
    rw [← hdom, tops, size_insertChild hparent, List.range_succ, List.filter_append, tops]
    have hold : ∀ node ∈ List.range dom.size,
        ((dom.insertChild parent data).parent? node).isNone = (dom.parent? node).isNone :=
      fun node hnode => by
        rw [parent?_insertChild hparent, if_neg (Nat.ne_of_lt (List.mem_range.mp hnode))]
    rw [List.filter_congr hold]
    simp [parent?_insertChild hparent]

/-- The links of the table ascend, and the trees stand at the nodes without a parent, in order. -/
structure Bears (dom : Dom) (forest : List Node) : Prop where
  ascends : dom.Ascends
  holds : List.Forall₂ dom.Holds dom.tops forest

theorem Bears.insertTree {dom : Dom} {forest : List Node} (hbears : dom.Bears forest)
    (node : Node) : (dom.insertTree none node).Bears (forest ++ [node]) where
  ascends := keptByChildren_ascends.insertTree_none node hbears.ascends.insert
  holds := by
    obtain ⟨hnode, hkeeps⟩ := insertTree_none_spec dom node
    -- All that is inserted below the new root has a parent, so only the root is new at the top.
    rw [(keptByChildren_tops _).insertTree_none node (tops_insert dom)]
    refine List.rel_append (hbears.holds.imp fun number tree htree => ?_) (.cons hnode .nil)
    exact htree.mono (fun i entry _ => hkeeps i entry) tree (Nat.le_refl _)

theorem Bears.insertTrees (nodes : List Node) {dom : Dom} {forest : List Node}
    (hbears : dom.Bears forest) : (dom.insertTrees none nodes).Bears (forest ++ nodes) := by
  induction nodes generalizing dom forest with
  | nil => rwa [Dom.insertTrees, List.append_nil]
  | cons node rest ih =>
    rw [Dom.insertTrees, ← List.singleton_append, ← List.append_assoc]
    exact ih (hbears.insertTree node)

theorem bears_ofDocument (document : Document) : (ofDocument document).Bears document.forest := by
  have hempty : empty.Bears [] :=
    ⟨⟨linked_empty, fun child parent hparent => by simp [parent?, empty] at hparent⟩, .nil⟩
  obtain ⟨⟨hlinked, hless⟩, hholds⟩ := hempty.insertTrees document.forest
  -- The root of a table has no part in its links and in what it holds.
  refine ⟨⟨⟨hlinked.mem_children_iff, hlinked.nodup⟩, hless⟩,
    hholds.imp fun number node hnode => ?_⟩
  refine Holds.mono ?_ node (Nat.le_refl number) hnode
  exact fun _ _ _ hentry => hentry

/-- The trees are what is read at the nodes without a parent. -/
theorem Bears.map_tree? {dom : Dom} {forest : List Node} (hbears : dom.Bears forest) :
    dom.tops.map dom.tree? = forest.map some := by
  rw [← List.forall₂_eq_eq_eq, List.forall₂_map_left_iff, List.forall₂_map_right_iff]
  exact hbears.holds.imp fun number node hnode => treeTo_of_holds node hnode (by omega)

theorem isSome_element?_of_holds {dom : Dom} {number : Nat} {node : Node}
    (hnode : dom.Holds number node) : (dom.element? number).isSome = node.isElement := by
  cases node with
  | text content =>
    obtain ⟨parent, hentry⟩ := hnode
    simp [element?, data?, hentry, NodeData.element?, Node.isElement, Node.head?]
  | element head children =>
    obtain ⟨parent, numbers, hentry, -⟩ := hnode
    simp [element?, data?, hentry, NodeData.element?, Node.isElement, Node.head?]

/-- The first element of a forest stands at the first node without a parent that is an element. -/
theorem exists_find?_of_holds {dom : Dom} {numbers : List Nat} {forest : List Node} {root : Node}
    (hholds : List.Forall₂ dom.Holds numbers forest)
    (hroot : forest.find? Node.isElement = some root) :
    ∃ number, numbers.find? (fun node => (dom.element? node).isSome) = some number ∧
      dom.Holds number root := by
  induction hholds with
  | nil => cases hroot
  | @cons number node numbers forest hnode _ ih =>
    have hsame := isSome_element?_of_holds hnode
    rw [List.find?_cons] at hroot ⊢
    cases helement : node.isElement with
    | true =>
      rw [helement] at hroot hsame
      cases hroot
      exact ⟨number, by rw [hsame], hnode⟩
    | false =>
      rw [helement] at hroot hsame
      rw [hsame]
      exact ih hroot

/-- The root of the table stands at the top, and the root of the document is found there. -/
theorem exists_root_of_parse {source : String} {document : Document}
    (hparse : parse source = .ok document) :
    ∃ root, (ofDocument document).root = some root ∧
      (ofDocument document).parent? root = none ∧
      (ofDocument document).tree? root = some document.root := by
  rw [← String.ofList_toList (s := source), parse_eq_ok_iff] at hparse
  obtain ⟨remaining, hreads⟩ := hparse
  obtain ⟨root, hroot, hholds⟩ :=
    exists_find?_of_holds (bears_ofDocument document).holds hreads.root
  refine ⟨root, ?_, parent?_of_mem_tops (List.mem_of_find?_eq_some hroot),
    treeTo_of_holds document.root hholds (by omega)⟩
  rw [root_ofDocument, ← hroot, ← firstTopElement?_eq_find?]
  rfl

/-- Whatever changes are made to the empty table, parents and lists of children say the same, and no
    node is in a list twice or in two lists. A node that is appended once more moves to the end of
    its new parent's list and leaves the order of all others alone, and an append with a number that
    is out of range does nothing. The table of a source is a forest with the root of the document at
    the top. -/
theorem links_agree :
    (∀ edits : List Edit,
      (run edits).Linked ∧
      (∀ parent parent' child, child ∈ (run edits).children parent →
        child ∈ (run edits).children parent' → parent = parent') ∧
      ∀ parent child,
        (parent < (run edits).size → child < (run edits).size →
          Moved (run edits) ((run edits).append parent child) parent child) ∧
        (¬ (parent < (run edits).size ∧ child < (run edits).size) →
          (run edits).append parent child = run edits)) ∧
    ∀ (source : String) (document : Document), parse source = .ok document →
      (ofDocument document).IsForest ∧
      (ofDocument document).tops.map (ofDocument document).tree? = document.forest.map some ∧
      ∃ root, (ofDocument document).root = some root ∧
        (ofDocument document).parent? root = none ∧
        (ofDocument document).tree? root = some document.root := by
  constructor
  · intro edits
    have hlinked := linked_run edits
    exact ⟨hlinked, fun _ _ _ hmem hmem' => hlinked.parent_eq hmem hmem', fun parent child =>
      ⟨hlinked.moved, append_of_not_lt (run edits) parent child⟩⟩
  · intro source document hparse
    have hbears := bears_ofDocument document
    exact ⟨hbears.ascends.isForest, hbears.map_tree?, exists_root_of_parse hparse⟩

/-- A node moved within its parent, and a fragment whose root stands beside a text. -/
theorem links_agree_moved :
    let edits : List Edit := [.insert (.text "a"), .insertChild 0 (.text "b"),
      .insertChild 0 (.text "c"), .append 0 7, .setRoot 0]
    (run edits).children 0 = [1, 2] ∧ ((run edits).append 0 1).children 0 = [2, 1] ∧
      Moved (run edits) ((run edits).append 0 1) 0 1 ∧ (run edits).append 0 7 = run edits ∧
      ∃ document, parse "return <>hi<br/></>" = .ok document ∧ (ofDocument document).IsForest ∧
        (ofDocument document).root = some 1 ∧ (ofDocument document).parent? 1 = none := by
  intro edits
  have hletters : Spelled escapedInText ['h', 'i'] ['h', 'i'] :=
    .plain (by decide) (.plain (by decide) .nil)
  have hopening := nextEvent_fragment "hi<br/></>".toList
  have htext := @nextEvent_text _ _ "<br/></>".toList _ hletters (by decide) (by decide) rfl
  have hname : Source.isName "br".toList = true := by decide
  have hbreak := nextEvent_tag hname (by decide) (by decide) (by simp) (by simp) (.nil isGap_nil)
    true "</>".toList
  have hclosing := nextEvent_fragmentEnd []
  let forest : List Node := [.text "hi", .element ⟨"br", ⟨[]⟩⟩ []]
  have hforest : Reads [] "<>hi<br/></>".toList forest [] :=
    .within hopening rfl (.within htext rfl (.within hbreak rfl (.complete hclosing rfl)))
  have hparse : parse "return <>hi<br/></>" = .ok ⟨forest, .element ⟨"br", ⟨[]⟩⟩ []⟩ :=
    parse_eq_ok_iff.mpr ⟨[], ⟨_, by decide, hforest⟩, rfl⟩
  obtain ⟨hedits, hsources⟩ := links_agree
  obtain ⟨hisForest, -, root, hroot, htop, -⟩ := hsources _ _ hparse
  have hsecond : some root = some 1 := hroot.symm.trans rfl
  cases hsecond
  exact ⟨rfl, rfl, ((hedits edits).2.2 0 1).1 (by decide) (by decide),
    ((hedits edits).2.2 0 7).2 (by decide), _, hparse, hisForest, hroot, htop⟩

end DesignCompiler.Markup.Dom
