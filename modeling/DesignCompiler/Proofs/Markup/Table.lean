import DesignCompiler.Markup.Dom

/-!
# Trees in the node table

A tree inserted into a node table is found there again. Later insertions change only the entries of
the nodes that they hang new children on.
-/

namespace DesignCompiler.Markup.Dom

mutual

/-- The tree stands at a number of the table, with every node before its children. -/
def Holds (dom : Dom) (number : Nat) : Node → Prop
  | .text content => ∃ parent, dom.entries[number]? = some ⟨.text content, parent, []⟩
  | .element head children => ∃ parent numbers,
    dom.entries[number]? = some ⟨.element head, parent, numbers⟩ ∧
      dom.HoldsAll number numbers children

/-- The trees stand at numbers of the table above a number. -/
def HoldsAll (dom : Dom) (above : Nat) (numbers : List Nat) : List Node → Prop
  | [] => numbers = []
  | node :: rest => ∃ number others,
    numbers = number :: others ∧ above < number ∧ dom.Holds number node ∧
      dom.HoldsAll above others rest

end

mutual

/-- A tree stays where the entries from its root on stay. -/
theorem Holds.mono {dom dom' : Dom} {low : Nat}
    (hsame : ∀ i entry, low ≤ i → dom.entries[i]? = some entry → dom'.entries[i]? = some entry) :
    ∀ (node : Node) {number : Nat}, low ≤ number → dom.Holds number node → dom'.Holds number node
  | .text content, number, hlow, hholds => by
    obtain ⟨parent, hentry⟩ := hholds
    exact ⟨parent, hsame number _ hlow hentry⟩
  | .element head children, number, hlow, hholds => by
    obtain ⟨parent, numbers, hentry, hchildren⟩ := hholds
    exact ⟨parent, numbers, hsame number _ hlow hentry,
      HoldsAll.mono hsame children hlow hchildren⟩

theorem HoldsAll.mono {dom dom' : Dom} {low : Nat}
    (hsame : ∀ i entry, low ≤ i → dom.entries[i]? = some entry → dom'.entries[i]? = some entry) :
    ∀ (nodes : List Node) {above : Nat} {numbers : List Nat}, low ≤ above →
      dom.HoldsAll above numbers nodes → dom'.HoldsAll above numbers nodes
  | [], _, _, _, hholds => hholds
  | node :: rest, above, numbers, hlow, hholds => by
    obtain ⟨number, others, rfl, habove, hnode, hrest⟩ := hholds
    exact ⟨number, others, rfl, habove, Holds.mono hsame node (by omega) hnode,
      HoldsAll.mono hsame rest hlow hrest⟩

end

mutual

/-- A tree in the table is what is read there, down to any depth that reaches the end of the
    table. -/
theorem treeTo_of_holds {dom : Dom} :
    ∀ (node : Node) {number depth : Nat}, dom.Holds number node → dom.size ≤ number + depth →
      dom.treeTo depth number = some node
  | .text content, number, depth, hholds, hdepth => by
    obtain ⟨parent, hentry⟩ := hholds
    have hlt := (Array.getElem?_eq_some_iff.mp hentry).1
    cases depth with
    | zero =>
      rw [size] at hdepth
      omega
    | succ depth => rw [treeTo, hentry]
  | .element head children, number, depth, hholds, hdepth => by
    obtain ⟨parent, numbers, hentry, hchildren⟩ := hholds
    have hlt := (Array.getElem?_eq_some_iff.mp hentry).1
    cases depth with
    | zero =>
      rw [size] at hdepth
      omega
    | succ depth =>
      have hfound : numbers.filterMap (dom.treeTo depth) = children :=
        filterMap_treeTo_of_holdsAll children hchildren (by omega)
      rw [treeTo, hentry]
      simp only [hfound]

theorem filterMap_treeTo_of_holdsAll {dom : Dom} :
    ∀ (nodes : List Node) {above depth : Nat} {numbers : List Nat},
      dom.HoldsAll above numbers nodes → dom.size ≤ above + 1 + depth →
      numbers.filterMap (dom.treeTo depth) = nodes
  | [], _, _, _, hholds, _ => by
    rw [show _ = [] from hholds, List.filterMap_nil]
  | node :: rest, above, depth, numbers, hholds, hdepth => by
    obtain ⟨number, others, rfl, habove, hnode, hrest⟩ := hholds
    rw [List.filterMap_cons, treeTo_of_holds node hnode (by omega),
      filterMap_treeTo_of_holdsAll rest hrest hdepth]

end

/-! ## Insertions -/

/-- What a table becomes when nodes are hung on a node: they come last, the node has new children,
    and no other entry changes. -/
structure Extends (dom dom' : Dom) (parent : Nat) (numbers : List Nat) : Prop where
  size_le : dom.size ≤ dom'.size
  other : ∀ i, i < dom.size → i ≠ parent → dom'.entries[i]? = dom.entries[i]?
  hung : ∀ entry, dom.entries[parent]? = some entry →
    dom'.entries[parent]? = some { entry with children := entry.children ++ numbers }

theorem Extends.refl (dom : Dom) (parent : Nat) : dom.Extends dom parent [] where
  size_le := Nat.le_refl _
  other := fun _ _ _ => rfl
  hung := fun entry hentry => by simpa using hentry

theorem Extends.trans {dom dom' dom'' : Dom} {parent : Nat} {numbers others : List Nat}
    (hfirst : dom.Extends dom' parent numbers) (hnext : dom'.Extends dom'' parent others) :
    dom.Extends dom'' parent (numbers ++ others) where
  size_le := Nat.le_trans hfirst.size_le hnext.size_le
  other := fun i hi hne => by
    rw [hnext.other i (Nat.lt_of_lt_of_le hi hfirst.size_le) hne, hfirst.other i hi hne]
  hung := fun entry hentry => by
    rw [hnext.hung _ (hfirst.hung entry hentry)]
    simp

theorem entries_insertChild {dom : Dom} {parent : Nat} (hparent : parent < dom.size)
    (data : NodeData) :
    (dom.insertChild parent data).entries =
      ((dom.entries.push ⟨data, none, []⟩).modify dom.size fun e =>
        { e with parent := some parent }).modify parent fun e =>
          { e with children := e.children ++ [dom.size] } := by
  have hin : parent < (dom.insert data).size ∧ dom.size < (dom.insert data).size := by
    simp only [size, insert, Array.size_push] at hparent ⊢
    omega
  have hnone : ((dom.insert data).entries[dom.size]?).bind NodeEntry.parent = none := by
    simp [insert, size]
  rw [insertChild, append, if_pos (by simp [hin])]
  simp only [hnone]
  rfl

/-- A node inserted below a parent comes last and is its last child. -/
theorem extends_insertChild {dom : Dom} {parent : Nat} (hparent : parent < dom.size)
    (data : NodeData) : dom.Extends (dom.insertChild parent data) parent [dom.size] where
  size_le := by
    rw [size, size, entries_insertChild hparent]
    simp
  other := fun i hi hne => by
    have hsize : dom.size ≠ i := by omega
    rw [entries_insertChild hparent, Array.getElem?_modify, if_neg (Ne.symm hne),
      Array.getElem?_modify, if_neg hsize, Array.getElem?_push_lt hi]
    exact (Array.getElem?_eq_getElem hi).symm
  hung := fun entry hentry => by
    have hsize : dom.size ≠ parent := by omega
    rw [entries_insertChild hparent, Array.getElem?_modify, if_pos rfl, Array.getElem?_modify,
      if_neg hsize, Array.getElem?_push, if_neg (show parent ≠ dom.entries.size from
        Ne.symm hsize), hentry]
    rfl

theorem size_insertChild {dom : Dom} {parent : Nat} (hparent : parent < dom.size)
    (data : NodeData) : (dom.insertChild parent data).size = dom.size + 1 := by
  rw [size, entries_insertChild hparent]
  simp [size]

theorem getElem?_insertChild {dom : Dom} {parent : Nat} (hparent : parent < dom.size)
    (data : NodeData) :
    (dom.insertChild parent data).entries[dom.size]? = some ⟨data, some parent, []⟩ := by
  have hne : parent ≠ dom.size := by omega
  rw [entries_insertChild hparent, Array.getElem?_modify, if_neg hne, Array.getElem?_modify,
    if_pos rfl]
  simp [size]

mutual

/-- An inserted tree hangs on its parent, and its root has the number that was free. -/
theorem insertTree_spec {parent : Nat} :
    ∀ (node : Node) {dom : Dom}, parent < dom.size →
      dom.Extends (dom.insertTree (some parent) node) parent [dom.size] ∧
        dom.size < (dom.insertTree (some parent) node).size ∧
        (dom.insertTree (some parent) node).Holds dom.size node
  | .text content, dom, hparent => by
    rw [insertTree, place]
    refine ⟨extends_insertChild hparent _, ?_, some parent, getElem?_insertChild hparent _⟩
    rw [size_insertChild hparent]
    omega
  | .element head children, dom, hparent => by
    rw [insertTree, place]
    have hsize := size_insertChild hparent (.element head)
    have hplaced := extends_insertChild hparent (.element head)
    have hentry := getElem?_insertChild hparent (.element head)
    have hroot : dom.size < (dom.insertChild parent (.element head)).size := by omega
    obtain ⟨numbers, hextends, hholds⟩ := insertTrees_spec children hroot
    have hle := hextends.size_le
    refine ⟨⟨by omega, fun i hi hne => ?_, fun entry hfound => ?_⟩, by omega, some parent, numbers,
      hextends.hung _ hentry, hholds⟩
    · rw [hextends.other i (by omega) (by omega), hplaced.other i hi hne]
    · rw [hextends.other parent (by omega) (by omega), hplaced.hung entry hfound]

theorem insertTrees_spec {parent : Nat} :
    ∀ (nodes : List Node) {dom : Dom}, parent < dom.size →
      ∃ numbers, dom.Extends (dom.insertTrees (some parent) nodes) parent numbers ∧
        (dom.insertTrees (some parent) nodes).HoldsAll parent numbers nodes
  | [], dom, _ => ⟨[], .refl dom parent, rfl⟩
  | node :: rest, dom, hparent => by
    obtain ⟨hfirst, hlt, hnode⟩ := insertTree_spec node hparent
    obtain ⟨numbers, hnext, hrest⟩ := insertTrees_spec rest (Nat.lt_trans hparent hlt)
    rw [insertTrees]
    refine ⟨dom.size :: numbers, hfirst.trans hnext, dom.size, numbers, rfl, hparent, ?_, hrest⟩
    refine Holds.mono (fun i entry hlow hentry => ?_) node (Nat.le_refl dom.size) hnode
    have hi := (Array.getElem?_eq_some_iff.mp hentry).1
    rw [hnext.other i hi (by omega), hentry]

end

/-- The root of a table is its first node if that is an element without a parent. -/
theorem firstTopElement?_of_getElem? {dom : Dom} {head : Element} {numbers : List Nat}
    (hentry : dom.entries[0]? = some ⟨.element head, none, numbers⟩) :
    dom.firstTopElement? = some 0 := by
  have hlt : 0 < dom.size := (Array.getElem?_eq_some_iff.mp hentry).1
  obtain ⟨n, hn⟩ := Nat.exists_eq_succ_of_ne_zero (Nat.ne_of_gt hlt)
  rw [firstTopElement?, hn, List.range_succ_eq_map, List.find?_cons_of_pos]
  simp [element?, data?, parent?, hentry, NodeData.element?]

/-- The root of the table of a document is the first element in it that has no parent. -/
theorem root_ofDocument (document : Document) :
    (ofDocument document).root = (empty.insertTrees none document.forest).firstTopElement? := by
  have hnumber : (ofDocument document).root =
      (empty.insertTrees none document.forest).firstTopElement?.filter
        (· < (empty.insertTrees none document.forest).size) := rfl
  rw [hnumber]
  cases hfirst : (empty.insertTrees none document.forest).firstTopElement? with
  | none => rfl
  | some root =>
    exact Option.filter_some_pos
      (decide_eq_true (List.mem_range.mp (List.mem_of_find?_eq_some hfirst)))

/-- In the table of a single tree the root comes first, and the tree is found there. -/
theorem ofDocument_singleton {document : Document} {head : Element} {children : List Node}
    (hforest : document.forest = [.element head children]) :
    (ofDocument document).root = some 0 ∧
      (ofDocument document).tree? 0 = some (.element head children) := by
  have hroot : 0 < (empty.insert (.element head)).size := by simp [size, insert]
  obtain ⟨numbers, hextends, hholds⟩ := insertTrees_spec children hroot
  have hentry := hextends.hung ⟨.element head, none, []⟩ rfl
  have htable : empty.insertTrees none document.forest =
      (empty.insert (.element head)).insertTrees (some 0) children := by
    rw [hforest]
    rfl
  refine ⟨?_, ?_⟩
  · rw [root_ofDocument, htable]
    exact firstTopElement?_of_getElem? hentry
  rw [ofDocument, htable]
  refine treeTo_of_holds (.element head children) ⟨none, numbers, hentry, ?_⟩ (by simp)
  -- The root of a table has no part in what it holds.
  refine HoldsAll.mono ?_ children (Nat.le_refl 0) hholds
  exact fun _ _ _ h => h

end DesignCompiler.Markup.Dom
