import DesignCompiler.Proofs.Synthesis.Composition
import DesignCompiler.Proofs.Synthesis.Extent
import Mathlib.Data.List.Perm.Basic

/-!
# The arrangement of children

The children in the flow become a row or a column in document order, the placed ones are stacked
over it by their levels. Layout only adds boxes around its children: what they hold occurs in the
body as often as in them.
-/

namespace DesignCompiler.Synthesis

open Dart Style

/-! ## Stacking order -/

/-- The parts by their levels, lower ones first and equal ones as they were. -/
structure StackingOrder (kids order : List Part) : Prop where
  perm : order.Perm kids
  ascending : order.Pairwise fun kid other => kid.zIndex ≤ other.zIndex
  ties : ∀ level, order.filter (·.zIndex = level) = kids.filter (·.zIndex = level)

theorem stackingOrder_mergeSort (kids : List Part) :
    StackingOrder kids (kids.mergeSort fun a b => a.zIndex ≤ b.zIndex) := by
  have htrans : ∀ a b c : Part, decide (a.zIndex ≤ b.zIndex) = true →
      decide (b.zIndex ≤ c.zIndex) = true → decide (a.zIndex ≤ c.zIndex) = true := by
    intro a b c hab hbc
    rw [decide_eq_true_iff] at *
    exact Int.le_trans hab hbc
  have htotal :
      ∀ a b : Part, (decide (a.zIndex ≤ b.zIndex) || decide (b.zIndex ≤ a.zIndex)) = true := by
    intro a b
    rw [Bool.or_eq_true, decide_eq_true_iff, decide_eq_true_iff]
    exact Int.le_total _ _
  have hperm := List.mergeSort_perm kids fun a b => decide (a.zIndex ≤ b.zIndex)
  refine ⟨hperm, ?_, fun level => ?_⟩
  · exact (List.pairwise_mergeSort htrans htotal kids).imp fun h => decide_eq_true_iff.mp h
  · -- Parts of one level are in order already, so sorting leaves them as they are.
    have hlevel : (kids.filter (·.zIndex = level)).Pairwise fun a b =>
        decide (a.zIndex ≤ b.zIndex) = true := by
      rw [List.pairwise_iff_forall_sublist]
      intro a b hsub
      have ha := (List.mem_filter.mp (hsub.subset (by simp : a ∈ [a, b]))).2
      have hb := (List.mem_filter.mp (hsub.subset (by simp : b ∈ [a, b]))).2
      rw [decide_eq_true_iff] at *
      omega
    have hsub := (List.sublist_mergeSort htrans htotal hlevel List.filter_sublist).filter
      (·.zIndex = level)
    rw [List.filter_filter] at hsub
    simp only [Bool.and_self] at hsub
    exact (hsub.eq_of_length (hperm.filter _).length_eq.symm).symm

/-! ## The flow -/

/-- The only part in the flow is an input field, which has a height of its own. -/
def IsLoneInput (flow : List Part) : Prop :=
  ∃ only, flow = [only] ∧
    ∃ callee ∈ inputWidgets, ∃ args named, only.widget = .call callee args named

/-- The main axis of an element has a determinate extent: that of the root always has, that of a row
where the width is known or stretches, and that of a column where the height is known and counts. -/
inductive IsDeterminate (subject : Subject) (flow : List Part) : Prop where
  | root {config : FlexConfig} : subject.style.flex = some config → subject.isRoot = true →
      IsDeterminate subject flow
  | width {config : FlexConfig} : subject.style.flex = some config → config.axis = .row →
      subject.style.size.width ≠ none → IsDeterminate subject flow
  | stretched {config : FlexConfig} : subject.style.flex = some config → config.axis = .row →
      subject.style.stretches = true → IsDeterminate subject flow
  | height {config : FlexConfig} : subject.style.flex = some config → config.axis = .column →
      subject.style.size.height ≠ none → ¬ IsLoneInput flow → IsDeterminate subject flow

/-- A part as it stands in a row or a column: expanded exactly where the main axis is determinate
and it has a share of the free space, which is a whole number and at least one. -/
inductive FlowChild (determinate : Prop) (kid : Part) : Expr → Prop where
  | bare : ¬ (determinate ∧ 0.0 < kid.flexGrow) → FlowChild determinate kid kid.widget
  | expanded {share : Float} :
      determinate → 0.0 < kid.flexGrow → (1.0 < kid.flexGrow.round → share = kid.flexGrow.round) →
      (¬ 1.0 < kid.flexGrow.round → share = 1.0) →
      FlowChild determinate kid
        (.named "Expanded" [("flex", .num share), Expr.child kid.widget])

/-- Widgets with a gap between each two neighbours, if there is one. -/
inductive Spaced (gap : Option Expr) : List Expr → List Expr → Prop where
  | nil : Spaced gap [] []
  | single (widget : Expr) : Spaced gap [widget] [widget]
  | apart {first second box : Expr} {widgets spaced : List Expr} :
      gap = some box → Spaced gap (second :: widgets) spaced →
      Spaced gap (first :: second :: widgets) (first :: box :: spaced)
  | together {first second : Expr} {widgets spaced : List Expr} :
      gap = none → Spaced gap (second :: widgets) spaced →
      Spaced gap (first :: second :: widgets) (first :: spaced)

/-- A row or a column around children: that of a flex layout, else a column. -/
inductive FlowBox (children : List Expr) : Option FlexConfig → Expr → Prop where
  | column :
      FlowBox children none (.named "Column" [
        ("crossAxisAlignment", .ident CrossAlign.start.path), Expr.children children])
  | flexRow {config : FlexConfig} :
      config.axis = .row →
      FlowBox children (some config) (.named "Row" [
        ("mainAxisAlignment", .ident config.main.path),
        ("crossAxisAlignment", .ident config.cross.path), Expr.children children])
  | flexColumn {config : FlexConfig} :
      config.axis = .column →
      FlowBox children (some config) (.named "Column" [
        ("crossAxisAlignment", .ident config.cross.path),
        ("mainAxisAlignment", .ident config.main.path), Expr.children children])

/-- The empty box that a flex layout puts between its children, as wide or as high as the gap. -/
def gapOf (flex : Option FlexConfig) : Option Expr :=
  flex.bind fun config => config.gap.map fun gap =>
    match config.axis with
    | .row => .named "SizedBox" [("width", .num gap)]
    | .column => .named "SizedBox" [("height", .num gap)]

/-- The body of parts in the flow: there is none without parts, a lone part that has nothing to be
arranged with is the body itself, and other parts stand in a row or a column. -/
inductive FlowArrangement (flex : Option FlexConfig) (determinate hasPlaced : Prop) :
    List Part → Option Expr → Prop where
  | nothing : FlowArrangement flex determinate hasPlaced [] none
  | lone (kid : Part) : flex = none → ¬ hasPlaced →
      FlowArrangement flex determinate hasPlaced [kid] (some kid.widget)
  | box {kids : List Part} {widgets children : List Expr} {body : Expr} :
      kids ≠ [] → (flex ≠ none ∨ hasPlaced ∨ kids.length ≠ 1) →
      List.Forall₂ (FlowChild determinate) kids widgets → Spaced (gapOf flex) widgets children →
      FlowBox children flex body →
      FlowArrangement flex determinate hasPlaced kids (some body)

theorem flowChild_flexChild (determinate : Bool) (kid : Part) :
    FlowChild (determinate = true) kid (flexChild determinate kid) := by
  unfold flexChild
  split
  · rename_i h
    rw [Bool.and_eq_true, decide_eq_true_iff] at h
    exact .expanded h.1 h.2 (fun hshare => if_pos hshare) fun hshare => if_neg hshare
  · rename_i h
    rw [Bool.and_eq_true, decide_eq_true_iff] at h
    exact .bare h

theorem spaced_self (widgets : List Expr) : Spaced none widgets widgets := by
  induction widgets with
  | nil => exact .nil
  | cons first widgets ih =>
    cases widgets with
    | nil => exact .single first
    | cons second widgets => exact .together rfl ih

theorem spaced_intersperse (box : Expr) (widgets : List Expr) :
    Spaced (some box) widgets (widgets.intersperse box) := by
  induction widgets with
  | nil => exact .nil
  | cons first widgets ih =>
    cases widgets with
    | nil => exact .single first
    | cons second widgets => exact .apart rfl ih

theorem spaced_withGaps (config : FlexConfig) (widgets : List Expr) :
    Spaced (gapOf (some config)) widgets (withGaps config widgets) := by
  unfold withGaps gapOf
  rw [Option.bind_some]
  cases config.gap with
  | none => exact spaced_self widgets
  | some gap =>
    have hbox : gapBox config.axis gap = match config.axis with
        | .row => .named "SizedBox" [("width", .num gap)]
        | .column => .named "SizedBox" [("height", .num gap)] := by
      cases config.axis <;> rfl
    rw [Option.map_some, ← hbox]
    exact spaced_intersperse _ widgets

theorem flowBox_flexBox (config : FlexConfig) (kids : List Part) (determinate : Bool) :
    FlowBox (withGaps config (kids.map (flexChild determinate))) (some config)
      (flexBox config kids determinate) := by
  unfold flexBox
  cases haxis : config.axis with
  | row => exact .flexRow haxis
  | column => exact .flexColumn haxis

/-- Without a flex layout no main axis is determinate. -/
theorem flowArrangement_composeFlow {flex : Option FlexConfig} {determinate : Bool}
    (hflex : flex = none → determinate = false) (kids : List Part) (hasPlaced : Bool) :
    FlowArrangement flex (determinate = true) (hasPlaced = true) kids
      (composeFlow flex kids hasPlaced determinate) := by
  have hchildren : List.Forall₂ (FlowChild (determinate = true)) kids
      (kids.map (flexChild determinate)) := by
    rw [List.forall₂_map_right_iff]
    exact List.forall₂_same.mpr fun kid _ => flowChild_flexChild determinate kid
  rw [composeFlow.eq_def]
  split
  · exact .nothing
  · rename_i config hkids
    exact .box (by simpa using hkids) (.inl (Option.some_ne_none config)) hchildren
      (spaced_withGaps config _) (flowBox_flexBox config kids determinate)
  · rename_i hkids
    split
    · exact .lone _ rfl Bool.false_ne_true
    · rename_i hlone
      rw [hflex rfl] at hchildren ⊢
      have hwidgets : kids.map (flexChild false) = kids.map Part.widget :=
        List.map_congr_left fun kid _ => by simp [flexChild]
      rw [hwidgets] at hchildren
      refine .box (by simpa using hkids) (.inr ?_) hchildren (spaced_self _) .column
      by_contra hnot
      rw [not_or, not_ne_iff, List.length_eq_one_iff, Bool.not_eq_true] at hnot
      obtain ⟨habsolute, only, honly⟩ := hnot
      exact hlone only honly habsolute

theorem inputOwned_iff {flow : List Part} : inputOwned none flow = true ↔ IsLoneInput flow := by
  constructor
  · intro howned
    unfold inputOwned at howned
    split at howned
    · rename_i heq
      cases heq
    · exact ⟨_, rfl, ownsInputBackground_iff.mp howned⟩
    · cases howned
  · rintro ⟨only, rfl, hinput⟩
    exact ownsInputBackground_iff.mpr hinput

/-- The height of an input field is left out before the main axis is looked at. -/
theorem mainAxisDeterminate_iff {subject : Subject} {flow : List Part} {size : Size}
    (hsize : size = if inputOwned none flow then subject.style.size.withoutHeight
      else subject.style.size) :
    (subject.style.flex.any fun config =>
        mainAxisDeterminate config.axis size subject.style.stretches subject.isRoot) = true ↔
      IsDeterminate subject flow := by
  have hwidth : size.width = subject.style.size.width := by
    rw [hsize]
    split <;> rfl
  have hheight : size.height ≠ none ↔ subject.style.size.height ≠ none ∧ ¬ IsLoneInput flow := by
    rw [hsize, ← inputOwned_iff]
    split
    · rename_i howned
      simp [howned, Size.withoutHeight]
    · rename_i howned
      simp [howned]
  simp only [Option.any_eq_true, mainAxisDeterminate, Bool.or_eq_true]
  constructor
  · rintro ⟨config, hconfig, hroot | haxis⟩
    · exact .root hconfig hroot
    · cases hcase : config.axis with
      | row =>
        simp only [hcase, Bool.or_eq_true, Option.isSome_iff_ne_none, hwidth] at haxis
        exact haxis.elim (.width hconfig hcase) (.stretched hconfig hcase)
      | column =>
        simp only [hcase, Option.isSome_iff_ne_none, hheight] at haxis
        exact .height hconfig hcase haxis.1 haxis.2
  · rintro (⟨hconfig, hroot⟩ | ⟨hconfig, haxis, hknown⟩ | ⟨hconfig, haxis, hstretches⟩ |
      ⟨hconfig, haxis, hknown, hinput⟩)
    · exact ⟨_, hconfig, .inl hroot⟩
    · exact ⟨_, hconfig, .inr (by simp [haxis, hwidth, Option.isSome_iff_ne_none, hknown])⟩
    · exact ⟨_, hconfig, .inr (by simp [haxis, hstretches])⟩
    · refine ⟨_, hconfig, .inr ?_⟩
      simp only [haxis, Option.isSome_iff_ne_none]
      exact hheight.mpr ⟨hknown, hinput⟩

theorem flowArrangement_flowBody? {subject : Subject} {flow : List Part} {size : Size}
    (hsize : size = if inputOwned none flow then subject.style.size.withoutHeight
      else subject.style.size) (order : List Part) :
    FlowArrangement subject.style.flex (IsDeterminate subject flow) (order ≠ []) flow
      (flowBody? subject none flow (!order.isEmpty) size) := by
  have hplaced : (!order.isEmpty) = true ↔ order ≠ [] := by simp
  rw [← mainAxisDeterminate_iff hsize, ← hplaced]
  exact flowArrangement_composeFlow (fun hnone => by rw [hnone]; rfl) flow _

/-! ## The stack -/

/-- The arguments of those names that have a value. -/
def given (arguments : List (String × Option Expr)) : List Argument :=
  arguments.filterMap fun (name, value) => value.map fun value => (name, value)

/-- The arguments for the offsets that a part declares. -/
def declaredOffsets (kid : Part) : List Argument :=
  match kid.placement with
  | none => []
  | some edges => given [("top", edges.top.map .num), ("left", edges.left.map .num),
      ("right", edges.right.map .num), ("bottom", edges.bottom.map .num)]

/-- A placed part as it stands in a stack: with exactly its declared offsets, bare without any. -/
inductive StackChild (kid : Part) : Expr → Prop where
  | bare : declaredOffsets kid = [] → StackChild kid kid.widget
  | positioned :
      declaredOffsets kid ≠ [] →
      StackChild kid (.named "Positioned" (declaredOffsets kid ++ [Expr.child kid.widget]))

theorem StackChild.eq_positioned {kid : Part} {e : Expr} (hchild : StackChild kid e)
    (hoffsets : declaredOffsets kid ≠ []) :
    e = .named "Positioned" (declaredOffsets kid ++ [Expr.child kid.widget]) := by
  cases hchild with
  | bare hnone => exact absurd hnone hoffsets
  | positioned => rfl

/-- The arguments for the known dimensions of an empty box. -/
def knownDimensions (size : Size) : List Argument :=
  given [("width", size.width.map fun width => .extent (.fixed width)),
    ("height", size.height.map .num)]

/-- The layers of a stack of placed parts: the base and the parts over it. The base is the flow,
else the first part that can be one, else an empty box of the size that the parts span, as far as
that is known. -/
inductive StackArrangement (thresholds : Thresholds) (isRoot : Bool) :
    Option Expr → List Part → List Expr → Prop where
  | overFlow {flow : Expr} {kids : List Part} {layers : List Expr} :
      List.Forall₂ StackChild kids layers →
      StackArrangement thresholds isRoot (some flow) kids (flow :: layers)
  | overPart {before after : List Part} {base : Part} {layers : List Expr} :
      (∀ kid ∈ before, ¬ IsStackBase thresholds kid) → IsStackBase thresholds base →
      List.Forall₂ StackChild (before ++ after) layers →
      StackArrangement thresholds isRoot none (before ++ base :: after) (base.widget :: layers)
  | overExtent {kids : List Part} {size : Size} {layers : List Expr} :
      (∀ kid ∈ kids, ¬ IsStackBase thresholds kid) → Spans thresholds isRoot kids size →
      knownDimensions size ≠ [] → List.Forall₂ StackChild kids layers →
      StackArrangement thresholds isRoot none kids
        (.named "SizedBox" (knownDimensions size) :: layers)
  | overNothing {kids : List Part} {size : Size} {layers : List Expr} :
      (∀ kid ∈ kids, ¬ IsStackBase thresholds kid) → Spans thresholds isRoot kids size →
      knownDimensions size = [] → List.Forall₂ StackChild kids layers →
      StackArrangement thresholds isRoot none kids layers

theorem stackChild_positioned (kid : Part) :
    StackChild kid (positioned (edgesOf kid) kid.widget) := by
  have hdeclared : positioned (edgesOf kid) kid.widget = if declaredOffsets kid = [] then kid.widget
      else .named "Positioned" (declaredOffsets kid ++ [Expr.child kid.widget]) := by
    unfold positioned edgesOf declaredOffsets Edges.isEmpty
    rcases kid.placement with _ | ⟨_ | top, _ | right, _ | bottom, _ | left⟩ <;> rfl
  rw [hdeclared]
  split
  · rename_i h
    exact .bare h
  · rename_i h
    exact .positioned h

/-- A placed part that holds no vector icon or is too large to be one is not reduced. -/
def KeepsWidget (thresholds : Thresholds) (kid : Part) : Prop :=
  kid.size.FitsInto thresholds.iconMaxExtent → ¬ Calls kid.widget "SvgPicture.asset"

theorem stackChild_layer {thresholds : Thresholds} {kid : Part}
    (hkid : KeepsWidget thresholds kid) : StackChild kid (layer thresholds kid) := by
  unfold layer
  dsimp only
  split
  · rename_i hsize
    have hnone : vectorIcon? kid.widget = none := by
      have huses := hkid (Thresholds.isIconSized_iff.mp hsize)
      rw [← usesCallee_iff, Expr.usesCallee, List.any_eq_true, ← List.find?_isSome,
        Option.not_isSome_iff_eq_none] at huses
      exact huses
    rw [simplifyIcon?, hnone]
    exact stackChild_positioned kid
  · exact stackChild_positioned kid

theorem forall₂_layer {thresholds : Thresholds} {kids : List Part}
    (hkids : ∀ kid ∈ kids, KeepsWidget thresholds kid) :
    List.Forall₂ StackChild kids (kids.map (layer thresholds)) := by
  rw [List.forall₂_map_right_iff]
  exact List.forall₂_same.mpr fun kid hkid => stackChild_layer (hkids kid hkid)

/-- The empty box has the size that the parts span, unless nothing of it is known. -/
theorem exists_extentBox? (kids : List Part) (isRoot : Bool) (thresholds : Thresholds) :
    ∃ size, Spans thresholds isRoot kids size ∧ extentBox? kids isRoot thresholds =
      if knownDimensions size = [] then none
      else some (.named "SizedBox" (knownDimensions size)) := by
  refine ⟨_, spans_normalize thresholds isRoot kids, ?_⟩
  unfold extentBox?
  dsimp only
  generalize (if isRoot then _ else _ : Size) = size
  obtain ⟨_ | width, _ | height⟩ := size <;> rfl

example :
    let kids : List Part := [
      ⟨.call "A" [] [], some ⟨none, none, none, some 10.0⟩, 0, 0.0, ⟨some 200.0, some 300.0⟩⟩,
      ⟨.call "B" [] [], some ⟨none, none, none, some 50.0⟩, 1, 0.0, ⟨some 5.0, none⟩⟩]
    extentBox? kids true {} = some (.named "SizedBox" [("width", .extent (.fixed 210.0))]) ∧
      extentBox? kids false {} =
        some (.named "SizedBox" [("width", .extent (.fixed 210.0)), ("height", .num 300.0)]) :=
  ⟨rfl, rfl⟩

theorem stackArrangement_stackLayers {thresholds : Thresholds} {kids : List Part}
    (hkids : ∀ kid ∈ kids, KeepsWidget thresholds kid) (flowBody : Option Expr) (isRoot : Bool) :
    StackArrangement thresholds isRoot flowBody kids
      (stackLayers flowBody kids isRoot thresholds) := by
  unfold stackLayers
  cases flowBody with
  | some flow => exact .overFlow (forall₂_layer hkids)
  | none =>
    dsimp only
    split
    · rename_i index hindex
      obtain ⟨hlt, hbase, hbefore⟩ := List.findIdx?_eq_some_iff_getElem.mp hindex
      have hsplit : kids = kids.take index ++ kids[index] :: kids.drop (index + 1) := by
        rw [← List.drop_eq_getElem_cons hlt, List.take_append_drop]
      rw [List.getElem?_eq_getElem hlt, List.eraseIdx_eq_take_drop_succ]
      rw [hsplit, List.forall_mem_append, List.forall_mem_cons] at hkids
      conv => arg 4; rw [hsplit]
      refine .overPart ?_ (isBase_iff.mp hbase)
        (forall₂_layer (List.forall_mem_append.mpr ⟨hkids.1, hkids.2.2⟩))
      intro kid hkid
      obtain ⟨place, hplace, rfl⟩ := List.getElem_of_mem hkid
      rw [List.length_take] at hplace
      rw [List.getElem_take, ← isBase_iff]
      exact hbefore place (by omega)
    · rename_i hnone
      have hbase : ∀ kid ∈ kids, ¬ IsStackBase thresholds kid := by
        simpa [← isBase_iff] using hnone
      obtain ⟨size, hspans, hextent⟩ := exists_extentBox? kids isRoot thresholds
      rw [hextent]
      split
      · rename_i hunknown
        exact .overNothing hbase hspans hunknown (forall₂_layer hkids)
      · rename_i hknown
        exact .overExtent hbase hspans hknown (forall₂_layer hkids)

/-! ## What children hold -/

/-- The widgets that layout adds around children. -/
def layoutWidgets : List String := [
  "Row", "Column", "Stack", "Expanded", "Positioned", "SizedBox", "SizedBox.shrink"]

/-- A property of what children hold, which nothing has that layout adds. -/
structure IsContent (p : Expr → Bool) : Prop where
  call : ∀ callee ∈ layoutWidgets, ∀ args named, p (.call callee args named) = false
  list : ∀ items, p (.list items) = false
  num : ∀ value, p (.num value) = false
  extent : ∀ width, p (.extent width) = false
  mainAlign : ∀ align : MainAlign, p (.ident align.path) = false
  crossAlign : ∀ align : CrossAlign, p (.ident align.path) = false
  clip : p (.ident "Clip.none") = false

/-- How often an expression holds something with a property. -/
def held (p : Expr → Bool) (e : Expr) : Nat := e.subterms.countP p

/-- How often expressions do together. -/
def heldByAll (p : Expr → Bool) : List Expr → Nat
  | [] => 0
  | e :: items => held p e + heldByAll p items

section

variable {p : Expr → Bool}

@[simp]
theorem heldByAll_nil : heldByAll p [] = 0 := rfl

@[simp]
theorem heldByAll_cons (e : Expr) (items : List Expr) :
    heldByAll p (e :: items) = held p e + heldByAll p items := rfl

@[simp]
theorem heldByAll_append (front back : List Expr) :
    heldByAll p (front ++ back) = heldByAll p front + heldByAll p back := by
  induction front with
  | nil => simp
  | cons e front ih => rw [List.cons_append, heldByAll_cons, heldByAll_cons, ih, Nat.add_assoc]

theorem heldByAll_of_perm {items others : List Expr} (hperm : items.Perm others) :
    heldByAll p items = heldByAll p others := by
  induction hperm with
  | nil => rfl
  | cons e _ ih => rw [heldByAll_cons, heldByAll_cons, ih]
  | swap e f items =>
    rw [heldByAll_cons, heldByAll_cons, heldByAll_cons, heldByAll_cons, Nat.add_left_comm]
  | trans _ _ hfirst hsecond => exact hfirst.trans hsecond

theorem countP_subtermsOfList (items : List Expr) :
    (Expr.subtermsOfList items).countP p = heldByAll p items := by
  induction items with
  | nil => rfl
  | cons e items ih => rw [Expr.subtermsOfList, List.countP_append, ih, heldByAll_cons, held]

theorem countP_subtermsOfNamed (arguments : List Argument) :
    (Expr.subtermsOfNamed arguments).countP p = heldByAll p (arguments.map Prod.snd) := by
  induction arguments with
  | nil => rfl
  | cons argument arguments ih =>
    rw [Expr.subtermsOfNamed, List.countP_append, ih, List.map_cons, heldByAll_cons, held]

namespace IsContent

variable (hp : IsContent p)

include hp

/-- A widget of the layout holds what its arguments hold. -/
theorem held_named {callee : String} (hcallee : callee ∈ layoutWidgets)
    (arguments : List Argument) :
    held p (.named callee arguments) = heldByAll p (arguments.map Prod.snd) := by
  rw [held, Expr.named, Expr.subterms, List.countP_cons_of_neg (by rw [hp.call _ hcallee]; simp),
    List.countP_append, countP_subtermsOfList, countP_subtermsOfNamed, heldByAll_nil, Nat.zero_add]

theorem held_children (items : List Expr) : held p (Expr.children items).2 = heldByAll p items := by
  rw [held, Expr.children, Expr.subterms, List.countP_cons_of_neg (by rw [hp.list]; simp),
    countP_subtermsOfList]

theorem held_num (value : Float) : held p (.num value) = 0 := by
  simp [held, Expr.subterms, hp.num]

theorem held_mainAlign (align : MainAlign) : held p (.ident align.path) = 0 := by
  simp [held, Expr.subterms, hp.mainAlign]

theorem held_crossAlign (align : CrossAlign) : held p (.ident align.path) = 0 := by
  simp [held, Expr.subterms, hp.crossAlign]

omit hp in
theorem held_given {arguments : List (String × Option Expr)}
    (harguments : ∀ argument ∈ arguments, ∀ e ∈ argument.2, held p e = 0) :
    heldByAll p ((given arguments).map Prod.snd) = 0 := by
  induction arguments with
  | nil => rfl
  | cons argument arguments ih =>
    rw [List.forall_mem_cons] at harguments
    obtain ⟨name, _ | value⟩ := argument
    · exact ih harguments.2
    · have hcons : given ((name, some value) :: arguments) = (name, value) :: given arguments := rfl
      rw [hcons, List.map_cons, heldByAll_cons, harguments.1 value rfl, ih harguments.2]

theorem held_declaredOffsets (kid : Part) :
    heldByAll p ((declaredOffsets kid).map Prod.snd) = 0 := by
  unfold declaredOffsets
  split
  · rfl
  · exact held_given (by simp [hp.held_num])

theorem held_knownDimensions (size : Size) :
    heldByAll p ((knownDimensions size).map Prod.snd) = 0 := by
  have hextent : ∀ width, held p (.extent width) = 0 := by
    simp [held, Expr.subterms, hp.extent]
  exact held_given (by simp [hp.held_num, hextent])

theorem held_flowChild {determinate : Prop} {kid : Part} {e : Expr}
    (hchild : FlowChild determinate kid e) : held p e = held p kid.widget := by
  cases hchild with
  | bare => rfl
  | expanded =>
    rw [hp.held_named (by decide)]
    simp [Expr.child, hp.held_num]

omit hp in
theorem held_spaced {gap : Option Expr} (hgap : ∀ box, gap = some box → held p box = 0)
    {widgets children : List Expr} (hspaced : Spaced gap widgets children) :
    heldByAll p children = heldByAll p widgets := by
  induction hspaced with
  | nil => rfl
  | single => rfl
  | apart hbox _ ih =>
    rw [heldByAll_cons, heldByAll_cons, hgap _ hbox, ih, Nat.zero_add, ← heldByAll_cons]
  | together _ _ ih => rw [heldByAll_cons, ih, ← heldByAll_cons]

theorem held_gapOf {flex : Option FlexConfig} {box : Expr} (hgap : gapOf flex = some box) :
    held p box = 0 := by
  obtain ⟨config, -, hbox⟩ := Option.bind_eq_some_iff.mp hgap
  obtain ⟨gap, -, rfl⟩ := Option.map_eq_some_iff.mp hbox
  split <;> (rw [hp.held_named (by decide)]; simp [hp.held_num])

theorem held_flowBox {children : List Expr} {flex : Option FlexConfig} {body : Expr}
    (hbox : FlowBox children flex body) : held p body = heldByAll p children := by
  cases hbox with
  | column =>
    rw [hp.held_named (by decide)]
    simp [hp.held_children, hp.held_crossAlign]
  | flexRow =>
    rw [hp.held_named (by decide)]
    simp [hp.held_children, hp.held_crossAlign, hp.held_mainAlign]
  | flexColumn =>
    rw [hp.held_named (by decide)]
    simp [hp.held_children, hp.held_crossAlign, hp.held_mainAlign]

omit hp in
theorem heldByAll_of_forall₂ {R : Part → Expr → Prop}
    (hR : ∀ kid e, R kid e → held p e = held p kid.widget) {kids : List Part} {widgets : List Expr}
    (hall : List.Forall₂ R kids widgets) :
    heldByAll p widgets = heldByAll p (kids.map Part.widget) := by
  induction hall with
  | nil => rfl
  | cons hkid _ ih => rw [heldByAll_cons, ih, List.map_cons, heldByAll_cons, hR _ _ hkid]

theorem held_flowArrangement {flex : Option FlexConfig} {determinate hasPlaced : Prop}
    {kids : List Part} {body : Option Expr}
    (harrangement : FlowArrangement flex determinate hasPlaced kids body) :
    heldByAll p body.toList = heldByAll p (kids.map Part.widget) := by
  cases harrangement with
  | nothing => rfl
  | lone => rfl
  | box _ _ hchildren hspaced hbox =>
    rw [Option.toList_some, heldByAll_cons, heldByAll_nil, Nat.add_zero, hp.held_flowBox hbox,
      held_spaced (fun _ => hp.held_gapOf) hspaced,
      heldByAll_of_forall₂ (fun _ _ => hp.held_flowChild) hchildren]

theorem held_stackChild {kid : Part} {e : Expr} (hchild : StackChild kid e) :
    held p e = held p kid.widget := by
  cases hchild with
  | bare => rfl
  | positioned =>
    rw [hp.held_named (by decide), List.map_append, heldByAll_append, hp.held_declaredOffsets]
    simp [Expr.child]

theorem held_stackArrangement {thresholds : Thresholds} {isRoot : Bool} {flow : Option Expr}
    {kids : List Part} {layers : List Expr}
    (harrangement : StackArrangement thresholds isRoot flow kids layers) :
    heldByAll p layers = heldByAll p flow.toList + heldByAll p (kids.map Part.widget) := by
  have hall : ∀ {kids layers}, List.Forall₂ StackChild kids layers →
      heldByAll p layers = heldByAll p (kids.map Part.widget) :=
    heldByAll_of_forall₂ fun _ _ => hp.held_stackChild
  cases harrangement with
  | overFlow hlayers => simp [hall hlayers]
  | overPart _ _ hlayers =>
    simp only [heldByAll_cons, hall hlayers, List.map_append, heldByAll_append, List.map_cons,
      Option.toList_none, heldByAll_nil]
    omega
  | overExtent _ _ _ hlayers =>
    rw [heldByAll_cons, hp.held_named (by decide), hp.held_knownDimensions, hall hlayers]
    rfl
  | overNothing _ _ _ hlayers => simp [hall hlayers]

theorem held_stack (layers : List Expr) :
    held p (.named "Stack" [("clipBehavior", .ident "Clip.none"), Expr.children layers]) =
      heldByAll p layers := by
  have hclip : held p (.ident "Clip.none") = 0 := by
    simp [held, Expr.subterms, hp.clip]
  rw [hp.held_named (by decide)]
  simp [hclip, hp.held_children]

theorem held_getD_placeholder (body : Option Expr) :
    held p (body.getD placeholder) = heldByAll p body.toList := by
  cases body with
  | none => exact hp.held_named (by decide) []
  | some body => simp

end IsContent

/-- In the flow or placed, each part holds what it holds. -/
theorem heldByAll_partition {kids order : List Part}
    (horder : order.Perm (kids.filter (·.placement.isSome))) :
    heldByAll p (kids.map Part.widget) =
      heldByAll p ((kids.filter (·.placement.isNone)).map Part.widget) +
        heldByAll p (order.map Part.widget) := by
  have hflow : kids.filter (·.placement.isNone) = kids.filter (!·.placement.isSome) := by
    simp only [Option.not_isSome]
  have hperm : (kids.filter (·.placement.isNone) ++ order).Perm kids := by
    rw [hflow]
    refine (List.perm_append_comm.trans ?_).trans
      (List.filter_append_perm (·.placement.isSome) kids)
    exact horder.append_right _
  rw [← heldByAll_append, ← List.map_append]
  exact (heldByAll_of_perm (hperm.map Part.widget)).symm

end

/-! ## Composition -/

/-- The body of an element with children: those without a placement arranged in document order, the
others in stacking order over them, and what they hold in it as often as in them. -/
structure Arranges (options : CompileOptions) (subject : Subject) (kids : List Part) (body : Expr) :
    Prop where
  arranged : ∃ flowBody order,
    FlowArrangement subject.style.flex
        (IsDeterminate subject (kids.filter (·.placement.isNone))) (order ≠ [])
        (kids.filter (·.placement.isNone)) flowBody ∧
      StackingOrder (kids.filter (·.placement.isSome)) order ∧
      (order = [] → body = flowBody.getD (.named "SizedBox.shrink" [])) ∧
      (order ≠ [] → ∃ layers,
        body = .named "Stack" [("clipBehavior", .ident "Clip.none"), Expr.children layers] ∧
          StackArrangement options.thresholds subject.isRoot flowBody order layers)
  held : ∀ p, IsContent p → held p body = heldByAll p (kids.map Part.widget)

/-- Stacked over the flow, or the flow alone where nothing is placed. -/
theorem arranges_stacked {options : CompileOptions} {subject : Subject} {kids order : List Part}
    {flowBody : Option Expr} (horder : StackingOrder (kids.filter (·.placement.isSome)) order)
    (hkids : ∀ kid ∈ order, KeepsWidget options.thresholds kid)
    (hflow : FlowArrangement subject.style.flex
      (IsDeterminate subject (kids.filter (·.placement.isNone))) (order ≠ [])
      (kids.filter (·.placement.isNone)) flowBody) :
    Arranges options subject kids
      (if order.isEmpty then flowBody.getD placeholder
        else composeStack flowBody order subject.isRoot options.thresholds) := by
  cases hempty : order.isEmpty with
  | true =>
    rw [List.isEmpty_iff] at hempty
    refine ⟨⟨flowBody, order, hflow, horder, fun _ => rfl, absurd hempty⟩, fun p hp => ?_⟩
    rw [if_pos rfl, hp.held_getD_placeholder, hp.held_flowArrangement hflow,
      heldByAll_partition horder.perm, hempty]
    rfl
  | false =>
    have hlayers := stackArrangement_stackLayers hkids flowBody subject.isRoot
    have hne : order ≠ [] := by
      rintro rfl
      cases hempty
    refine ⟨⟨flowBody, order, hflow, horder, fun h => absurd h hne, fun _ => ⟨_, rfl, hlayers⟩⟩,
      fun p hp => ?_⟩
    rw [if_neg (by simp), composeStack, hp.held_stack, hp.held_stackArrangement hlayers,
      hp.held_flowArrangement hflow, heldByAll_partition horder.perm]

/-- The widget of an element that is no control is its body in the boxes of the element, and the
body arranges the children, unless an icon among the placed ones is reduced. -/
theorem arranges_compose (options : CompileOptions) (subject : Subject) {kids : List Part}
    (hkids : ∀ kid ∈ kids, kid.placement ≠ none → KeepsWidget options.thresholds kid) :
    let part := compose options subject none kids
    ∃ body, part.widget = subject.style.rotate (subject.style.clip (finalizeBox options subject body
        part.size (inputOwned none (kids.filter (·.placement.isNone))))) ∧
      Nested body part.widget ∧ Arranges options subject kids body := by
  intro part
  have hflow : kids.filter (!·.isAbsolute) = kids.filter (·.placement.isNone) := by
    simp only [Part.isAbsolute, Option.not_isSome]
  have hplaced : kids.filter Part.isAbsolute = kids.filter (·.placement.isSome) := rfl
  have horder := stackingOrder_mergeSort (kids.filter (·.placement.isSome))
  rw [← hflow]
  refine ⟨_, rfl, nested_rotate (nested_clip (nested_finalizeBox .here)), ?_⟩
  rw [hflow, hplaced]
  refine arranges_stacked horder (fun kid hkid => ?_) ?_
  · obtain ⟨hmem, hsome⟩ := List.mem_filter.mp (horder.perm.mem_iff.mp hkid)
    exact hkids kid hmem (Option.isSome_iff_ne_none.mp hsome)
  · exact flowArrangement_flowBody? rfl _

/-- Whether an expression is a literal of a text. -/
def isText (text : String) : Expr → Bool
  | .str literal => literal == text
  | _ => false

theorem isContent_isText (text : String) : IsContent (isText text) :=
  ⟨fun _ _ _ _ => rfl, fun _ => rfl, fun _ => rfl, fun _ => rfl, fun _ => rfl, fun _ => rfl, rfl⟩

/-- An element without a style. -/
def plainSubject : Subject := ⟨⟨"div", .empty⟩, {}, false, false⟩

/-- The element adds no boxes to the body. -/
theorem eq_body_of_plainSubject {kids : List Part} {body : Expr} {size : Size} {inputOwned : Bool}
    (hwidget : (compose {} plainSubject none kids).widget = plainSubject.style.rotate
      (plainSubject.style.clip (finalizeBox {} plainSubject body size inputOwned)))
    (hsize : size.hasExtent = false) : body = (compose {} plainSubject none kids).widget := by
  rw [hwidget, finalizeBox, hsize]
  cases inputOwned <;> rfl

private def text (content : String) : Expr := .call "Text" [.str content] []

/-- A title in the flow and two notes over it, the first one on the higher level. -/
def noteKids : List Part := [
  .flow (text "title"),
  ⟨text "upper", some ⟨some 8.0, none, none, some 4.0⟩, 2, 0.0, .unknown⟩,
  ⟨text "lower", some ⟨none, some 0.0, none, none⟩, 1, 0.0, .unknown⟩]

/-- A card that fills the corner, and a badge on a lower level. -/
def cardKids : List Part := [
  ⟨text "card", some ⟨some 0.0, none, none, none⟩, 2, 0.0, ⟨some 300.0, none⟩⟩,
  ⟨text "badge", some ⟨none, none, some 6.0, some 4.0⟩, 1, 0.0, ⟨some 16.0, some 16.0⟩⟩]

theorem mergeSort_pair {upper lower : Part} (hlevels : lower.zIndex < upper.zIndex) :
    [upper, lower].mergeSort (fun a b => a.zIndex ≤ b.zIndex) = [lower, upper] := by
  simp [List.mergeSort, List.MergeSort.Internal.splitInTwo, hlevels]

/-- The notes are placed over the column of the title by their levels. The badge is placed over the
    card, which is the base although it is on the higher level. -/
theorem arranges_compose_notes :
    (∀ kid ∈ noteKids ++ cardKids, kid.placement ≠ none → KeepsWidget {} kid) ∧
      (∃ body, Arranges {} plainSubject noteKids body ∧ held (isText "upper") body = 1 ∧
        body = .named "Stack" [("clipBehavior", .ident "Clip.none"), Expr.children [
          .named "Column" [("crossAxisAlignment", .ident "CrossAxisAlignment.start"),
            Expr.children [text "title"]],
          .named "Positioned" [("right", .num 0.0), Expr.child (text "lower")],
          .named "Positioned" [("top", .num 8.0), ("left", .num 4.0),
            Expr.child (text "upper")]]]) ∧
      ∃ body, Arranges {} plainSubject cardKids body ∧
        body = .named "Stack" [("clipBehavior", .ident "Clip.none"), Expr.children [
          text "card",
          .named "Positioned" [("left", .num 4.0), ("bottom", .num 6.0),
            Expr.child (text "badge")]]] := by
  have hkids : ∀ kid ∈ noteKids ++ cardKids, kid.placement ≠ none → KeepsWidget {} kid := by
    have huses :
        ∀ kid ∈ noteKids ++ cardKids, kid.widget.usesCallee "SvgPicture.asset" = false := by
      decide
    intro kid hkid _ _ hcalls
    rw [← usesCallee_iff, huses kid hkid] at hcalls
    cases hcalls
  have hnoteOrder : (noteKids.filter Part.isAbsolute).mergeSort (fun a b => a.zIndex ≤ b.zIndex) =
      noteKids.tail.reverse := mergeSort_pair (by decide)
  have hcardOrder : (cardKids.filter Part.isAbsolute).mergeSort (fun a b => a.zIndex ≤ b.zIndex) =
      cardKids.reverse := mergeSort_pair (by decide)
  obtain ⟨notes, hnotes, -, hnoted⟩ := arranges_compose {} plainSubject fun kid hkid =>
    hkids kid (List.mem_append_left cardKids hkid)
  obtain ⟨cards, hcards, -, hcarded⟩ := arranges_compose {} plainSubject fun kid hkid =>
    hkids kid (List.mem_append_right noteKids hkid)
  refine ⟨hkids, ⟨notes, hnoted, ?_, ?_⟩, cards, hcarded, ?_⟩
  · rw [hnoted.held _ (isContent_isText "upper")]
    decide
  · rw [eq_body_of_plainSubject hnotes rfl, compose, hnoteOrder]
    rfl
  · rw [eq_body_of_plainSubject hcards rfl, compose, hcardOrder]
    rfl

end DesignCompiler.Synthesis
