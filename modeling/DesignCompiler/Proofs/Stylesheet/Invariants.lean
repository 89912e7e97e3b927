import DesignCompiler.Proofs.Stylesheet.Flattening
import DesignCompiler.Proofs.Stylesheet.Stack

/-!
# What holds in every state

Whatever the text, a run never loses the frame at the bottom of its stack, every frame has
selectors, and only declarations with proper names and trimmed values are kept. So each change finds
what it needs, and the rules that come out have something to say about something.
-/

namespace DesignCompiler.Stylesheet

open Text

/-! ## Names -/

/-- A character that a name begins with: a letter, an underscore or a hyphen. -/
def IsNameStart (c : Char) : Prop :=
  ('a' ≤ c ∧ c ≤ 'z') ∨ ('A' ≤ c ∧ c ≤ 'Z') ∨ c = '_' ∨ c = '-'

/-- A character that a name goes on with, digits included. -/
def IsNameChar (c : Char) : Prop := IsNameStart c ∨ ('0' ≤ c ∧ c ≤ '9')

/-- The name of a property. -/
def IsName (text : List Char) : Prop :=
  ∃ first rest, text = first :: rest ∧ IsNameStart first ∧ ∀ c ∈ rest, IsNameChar c

theorem isPropertyChar_iff {c : Char} : isPropertyChar c = true ↔ IsNameChar c := by
  simp only [isPropertyChar, isAsciiAlphanumeric, isAsciiLetter, isAsciiDigit, IsNameChar,
    IsNameStart, Bool.or_eq_true, Bool.and_eq_true, decide_eq_true_eq, beq_iff_eq]
  tauto

theorem isName_of_isPropertyName {text : List Char}
    (hname : Flattener.isPropertyName text = true) : IsName text := by
  rw [Flattener.isPropertyName, Bool.and_eq_true, List.all_eq_true] at hname
  cases text with
  | nil => exact absurd hname.1 Bool.false_ne_true
  | cons first rest =>
    refine ⟨first, rest, rfl, ?_, fun c hc => ?_⟩
    · have hfirst := hname.1
      simp only [List.head?_cons, Option.any_some, isAsciiLetter, Bool.or_eq_true,
        Bool.and_eq_true, decide_eq_true_eq, beq_iff_eq] at hfirst
      unfold IsNameStart
      tauto
    · exact isPropertyChar_iff.mp (hname.2 c (List.mem_cons_of_mem first hc))

/-! ## Declarations and rules -/

/-- A declaration whose property has a name and whose value has no blanks at its ends. -/
structure Declaration.IsProper (declaration : Declaration) : Prop where
  isName_property : IsName declaration.property.toList
  isTrimmed_value : IsTrimmed declaration.value.toList

/-- A rule that declares something for something. -/
structure FlatRule.IsProper (rule : FlatRule) : Prop where
  selector_ne : rule.selector ≠ ""
  declarations_ne : rule.declarations ≠ []
  isProper_declarations : ∀ declaration ∈ rule.declarations, declaration.IsProper

/-- A frame that applies to some selector, be it the empty one. -/
structure Block.IsProper (frame : Block) : Prop where
  selectors_ne : frame.selectors ≠ []
  isProper_declarations : ∀ declaration ∈ frame.declarations, declaration.IsProper

/-- A terminator taken off leaves the front of a value as it is. -/
theorem isTrimmed_dropTerminator {text : List Char} (htext : IsTrimmed text) :
    IsTrimmed (trimEnd (dropTerminator text)) := by
  apply isTrimmed_trimEnd
  rw [dropTerminator]
  cases hdrop : dropEnd? [';'] text with
  | none => exact htext.1
  | some front =>
    rw [eq_append_of_dropEnd? hdrop] at htext
    intro c hc
    have hfront : front.head? = some c := hc
    exact htext.1 c (by rw [List.head?_append, hfront]; rfl)

theorem isProper_ofText {property : List Char} (hname : IsName property) (value : List Char) :
    (Declaration.ofText property value).IsProper where
  isName_property := by rwa [Declaration.ofText, String.toList_ofList]
  isTrimmed_value := by
    rw [Declaration.ofText, String.toList_ofList]
    exact isTrimmed_dropTerminator (isTrimmed_trim value)

/-- A proper frame has proper rules only. -/
theorem Block.IsProper.rules {frame : Block} (hframe : frame.IsProper) :
    ∀ rule ∈ frame.rules, rule.IsProper := by
  intro rule hrule
  rw [Block.rules] at hrule
  split at hrule
  · cases hrule
  · rename_i hne
    obtain ⟨selector, hselector, rfl⟩ := List.mem_map.mp hrule
    exact ⟨of_decide_eq_true (List.mem_filter.mp hselector).2, mt List.isEmpty_iff.mpr hne,
      hframe.isProper_declarations⟩

theorem combineSelectors_ne_nil {parents : List String} (hparents : parents ≠ [])
    (current : String) : combineSelectors parents current ≠ [] := by
  rw [combineSelectors]
  split
  · exact hparents
  · rename_i hown
    obtain ⟨parent, others, rfl⟩ := List.exists_cons_of_ne_nil hparents
    obtain ⟨child, children, hchild⟩ := List.exists_cons_of_ne_nil (mt List.isEmpty_iff.mpr hown)
    rw [hchild]
    exact List.cons_ne_nil _ _

/-! ## States -/

/-- The height of a stack after a change. -/
def Change.heightAfter (height : Nat) : Change → Nat
  | .push _ => height + 1
  | .pop => height - 1
  | _ => height

namespace Stacked

/-- What holds of the state of a run. -/
structure WellFormed (state : Stacked) : Prop where
  exists_root : ∃ inner declarations, state.frames = inner ++ [⟨[""], declarations⟩]
  isProper_frames : ∀ frame ∈ state.frames, frame.IsProper
  isName_unfinished : ∀ u ∈ state.unfinished, IsName u.property
  isProper_rules : ∀ rule ∈ state.rules, rule.IsProper

theorem wellFormed_start : WellFormed {} where
  exists_root := ⟨[], [], rfl⟩
  isProper_frames := List.forall_mem_singleton.mpr
    ⟨List.cons_ne_nil _ _, fun _ h => absurd h List.not_mem_nil⟩
  isName_unfinished := fun _ h => absurd h (Option.not_mem_none _)
  isProper_rules := fun _ h => absurd h List.not_mem_nil

variable {state : Stacked}

/-- There always is a frame on top. -/
theorem WellFormed.exists_frames_eq (h : state.WellFormed) :
    ∃ frame outer, state.frames = frame :: outer := by
  obtain ⟨inner, declarations, hroot⟩ := h.exists_root
  cases inner with
  | nil => exact ⟨_, _, hroot⟩
  | cons frame inner => exact ⟨_, _, hroot⟩

theorem WellFormed.scope_ne_nil (h : state.WellFormed) : state.scope ≠ [] := by
  obtain ⟨frame, outer, hframes⟩ := h.exists_frames_eq
  rw [scope, hframes]
  exact (h.isProper_frames frame (hframes ▸ List.mem_cons_self)).selectors_ne

/-! ## Changes -/

/-- The changes that leave a state in order. -/
def Allows (state : Stacked) : Change → Prop
  | .mark _ => True
  | .keep unfinished => ∀ u ∈ unfinished, IsName u.property
  | .declare declaration => declaration.IsProper
  | .push selectors => selectors ≠ []
  | .emit => True
  | .pop => 1 < state.frames.length

/-- The frame on top gives way to another of the same selectors. -/
theorem WellFormed.replace_top (h : state.WellFormed) {frame : Block} {outer : List Block}
    (hframes : state.frames = frame :: outer) {declarations : List Declaration}
    (hproper : ∀ declaration ∈ declarations, declaration.IsProper) {rules : List FlatRule}
    (hrules : ∀ rule ∈ rules, rule.IsProper) :
    WellFormed { state with
      frames := { frame with declarations } :: outer, rules := state.rules ++ rules } where
  exists_root := by
    obtain ⟨inner, rest, hroot⟩ := h.exists_root
    rw [hframes] at hroot
    cases inner with
    | nil =>
      obtain ⟨rfl, rfl⟩ := List.cons.inj hroot
      exact ⟨[], declarations, rfl⟩
    | cons top inner =>
      obtain ⟨rfl, rfl⟩ := List.cons.inj hroot
      exact ⟨{ frame with declarations } :: inner, rest, rfl⟩
  isProper_frames := by
    have hall := h.isProper_frames
    rw [hframes, List.forall_mem_cons] at hall
    exact List.forall_mem_cons.mpr ⟨⟨hall.1.selectors_ne, hproper⟩, hall.2⟩
  isName_unfinished := h.isName_unfinished
  isProper_rules := List.forall_mem_append.mpr ⟨h.isProper_rules, hrules⟩

theorem WellFormed.pop (h : state.WellFormed) (hheight : 1 < state.frames.length) :
    WellFormed { state with frames := state.frames.tail } where
  exists_root := by
    obtain ⟨inner, declarations, hroot⟩ := h.exists_root
    cases inner with
    | nil => simp [hroot] at hheight
    | cons top inner => exact ⟨inner, declarations, by rw [hroot]; rfl⟩
  isProper_frames := fun frame hframe => h.isProper_frames frame (List.mem_of_mem_tail hframe)
  isName_unfinished := h.isName_unfinished
  isProper_rules := h.isProper_rules

/-- An allowed change can be made and leaves the state in order. -/
theorem WellFormed.change (h : state.WellFormed) {change : Change} (hallows : state.Allows change) :
    ∃ next, state.change? change = some next ∧ next.WellFormed := by
  obtain ⟨frame, outer, hframes⟩ := h.exists_frames_eq
  have hframe : frame.IsProper := h.isProper_frames frame (hframes ▸ List.mem_cons_self)
  cases change with
  | mark inComment =>
    exact ⟨_, rfl, h.exists_root, h.isProper_frames, h.isName_unfinished, h.isProper_rules⟩
  | keep unfinished =>
    exact ⟨_, rfl, h.exists_root, h.isProper_frames, hallows, h.isProper_rules⟩
  | declare declaration =>
    have hproper := List.forall_mem_append.mpr
      ⟨hframe.isProper_declarations, List.forall_mem_singleton.mpr hallows⟩
    have hnext := h.replace_top hframes hproper (fun _ h => absurd h List.not_mem_nil)
    rw [List.append_nil] at hnext
    exact ⟨_, by rw [change?, hframes], hnext⟩
  | push selectors =>
    obtain ⟨inner, declarations, hroot⟩ := h.exists_root
    refine ⟨_, rfl, ⟨⟨selectors, []⟩ :: inner, declarations, by rw [hroot]; rfl⟩, ?_,
      h.isName_unfinished, h.isProper_rules⟩
    exact List.forall_mem_cons.mpr
      ⟨⟨hallows, fun _ h => absurd h List.not_mem_nil⟩, h.isProper_frames⟩
  | emit =>
    exact ⟨_, by rw [change?, hframes],
      h.replace_top hframes (fun _ h => absurd h List.not_mem_nil) hframe.rules⟩
  | pop => exact ⟨_, rfl, h.pop hallows⟩

/-- The changes are allowed one after another. -/
def AllowsAll (state : Stacked) : List Change → Prop
  | [] => True
  | change :: changes => state.Allows change ∧ ∀ next ∈ state.change? change, next.AllowsAll changes

theorem allowsAll_taking {property : List Char} (hname : IsName property) (text : List Char) :
    state.AllowsAll (taking property text) := by
  rw [taking]
  split
  · exact ⟨isProper_ofText hname _, fun _ _ => trivial⟩
  · refine ⟨fun u hu => ?_, fun _ _ => trivial⟩
    obtain rfl := Option.mem_some.mp hu
    exact hname

theorem length_frames_of_change {change : Change} {next : Stacked}
    (hnext : next ∈ state.change? change) :
    next.frames.length = change.heightAfter state.frames.length := by
  cases change with
  | mark | keep | push | pop =>
    obtain rfl := Option.mem_some.mp hnext
    simp [Change.heightAfter]
  | declare | emit =>
    rw [change?] at hnext
    cases hframes : state.frames <;> rw [hframes] at hnext <;> cases hnext <;>
      simp [Change.heightAfter, hframes]

/-- Blocks are closed only as long as there are frames above the one at the bottom. -/
theorem allowsAll_emit_pop (hheight : 1 < state.frames.length) {changes : List Change}
    (hchanges : ∀ next : Stacked, next.frames.length = state.frames.length - 1 →
      next.AllowsAll changes) : state.AllowsAll (.emit :: .pop :: changes) := by
  refine ⟨trivial, fun emitted hemit => ⟨?_, fun popped hpop => hchanges popped ?_⟩⟩
  · rwa [Allows, length_frames_of_change hemit]
  · rw [length_frames_of_change hpop, length_frames_of_change hemit]
    rfl

theorem allowsAll_closing : state.AllowsAll (closing state.frames.length) := by
  have hnil : ∀ next : Stacked, next.AllowsAll [] := fun _ => trivial
  refine ⟨fun u hu => absurd hu (Option.not_mem_none u), fun kept hkept => ?_⟩
  obtain rfl := Option.mem_some.mp hkept
  split
  · exact hnil _
  · rename_i hheight
    refine allowsAll_emit_pop ?_ fun next _ => hnil next
    exact Nat.lt_of_not_le hheight

/-- Whatever a segment changes is allowed. -/
theorem WellFormed.allowsAll_changes (h : state.WellFormed) (segment : List Char) :
    state.AllowsAll (state.changes segment) := by
  rw [changes]
  split
  · rename_i property text hunfinished
    have hname : IsName property := h.isName_unfinished _ hunfinished
    refine ⟨fun u hu => absurd hu (Option.not_mem_none u), fun kept hkept => ?_⟩
    obtain rfl := Option.mem_some.mp hkept
    split
    · refine ⟨isProper_ofText hname text, fun declared hdeclared => ?_⟩
      rw [← show declared.frames.length = state.frames.length from
        length_frames_of_change hdeclared]
      exact allowsAll_closing
    · exact allowsAll_taking hname _
  · split
    · exact ⟨combineSelectors_ne_nil h.scope_ne_nil _, fun _ _ => trivial⟩
    · split
      · exact allowsAll_closing
      · split
        · trivial
        · split
          · rename_i hname
            exact allowsAll_taking (isName_of_isPropertyName hname) _
          · trivial

theorem allowsAll_finishing {count : Nat} (hcount : count < state.frames.length) :
    state.AllowsAll (List.replicate count [Change.emit, Change.pop]).flatten := by
  induction count generalizing state with
  | zero => trivial
  | succ count ih =>
    rw [List.replicate_succ, List.flatten_cons]
    exact allowsAll_emit_pop (by omega) fun next hnext => ih (by omega)

end Stacked

/-! ## Runs -/

namespace Run

/-- All states of a run are in order. -/
def Sound (run : Run) : Prop := ∀ state ∈ run.states, state.WellFormed

theorem sound_start : Sound {} := List.forall_mem_singleton.mpr Stacked.wellFormed_start

variable {run : Run}

theorem Sound.current (h : run.Sound) : run.current.WellFormed := h _ List.mem_cons_self

theorem Sound.change (h : run.Sound) {change : Change} (hallows : run.current.Allows change) :
    ∃ next, run.current.change? change = some next ∧
      run.change? change = some ⟨next, run.states⟩ ∧ Sound ⟨next, run.states⟩ := by
  obtain ⟨next, hchange, hnext⟩ := h.current.change hallows
  exact ⟨next, hchange, by rw [change?, hchange]; rfl, List.forall_mem_cons.mpr ⟨hnext, h⟩⟩

/-- Allowed changes can be made one after another. -/
theorem Sound.changeAll (h : run.Sound) {changes : List Change}
    (hallows : run.current.AllowsAll changes) :
    ∃ next, run.changeAll? changes = some next ∧ next.Sound := by
  induction changes generalizing run with
  | nil => exact ⟨run, rfl, h⟩
  | cons change changes ih =>
    obtain ⟨state, hstate, hchange, hsound⟩ := h.change hallows.1
    rw [changeAll?_cons hchange]
    exact ih hsound (hallows.2 state hstate)

/-- Steps that each can be made and keep a run sound can be made one after another. -/
theorem Sound.foldlM {α : Type} {step? : Run → α → Option Run}
    (hstep : ∀ {run : Run}, run.Sound → ∀ x, ∃ next, step? run x = some next ∧ next.Sound)
    (h : run.Sound) (xs : List α) : ∃ next, xs.foldlM step? run = some next ∧ next.Sound := by
  induction xs generalizing run with
  | nil => exact ⟨run, rfl, h⟩
  | cons x xs ih =>
    obtain ⟨middle, hmiddle, hsound⟩ := hstep h x
    rw [List.foldlM_cons, hmiddle]
    exact ih hsound

theorem Sound.feed (h : run.Sound) (segment : List Char) :
    ∃ next, run.feed? segment = some next ∧ next.Sound :=
  h.changeAll (h.current.allowsAll_changes segment)

theorem Sound.feedLine (h : run.Sound) (line : List Char) :
    ∃ next, run.feedLine? line = some next ∧ next.Sound :=
  h.foldlM (fun h => h.feed) _

theorem Sound.readLine (h : run.Sound) (line : List Char) :
    ∃ next, run.readLine? line = some next ∧ next.Sound := by
  have hallows : run.current.Allows (.mark (stripComments run.current.inComment line).2) := trivial
  obtain ⟨state, -, hmark, hsound⟩ := h.change hallows
  simp only [readLine?, hmark, Option.bind_some]
  exact hsound.foldlM (fun h => h.feedLine) _

theorem Sound.finish (h : run.Sound) : ∃ next, run.finish? = some next ∧ next.Sound := by
  obtain ⟨frame, outer, hframes⟩ := h.current.exists_frames_eq
  exact h.changeAll (Stacked.allowsAll_finishing (by simp [hframes]))

theorem exists_sound_read (source : String) :
    ∃ run, Run.read? source = some run ∧ run.Sound :=
  sound_start.foldlM (fun h => h.readLine) (sourceLines source)

end Run

/-- The run over any text reads it through, holds the machine then and reaches its end. In each of
    its states the stack has the frame of the empty selector at its bottom, each frame has
    selectors, each declaration and the unfinished one have a proper name; and each rule that comes
    out has a selector and declarations, all with trimmed values. -/
theorem wellFormed_of_mem_states (source : String) :
    ∃ read final, Run.read? source = some read ∧
      read.Holds (machineAfter source) (Run.openAfter false (sourceLines source)) ∧
      read.finish? = some final ∧ (∀ state ∈ final.states, state.WellFormed) ∧
      final.current.rules = flatten source ∧ ∀ rule ∈ flatten source, rule.IsProper := by
  obtain ⟨read, hread, hsound⟩ := Run.exists_sound_read source
  obtain ⟨same, hsame, hholds⟩ := exists_read source
  obtain rfl : read = same := Option.some.inj (hread.symm.trans hsame)
  obtain ⟨final, hfinal, hfinalSound⟩ := hsound.finish
  obtain ⟨same, hsame, hrules⟩ := hholds.finish
  obtain rfl : final = same := Option.some.inj (hfinal.symm.trans hsame)
  rw [← flatten_eq_finish_machineAfter] at hrules
  exact ⟨read, final, hread, hholds, hfinal, hfinalSound, hrules,
    hrules ▸ hfinalSound.current.isProper_rules⟩

end DesignCompiler.Stylesheet
