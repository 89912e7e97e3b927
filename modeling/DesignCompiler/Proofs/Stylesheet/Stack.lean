import DesignCompiler.Proofs.Stylesheet.Segmentation

/-!
# The stack of frames

The machine that flattening drives keeps the open blocks only. Told change by change, its run holds
more: under the frames of the open blocks lies one that no brace opens, where declarations outside
all blocks end up, and a block comment may be open. Both ways of telling it come to the same rules.
-/

namespace DesignCompiler.Stylesheet

open Text

/-! ## Changes -/

/-- The state of a run: a stack of frames, the innermost first, and at its bottom the frame outside
    all blocks, whose selector is empty. -/
structure Stacked where
  frames : List Block := [⟨[""], []⟩]
  inComment : Bool := false
  unfinished : Option Unfinished := none
  rules : List FlatRule := []

/-- What a run does to its state. -/
inductive Change where
  | mark (inComment : Bool)
  | keep (unfinished : Option Unfinished)
  | declare (declaration : Declaration)
  | push (selectors : List String)
  | emit
  | pop

namespace Stacked

/-- Make a change. A declaration needs a frame on top of the stack to go to and fails without. -/
def change? (state : Stacked) : Change → Option Stacked
  | .mark inComment => some { state with inComment }
  | .keep unfinished => some { state with unfinished }
  | .declare declaration =>
    match state.frames with
    | [] => none
    | frame :: outer =>
      some { state with
        frames := { frame with declarations := frame.declarations ++ [declaration] } :: outer }
  | .push selectors => some { state with frames := ⟨selectors, []⟩ :: state.frames }
  | .emit =>
    match state.frames with
    | [] => some state
    | frame :: outer =>
      some { state with
        frames := { frame with declarations := [] } :: outer
        rules := state.rules ++ frame.rules }
  | .pop => some { state with frames := state.frames.tail }

/-- The changes that close the innermost block on a stack of the given height. The frame at the
    bottom is never popped. -/
def closing (height : Nat) : List Change :=
  .keep none :: if height ≤ 1 then [] else [.emit, .pop]

/-- The change that takes in the value of a declaration, or the beginning of one. -/
def taking (property text : List Char) : List Change :=
  match terminated? text with
  | some complete => [.declare (Declaration.ofText property complete)]
  | none => [.keep (some ⟨property, text⟩)]

/-- The selectors of the frame on top. -/
def scope (state : Stacked) : List String :=
  match state.frames with
  | [] => [""]
  | frame :: _ => frame.selectors

/-- The changes that a segment makes. -/
def changes (state : Stacked) (segment : List Char) : List Change :=
  match state.unfinished with
  | some ⟨property, text⟩ =>
    .keep none ::
      if segment == ['}'] then
        .declare (Declaration.ofText property text) :: closing state.frames.length
      else taking property (trim (text ++ ' ' :: segment))
  | none =>
    match dropEnd? ['{'] segment with
    | some selector => [.push (combineSelectors state.scope (String.ofList (trim selector)))]
    | none =>
      if segment == ['}'] then closing state.frames.length
      else match cutAt? (· == ':') segment with
        | none => []
        | some (before, after) =>
          if Flattener.isPropertyName (trim before) then taking (trim before) (trim after) else []

/-- The changes that close all open blocks, the innermost first. -/
def finishing (state : Stacked) : List Change :=
  (List.replicate (state.frames.length - 1) [Change.emit, Change.pop]).flatten

end Stacked

/-! ## Runs -/

/-- A run: the state that it has come to, and those that it has passed, the latest first. -/
structure Run where
  current : Stacked := {}
  past : List Stacked := []

/-- The lines of a stylesheet. -/
def sourceLines (source : String) : List (List Char) :=
  splitOn (· == '\n') (unixLines source.toList)

namespace Run

/-- All states of a run. -/
def states (run : Run) : List Stacked := run.current :: run.past

/-- Go on by a change. -/
def change? (run : Run) (change : Change) : Option Run :=
  (run.current.change? change).map fun next => ⟨next, run.current :: run.past⟩

/-- Go on by changes, one after another. -/
def changeAll? (run : Run) (changes : List Change) : Option Run := changes.foldlM change? run

/-- Take in a segment. -/
def feed? (run : Run) (segment : List Char) : Option Run :=
  run.changeAll? (run.current.changes segment)

/-- Take in the segments of a line that is left without its comments. -/
def feedLine? (run : Run) (line : List Char) : Option Run :=
  (cleanSegments (segments line)).foldlM feed? run

/-- Take in a line. -/
def readLine? (run : Run) (line : List Char) : Option Run :=
  let (code, leavesOpen) := stripComments run.current.inComment line
  (run.change? (.mark leavesOpen)).bind fun run => code.toList.foldlM feedLine? run

/-- Take in a stylesheet. -/
def read? (source : String) : Option Run := (sourceLines source).foldlM readLine? {}

/-- Close the blocks that are open at the end. -/
def finish? (run : Run) : Option Run := run.changeAll? run.current.finishing

end Run

/-! ## The machine in the run -/

namespace Stacked

/-- The state of a run whose machine is in the given state. Of the declarations outside all blocks,
    here `stray`, the machine keeps none. -/
def ofMachine (machine : Flattener) (inComment : Bool) (stray : List Declaration) : Stacked where
  frames := machine.blocks ++ [⟨[""], stray⟩]
  inComment := inComment
  unfinished := machine.unfinished
  rules := machine.rules

variable (machine : Flattener) (inComment : Bool) (stray : List Declaration)

theorem exists_declare_ofMachine (declaration : Declaration) :
    ∃ stray', (ofMachine machine inComment stray).change? (.declare declaration) =
      some (ofMachine (machine.declare declaration) inComment stray') := by
  obtain ⟨blocks, unfinished, rules⟩ := machine
  cases blocks with
  | nil => exact ⟨stray ++ [declaration], rfl⟩
  | cons block outer => exact ⟨stray, rfl⟩

theorem scope_ofMachine : (ofMachine machine inComment stray).scope =
    match machine.blocks with
    | [] => [""]
    | block :: _ => block.selectors := by
  obtain ⟨blocks, unfinished, rules⟩ := machine
  cases blocks <;> rfl

/-- A closed block leaves no value unfinished. -/
theorem closeBlock_keep (unfinished : Option Unfinished) :
    ({ machine with unfinished } : Flattener).closeBlock = machine.closeBlock := by
  obtain ⟨blocks, _, rules⟩ := machine
  cases blocks <;> rfl

theorem declare_keep (unfinished : Option Unfinished) (declaration : Declaration) :
    ({ machine with unfinished } : Flattener).declare declaration =
      { machine.declare declaration with unfinished } := by
  obtain ⟨blocks, _, rules⟩ := machine
  cases blocks <;> rfl

theorem length_blocks_declare (declaration : Declaration) :
    (machine.declare declaration).blocks.length = machine.blocks.length := by
  obtain ⟨blocks, _, rules⟩ := machine
  cases blocks <;> rfl

end Stacked

namespace Run

/-- The machine of a run is in the given state. -/
def Holds (run : Run) (machine : Flattener) (inComment : Bool) : Prop :=
  ∃ stray, run.current = .ofMachine machine inComment stray

theorem changeAll?_cons {run next : Run} {change : Change} (h : run.change? change = some next)
    (changes : List Change) : run.changeAll? (change :: changes) = next.changeAll? changes := by
  rw [changeAll?, List.foldlM_cons, h]
  rfl

variable {run : Run} {machine : Flattener} {inComment : Bool}

theorem Holds.length_frames (h : run.Holds machine inComment) :
    run.current.frames.length = machine.blocks.length + 1 := by
  obtain ⟨stray, hcurrent⟩ := h
  rw [hcurrent, Stacked.ofMachine, List.length_append]
  rfl

theorem Holds.unfinished_eq (h : run.Holds machine inComment) :
    run.current.unfinished = machine.unfinished := by
  obtain ⟨stray, hcurrent⟩ := h
  rw [hcurrent]
  rfl

theorem Holds.inComment_eq (h : run.Holds machine inComment) :
    run.current.inComment = inComment := by
  obtain ⟨stray, hcurrent⟩ := h
  rw [hcurrent]
  rfl

/-! ### Single changes -/

theorem Holds.mark (h : run.Holds machine inComment) (leavesOpen : Bool) :
    ∃ next : Run, run.change? (.mark leavesOpen) = some next ∧ next.Holds machine leavesOpen := by
  obtain ⟨stray, hcurrent⟩ := h
  rw [change?, hcurrent]
  exact ⟨_, rfl, stray, rfl⟩

theorem Holds.keep (h : run.Holds machine inComment) (unfinished : Option Unfinished) :
    ∃ next : Run, run.change? (.keep unfinished) = some next ∧
      next.Holds { machine with unfinished } inComment := by
  obtain ⟨stray, hcurrent⟩ := h
  rw [change?, hcurrent]
  exact ⟨_, rfl, stray, rfl⟩

theorem Holds.declare (h : run.Holds machine inComment) (declaration : Declaration) :
    ∃ next : Run, run.change? (.declare declaration) = some next ∧
      next.Holds (machine.declare declaration) inComment := by
  obtain ⟨stray, hcurrent⟩ := h
  obtain ⟨stray', hdeclare⟩ := Stacked.exists_declare_ofMachine machine inComment stray declaration
  rw [change?, hcurrent, hdeclare]
  exact ⟨_, rfl, stray', rfl⟩

theorem Holds.push (h : run.Holds machine inComment) (selector : List Char) :
    ∃ next : Run,
      run.change? (.push (combineSelectors run.current.scope (String.ofList selector))) =
        some next ∧ next.Holds (machine.openBlock selector) inComment := by
  obtain ⟨stray, hcurrent⟩ := h
  rw [change?, hcurrent, Stacked.scope_ofMachine]
  exact ⟨_, rfl, stray, rfl⟩

/-- A block that is popped has had its rules emitted. -/
theorem Holds.emit_pop {block : Block} {outer : List Block} {rules : List FlatRule}
    {unfinished : Option Unfinished} (h : run.Holds ⟨block :: outer, unfinished, rules⟩ inComment)
    (changes : List Change) :
    ∃ next : Run, run.changeAll? (.emit :: .pop :: changes) = next.changeAll? changes ∧
      next.Holds ⟨outer, unfinished, rules ++ block.rules⟩ inComment := by
  obtain ⟨stray, hcurrent⟩ := h
  obtain ⟨current, past⟩ := run
  obtain rfl : current = _ := hcurrent
  exact ⟨_, rfl, stray, rfl⟩

/-! ### Segments -/

theorem Holds.closing (h : run.Holds machine inComment) {height : Nat}
    (hheight : height = machine.blocks.length + 1) :
    ∃ next : Run, run.changeAll? (Stacked.closing height) = some next ∧
      next.Holds machine.closeBlock inComment := by
  obtain ⟨kept, hkeep, hkept⟩ := h.keep none
  rw [Stacked.closing, changeAll?_cons hkeep]
  obtain ⟨blocks, unfinished, rules⟩ := machine
  cases blocks with
  | nil =>
    rw [if_pos (by simp [hheight])]
    exact ⟨kept, rfl, hkept⟩
  | cons block outer =>
    obtain ⟨next, hpop, hnext⟩ := hkept.emit_pop []
    rw [if_neg (by simp [hheight]), hpop]
    exact ⟨next, rfl, hnext⟩

/-- Taking in a value forgets an unfinished one. -/
theorem Holds.taking
    (h : run.Holds { machine with unfinished := none } inComment) (property text : List Char) :
    ∃ next : Run, run.changeAll? (Stacked.taking property text) = some next ∧
      next.Holds (machine.value property text) inComment := by
  cases hvalue : terminated? text with
  | some complete =>
    obtain ⟨next, hchange, hnext⟩ := h.declare (Declaration.ofText property complete)
    simp only [Stacked.taking, Flattener.value, hvalue]
    exact ⟨next, changeAll?_cons hchange [], hnext⟩
  | none =>
    obtain ⟨next, hchange, hnext⟩ := h.keep (some ⟨property, text⟩)
    simp only [Stacked.taking, Flattener.value, hvalue]
    exact ⟨next, changeAll?_cons hchange [], hnext⟩

theorem Holds.feed_of_unfinished {u : Unfinished} (hu : machine.unfinished = some u)
    (h : run.Holds machine inComment) (segment : List Char) :
    ∃ next : Run, run.feed? segment = some next ∧ next.Holds (machine.feed segment) inComment := by
  obtain ⟨kept, hkeep, hkept⟩ := h.keep none
  simp only [feed?, Stacked.changes, h.unfinished_eq, hu, Flattener.feed]
  rw [changeAll?_cons hkeep]
  split
  · obtain ⟨declared, hdeclare, hdeclared⟩ := hkept.declare (Declaration.ofText u.property u.value)
    have hheight : run.current.frames.length =
        (Flattener.declare { machine with unfinished := none }
          (Declaration.ofText u.property u.value)).blocks.length + 1 := by
      rw [h.length_frames, Stacked.length_blocks_declare]
    obtain ⟨next, hclose, hnext⟩ := hdeclared.closing hheight
    rw [Stacked.declare_keep, Stacked.closeBlock_keep] at hnext
    exact ⟨next, (changeAll?_cons hdeclare _).trans hclose, hnext⟩
  · exact hkept.taking _ _

/-- A segment does to the machine of a run what it does to the machine alone. -/
theorem Holds.feed (h : run.Holds machine inComment) (segment : List Char) :
    ∃ next : Run, run.feed? segment = some next ∧ next.Holds (machine.feed segment) inComment := by
  cases hunfinished : machine.unfinished with
  | some u => exact h.feed_of_unfinished hunfinished segment
  | none =>
    have hkept : run.Holds { machine with unfinished := none } inComment := by
      rw [← hunfinished]
      exact h
    simp only [feed?, Stacked.changes, h.unfinished_eq, hunfinished, Flattener.feed]
    cases dropEnd? ['{'] segment with
    | some selector =>
      obtain ⟨next, hpush, hnext⟩ := h.push (trim selector)
      exact ⟨next, changeAll?_cons hpush [], hnext⟩
    | none =>
      dsimp only
      split
      · exact h.closing h.length_frames
      · cases cutAt? (· == ':') segment with
        | none => exact ⟨run, rfl, h⟩
        | some pair =>
          dsimp only
          split
          · exact hkept.taking _ _
          · exact ⟨run, rfl, h⟩

/-! ### Lines -/

/-- Steps that each go on from what the run holds go on together. -/
theorem Holds.foldlM {α : Type} {step? : Run → α → Option Run} {next : Flattener → α → Flattener}
    (hstep : ∀ {run : Run} {machine : Flattener}, run.Holds machine inComment → ∀ x,
      ∃ later, step? run x = some later ∧ later.Holds (next machine x) inComment)
    (h : run.Holds machine inComment) (xs : List α) :
    ∃ later, xs.foldlM step? run = some later ∧ later.Holds (xs.foldl next machine) inComment := by
  induction xs generalizing run machine with
  | nil => exact ⟨run, rfl, h⟩
  | cons x xs ih =>
    obtain ⟨middle, hmiddle, hholds⟩ := hstep h x
    obtain ⟨later, hlater, hlaterHolds⟩ := ih hholds
    refine ⟨later, ?_, hlaterHolds⟩
    rw [List.foldlM_cons, hmiddle]
    exact hlater

theorem Holds.feedLine (h : run.Holds machine inComment) (line : List Char) :
    ∃ next : Run, run.feedLine? line = some next ∧
      next.Holds (machine.feedLine line) inComment :=
  h.foldlM (fun h => h.feed) (cleanSegments (segments line))

theorem Holds.readLine (h : run.Holds machine inComment) (line : List Char) :
    ∃ next : Run, run.readLine? line = some next ∧
      next.Holds ((stripComments inComment line).1.toList.foldl Flattener.feedLine machine)
        (stripComments inComment line).2 := by
  obtain ⟨marked, hmark, hmarked⟩ := h.mark (stripComments inComment line).2
  simp only [readLine?, h.inComment_eq, hmark, Option.bind_some]
  exact hmarked.foldlM (fun h => h.feedLine) _

/-- Whether a block comment is open after lines. -/
def openAfter (inComment : Bool) (lines : List (List Char)) : Bool :=
  lines.foldl (fun inComment line => (stripComments inComment line).2) inComment

theorem Holds.readLines (h : run.Holds machine inComment) (lines : List (List Char)) :
    ∃ next : Run, lines.foldlM readLine? run = some next ∧
      next.Holds ((codeLines inComment lines).foldl Flattener.feedLine machine)
        (openAfter inComment lines) := by
  induction lines generalizing run machine inComment with
  | nil => exact ⟨run, rfl, h⟩
  | cons line lines ih =>
    obtain ⟨middle, hmiddle, hholds⟩ := h.readLine line
    obtain ⟨next, hnext, hnextHolds⟩ := ih hholds
    refine ⟨next, ?_, ?_⟩
    · rw [List.foldlM_cons, hmiddle]
      exact hnext
    · rw [codeLines, List.foldl_append]
      exact hnextHolds

/-! ### Stylesheets -/

theorem holds_start : Holds {} {} false := ⟨[], rfl⟩

/-- Closing the open blocks emits their rules. -/
theorem Holds.finish (h : run.Holds machine inComment) :
    ∃ next : Run, run.finish? = some next ∧ next.current.rules = machine.finish := by
  rw [finish?, Stacked.finishing, h.length_frames, Nat.add_sub_cancel]
  obtain ⟨blocks, unfinished, rules⟩ := machine
  induction blocks generalizing run rules with
  | nil =>
    obtain ⟨stray, hcurrent⟩ := h
    exact ⟨run, rfl, by rw [hcurrent]; simp [Stacked.ofMachine, Flattener.finish]⟩
  | cons block outer ih =>
    rw [List.length_cons, List.replicate_succ, List.flatten_cons]
    obtain ⟨middle, hmiddle, hholds⟩ := h.emit_pop
      (List.replicate outer.length [Change.emit, Change.pop]).flatten
    obtain ⟨next, hnext, hrules⟩ := ih _ hholds
    refine ⟨next, hmiddle.trans hnext, ?_⟩
    rw [hrules, Flattener.finish, Flattener.finish, List.flatMap_cons, List.append_assoc]

end Run

/-- The machine after all lines of a stylesheet. -/
def machineAfter (source : String) : Flattener :=
  (codeLines false (sourceLines source)).foldl Flattener.feedLine {}

theorem flatten_eq_finish_machineAfter (source : String) :
    flatten source = (machineAfter source).finish := rfl

/-- Every stylesheet can be read. -/
theorem exists_read (source : String) :
    ∃ run, Run.read? source = some run ∧
      run.Holds (machineAfter source) (Run.openAfter false (sourceLines source)) :=
  Run.holds_start.readLines _

/-- The state after all lines of a stylesheet, before the blocks that are open are closed. -/
def stateAfter (source : String) : Stacked :=
  ((Run.read? source).get (by
    obtain ⟨run, hread, -⟩ := exists_read source
    rw [hread]
    rfl)).current

theorem exists_stateAfter_eq (source : String) :
    ∃ stray, stateAfter source = .ofMachine (machineAfter source)
      (Run.openAfter false (sourceLines source)) stray := by
  obtain ⟨run, hread, stray, hcurrent⟩ := exists_read source
  refine ⟨stray, ?_⟩
  simp only [stateAfter, hread, Option.get_some, hcurrent]

end DesignCompiler.Stylesheet
