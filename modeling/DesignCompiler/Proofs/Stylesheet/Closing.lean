import DesignCompiler.Proofs.Stylesheet.Concatenation

/-!
# Blocks that the end of a sheet closes

The end of a sheet closes the open blocks as braces on lines of their own would. A brace also ends
an unfinished value, which the end of the sheet drops, so the two differ where a declaration is
lost.
-/

namespace DesignCompiler.Stylesheet

open Text

/-- Closing braces, one on each line. -/
def closings (lineBreak : String) (count : Nat) : String :=
  lineBreak.intercalate (List.replicate count "\x7d")

theorem codeLines_closings {lineBreak : String} (hbreak : lineBreak ∈ lineBreaks) (count : Nat) :
    codeLines false (sourceLines (closings lineBreak count)) = List.replicate count ['}'] := by
  have hbrace : codeLines false (sourceLines "\x7d") = [['}']] ∧
      Run.openAfter false (sourceLines "\x7d") = false := by decide +kernel
  induction count with
  | zero =>
    rw [closings, List.replicate_zero, String.intercalate_nil]
    decide +kernel
  | succ count ih =>
    cases count with
    | zero =>
      rw [closings, List.replicate_one, String.intercalate_singleton]
      exact hbrace.1
    | succ count =>
      rw [closings, List.replicate_succ, List.replicate_succ, String.intercalate_cons_cons,
        ← List.replicate_succ, codeLines_sourceLines_append _ _ hbreak, hbrace.1, hbrace.2]
      exact congrArg (['}'] :: ·) ih

/-! ## Closing braces -/

namespace Flattener

variable (state : Flattener)

theorem feedLine_brace : state.feedLine ['}'] = state.feed ['}'] := rfl

/-- The rules of a block are emitted at the end if not before. -/
theorem finish_closeBlock : state.closeBlock.finish = state.finish := by
  obtain ⟨blocks, unfinished, rules⟩ := state
  cases blocks with
  | nil => rfl
  | cons block outer => simp only [finish, closeBlock, List.flatMap_cons, List.append_assoc]

theorem finish_foldl_braces_of_none {state : Flattener} (hnone : state.unfinished = none)
    (count : Nat) :
    ((List.replicate count ['}']).foldl feedLine state).finish = state.finish := by
  induction count generalizing state with
  | zero => rfl
  | succ count ih =>
    rw [List.replicate_succ, List.foldl_cons, feedLine_brace, feed_closing hnone,
      ih (unfinished_closeBlock state), finish_closeBlock]

/-- The state with the unfinished declaration in the innermost block. -/
def committed : Flattener :=
  match state.unfinished with
  | none => state
  | some u => state.declare (Declaration.ofText u.property u.value)

/-- Closing all blocks one by one commits the unfinished declaration. -/
theorem finish_foldl_braces :
    ((List.replicate state.blocks.length ['}']).foldl feedLine state).finish =
      state.committed.finish := by
  cases hunfinished : state.unfinished with
  | none =>
    rw [finish_foldl_braces_of_none hunfinished, committed, hunfinished]
  | some u =>
    rw [committed, hunfinished]
    cases hblocks : state.blocks with
    | nil => simp [declare, hblocks]
    | cons block outer =>
      have hfeed : state.feed ['}'] =
          (state.declare (Declaration.ofText u.property u.value)).closeBlock := by
        rw [feed, hunfinished]
        rfl
      rw [List.length_cons, List.replicate_succ, List.foldl_cons, feedLine_brace, hfeed,
        finish_foldl_braces_of_none (unfinished_closeBlock _), finish_closeBlock]

end Flattener

/-! ## Lost declarations -/

/-- One more declaration changes the rules of a block unless the block applies to nothing. -/
theorem rules_concat_eq_iff (block : Block) (declaration : Declaration) :
    Block.rules { block with declarations := block.declarations ++ [declaration] } = block.rules ↔
      ∀ selector ∈ block.selectors, selector = "" := by
  have hfilter : block.selectors.filter (· ≠ "") = [] ↔
      ∀ selector ∈ block.selectors, selector = "" := by simp [List.filter_eq_nil_iff]
  rw [← hfilter, Block.rules, Block.rules]
  cases block.selectors.filter (· ≠ "") with
  | nil => simp
  | cons selector others =>
    cases hdeclarations : block.declarations with
    | nil => simp
    | cons first rest => simp

namespace Stacked

/-- The number of open blocks. -/
def openBlocks (state : Stacked) : Nat := state.frames.length - 1

/-- A declaration without its `;` is lost at the end: it is unfinished, and the innermost block
    applies to something. -/
def LosesDeclaration (state : Stacked) : Prop :=
  ∃ u block outer, state.unfinished = some u ∧ state.frames = block :: outer ∧ outer ≠ [] ∧
    ∃ selector ∈ block.selectors, selector ≠ ""

theorem losesDeclaration_ofMachine_iff (machine : Flattener) (inComment : Bool)
    (stray : List Declaration) : (ofMachine machine inComment stray).LosesDeclaration ↔
      machine.committed.finish ≠ machine.finish := by
  obtain ⟨blocks, unfinished, rules⟩ := machine
  cases unfinished with
  | none =>
    refine iff_of_false ?_ (not_not.mpr rfl)
    rintro ⟨u, block, outer, hu, -⟩
    cases hu
  | some u =>
    cases blocks with
    | nil =>
      refine iff_of_false ?_ (not_not.mpr rfl)
      rintro ⟨u, block, outer, -, hframes, houter, -⟩
      exact houter (List.cons.inj hframes).2.symm
    | cons block outer =>
      have hfinish : (Flattener.committed ⟨block :: outer, some u, rules⟩).finish =
          (Flattener.finish ⟨block :: outer, some u, rules⟩) ↔
            ∀ selector ∈ block.selectors, selector = "" := by
        rw [← rules_concat_eq_iff block (Declaration.ofText u.property u.value)]
        simp [Flattener.committed, Flattener.declare, Flattener.finish]
      rw [ne_eq, hfinish]
      push Not
      constructor
      · rintro ⟨u, block, outer, -, hframes, -, hselector⟩
        rwa [(List.cons.inj hframes).1]
      · exact fun hselector =>
          ⟨u, block, outer ++ [⟨[""], stray⟩], rfl, rfl, List.append_ne_nil_of_right_ne_nil _
            (List.cons_ne_nil _ _), hselector⟩

end Stacked

/-- The end of a sheet closes the open blocks as braces on lines of their own would, just where no
    declaration is lost. -/
theorem flatten_closings_iff {source : String} (hcomment : (stateAfter source).inComment = false)
    {lineBreak : String} (hbreak : lineBreak ∈ lineBreaks) :
    flatten (source ++ lineBreak ++ closings lineBreak (stateAfter source).openBlocks) =
        flatten source ↔ ¬ (stateAfter source).LosesDeclaration := by
  obtain ⟨stray, hstate⟩ := exists_stateAfter_eq source
  rw [hstate] at hcomment ⊢
  have hopen : Run.openAfter false (sourceLines source) = false := hcomment
  have hcount : (Stacked.ofMachine (machineAfter source)
      (Run.openAfter false (sourceLines source)) stray).openBlocks =
        (machineAfter source).blocks.length := by
    simp [Stacked.openBlocks, Stacked.ofMachine]
  rw [hcount, Stacked.losesDeclaration_ofMachine_iff, not_not, flatten_eq_finish_machineAfter,
    flatten_eq_finish_machineAfter, machineAfter_append _ _ hbreak, hopen,
    codeLines_closings hbreak, Flattener.finish_foldl_braces]

/-- Two open blocks, the inner one with a declaration that has its `;`. -/
def openCard : String := ".card\x7bcolor:red;\r\n&:hover\x7b width: 1px;"

theorem flatten_closings_openCard :
    (stateAfter openCard).inComment = false ∧ ¬ (stateAfter openCard).LosesDeclaration ∧
      flatten (openCard ++ "\r\n" ++ closings "\r\n" (stateAfter openCard).openBlocks) =
        flatten openCard := by
  have hcomment : (stateAfter openCard).inComment = false := by decide +kernel
  have hnone : (stateAfter openCard).unfinished = none := by decide +kernel
  have hkept : ¬ (stateAfter openCard).LosesDeclaration := by
    rintro ⟨u, block, outer, hu, -⟩
    rw [hnone] at hu
    cases hu
  exact ⟨hcomment, hkept, (flatten_closings_iff hcomment (by decide)).mpr hkept⟩

/-- The declaration before the brace that closes its block may lack its `;`, but the end of the
    sheet drops it. -/
theorem flatten_closings_ne :
    (stateAfter ".a\x7bcolor:red").inComment = false ∧
      Place.past {} ".a\x7bcolor:red".toList = {} ∧ (stateAfter ".a\x7bcolor:red").openBlocks = 1 ∧
      flatten (".a\x7bcolor:red" ++ "\n" ++ closings "\n" 1) = [⟨".a", [⟨"color", "red"⟩]⟩] ∧
      flatten ".a\x7bcolor:red" = [] := by
  refine ⟨?_, ?_, ?_, ?_, ?_⟩ <;> decide +kernel

end DesignCompiler.Stylesheet
