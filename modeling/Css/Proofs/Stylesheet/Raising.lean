import Css.Proofs.Stylesheet.Lexical

/-!
# Raising the nesting limit

The limit decides when reading ends and is read for nothing else: every other function commutes with
putting another limit into the state. So as long as a step does not end reading, the same step under
a greater limit does the same (`State.step_withLimit`), and a source that passes no limit is read
alike under every greater one.
-/

namespace Css

namespace Parser.State

def withLimit (state : State) (limit : Nat) : State := { state with limit := limit }

variable (state : State) (limit : Nat)

@[simp]
theorem frames_withLimit : (state.withLimit limit).frames = state.frames := rfl

@[simp]
theorem segment_withLimit : (state.withLimit limit).segment = state.segment := rfl

@[simp]
theorem aborted_withLimit : (state.withLimit limit).aborted = state.aborted := rfl

@[simp]
theorem inDeclarations_withLimit :
    (state.withLimit limit).inDeclarations = state.inDeclarations := rfl

@[simp]
theorem isIdle_withLimit (token : Token) :
    (state.withLimit limit).isIdle token = state.isIdle token := rfl

/-! ### What does not read the limit -/

theorem report_withLimit (span : Span) (problem : Problem) :
    (state.withLimit limit).report span problem = (state.report span problem).withLimit limit := rfl

theorem noting_withLimit (reading : Reading) :
    (state.withLimit limit).noting reading = (state.noting reading).withLimit limit := rfl

theorem addDeclaration_withLimit (declaration : Declaration) :
    (state.withLimit limit).addDeclaration declaration =
      (state.addDeclaration declaration).withLimit limit := by
  unfold addDeclaration
  rw [frames_withLimit]
  split <;> rfl

theorem addRule_withLimit (rule : Rule) :
    (state.withLimit limit).addRule rule = (state.addRule rule).withLimit limit := by
  unfold addRule
  rw [frames_withLimit]
  split <;> rfl

theorem addAtRule_withLimit (start : Span) (rule : Rule) :
    (state.withLimit limit).addAtRule start rule =
      (state.addAtRule start rule).withLimit limit := by
  unfold addAtRule
  rw [inDeclarations_withLimit, aborted_withLimit]
  split
  · split
    · rfl
    · apply report_withLimit
  · apply addRule_withLimit

theorem closeFrame_withLimit :
    (state.withLimit limit).closeFrame = state.closeFrame.withLimit limit := by
  cases hframes : state.frames with
  | nil => simp only [closeFrame, frames_withLimit, hframes]
  | cons frame frames =>
    have hrest : ({ state.withLimit limit with frames } : State) =
        ({ state with frames } : State).withLimit limit := rfl
    simp only [closeFrame, frames_withLimit, hframes, hrest]
    split
    · apply addRule_withLimit
    · apply report_withLimit
    · apply addAtRule_withLimit
    · apply addAtRule_withLimit

theorem closeFrames_withLimit (atEnd : Option Span) (frames : List Frame) :
    closeFrames atEnd frames (state.withLimit limit) =
      (closeFrames atEnd frames state).withLimit limit := by
  induction frames generalizing state with
  | nil => rfl
  | cons frame frames ih =>
    cases atEnd with
    | none => simp only [closeFrames, closeFrame_withLimit, ih]
    | some span => simp only [closeFrames, report_withLimit, closeFrame_withLimit, ih]

theorem reportUnmatched_withLimit (start : Span) (segment : Segment) (stop : Span) :
    (state.withLimit limit).reportUnmatched start segment stop =
      (state.reportUnmatched start segment stop).withLimit limit := by
  unfold reportUnmatched
  split <;> rfl

theorem endSegment_withLimit (purpose : Purpose) (segment : Segment) (stop : Span) :
    (state.withLimit limit).endSegment purpose segment stop =
      (state.endSegment purpose segment stop).withLimit limit := by
  have hclear : ({ state.withLimit limit with segment := none } : State) =
      ({ state with segment := none } : State).withLimit limit := rfl
  unfold endSegment
  rw [hclear]
  cases purpose with
  | selector => rfl
  | atRule start name =>
    simp only [addStatement]
    rw [reportUnmatched_withLimit, addAtRule_withLimit]
  | declaration =>
    simp only
    split
    · apply addDeclaration_withLimit
    · apply report_withLimit

theorem atBlock_withLimit (purpose : Purpose) (segment : Segment) (stop : Span) :
    (state.withLimit limit).atBlock purpose segment stop =
      (state.atBlock purpose segment stop).withLimit limit := by
  cases purpose with
  | atRule start name =>
    exact reportUnmatched_withLimit { state with segment := none } limit start segment stop
  | selector => rfl
  | declaration => rfl

theorem closeCurly_withLimit (span : Span) :
    (state.withLimit limit).closeCurly span = (state.closeCurly span).withLimit limit := by
  unfold closeCurly
  rw [frames_withLimit]
  split
  · apply report_withLimit
  · apply closeFrame_withLimit

theorem finish_withLimit (place : Pos) :
    (state.withLimit limit).finish place = (state.finish place).withLimit limit := by
  unfold finish
  rw [aborted_withLimit, segment_withLimit]
  split
  · rfl
  · cases state.segment with
    | none => exact closeFrames_withLimit ..
    | some collected =>
      simp only [endSegment_withLimit, frames_withLimit]
      apply closeFrames_withLimit

/-! ### Steps that do not end reading -/

variable {state limit}

theorem isTooDeep_withLimit (hle : state.limit ≤ limit) {depth : Nat}
    (h : state.isTooDeep depth = false) : (state.withLimit limit).isTooDeep depth = false := by
  rw [isTooDeep, decide_eq_false_iff_not, Nat.not_lt] at h ⊢
  exact Nat.le_trans h hle

theorem openBlock_withLimit (hle : state.limit ≤ limit) {purpose : Purpose} {segment : Segment}
    {stop : Span} (h : (state.openBlock purpose segment stop).aborted = false) :
    (state.withLimit limit).openBlock purpose segment stop =
      (state.openBlock purpose segment stop).withLimit limit := by
  have hroom : state.isTooDeep 0 = false := by
    by_contra hdeep
    rw [aborted_openBlock state (Bool.not_eq_false _ ▸ hdeep)] at h
    contradiction
  rw [openBlock_eq, openBlock_eq, hroom, isTooDeep_withLimit hle hroom,
    if_neg Bool.false_ne_true, if_neg Bool.false_ne_true, atBlock_withLimit]
  rfl

theorem extend_withLimit (hle : state.limit ≤ limit) {purpose : Purpose} {segment : Segment}
    {lexeme : Lexeme} (h : (state.extend purpose segment lexeme).aborted = false) :
    (state.withLimit limit).extend purpose segment lexeme =
      (state.extend purpose segment lexeme).withLimit limit := by
  have hroom : ¬(lexeme.token.opens?.isSome && state.isTooDeep segment.stack.length) = true := by
    intro hdeep
    rw [extend, if_pos hdeep, aborted_abortSegment] at h
    contradiction
  have hroom' : ¬(lexeme.token.opens?.isSome &&
      (state.withLimit limit).isTooDeep segment.stack.length) = true := by
    intro hdeep
    rw [Bool.and_eq_true] at hdeep hroom
    refine hroom ⟨hdeep.1, ?_⟩
    by_contra hshallow
    rw [isTooDeep_withLimit hle (Bool.eq_false_iff.2 hshallow)] at hdeep
    exact Bool.false_ne_true hdeep.2
  rw [extend, extend, if_neg hroom, if_neg hroom']
  rfl

theorem collect_withLimit (hle : state.limit ≤ limit) {purpose : Purpose} {segment : Segment}
    {lexeme : Lexeme} (h : (state.collect purpose segment lexeme).aborted = false) :
    (state.withLimit limit).collect purpose segment lexeme =
      (state.collect purpose segment lexeme).withLimit limit := by
  unfold collect at h ⊢
  by_cases hopens : lexeme.token = .opening .curly ∧ segment.stack = [] ∧ purpose.endsAtBlock
  · simp only [if_pos hopens] at h ⊢
    exact openBlock_withLimit hle h
  simp only [if_neg hopens] at h ⊢
  by_cases hends : lexeme.token = .semicolon ∧ !segment.inCurly ∧ purpose.endsAtSemicolon
  · simp only [if_pos hends]
    apply endSegment_withLimit
  · simp only [if_neg hends] at h ⊢
    exact extend_withLimit hle h

theorem begin_withLimit (hle : state.limit ≤ limit) {lexeme : Lexeme}
    (h : (state.begin lexeme).aborted = false) :
    (state.withLimit limit).begin lexeme = (state.begin lexeme).withLimit limit := by
  unfold begin at h ⊢
  rw [isIdle_withLimit, inDeclarations_withLimit]
  by_cases hidle : state.isIdle lexeme.token = true
  · simp only [if_pos hidle]
  · simp only [if_neg hidle] at h ⊢
    split at h
    · apply closeCurly_withLimit
    · rfl
    · exact collect_withLimit hle h

/-- A step that does not end reading does the same under a greater limit. -/
theorem step_withLimit (hle : state.limit ≤ limit) {reading : Reading}
    (h : (state.step reading).aborted = false) :
    (state.withLimit limit).step reading = (state.step reading).withLimit limit := by
  have hgoes : state.aborted = false := aborted_eq_false_of_step h
  have hnoting : (state.noting reading).limit ≤ limit := hle
  cases hsegment : state.segment with
  | none =>
    rw [step_of_segment_none reading hgoes hsegment] at h ⊢
    rw [@step_of_segment_none (state.withLimit limit) reading hgoes hsegment, noting_withLimit]
    exact begin_withLimit hnoting h
  | some collected =>
    obtain ⟨purpose, segment⟩ := collected
    rw [step_of_segment_some reading hgoes hsegment] at h ⊢
    rw [@step_of_segment_some (state.withLimit limit) reading _ _ hgoes hsegment,
      noting_withLimit]
    by_cases hcloses : reading.lexeme.token = .closing .curly ∧ !segment.inCurly
    · simp only [if_pos hcloses, endSegment_withLimit, closeCurly_withLimit]
    · simp only [if_neg hcloses] at h ⊢
      exact collect_withLimit hnoting h

/-- Readings that do not end early are the same under a greater limit. -/
theorem foldl_withLimit (hle : state.limit ≤ limit) {readings : List Reading}
    (h : (readings.foldl step state).aborted = false) :
    readings.foldl step (state.withLimit limit) = (readings.foldl step state).withLimit limit := by
  induction readings generalizing state with
  | nil => rfl
  | cons reading readings ih =>
    rw [List.foldl_cons] at h ⊢
    rw [step_withLimit hle (aborted_eq_false_of_foldl h)]
    exact ih (by rw [limit_step]; exact hle) h

end Parser.State

namespace Stylesheet

open Css.Parser (State)

/-- A source whose nesting passes no limit is read the same under every greater one: the same rules
come with the same diagnostics. -/
theorem parse_of_maxDepth_le (lineComments : Bool) {depth greater : Nat} (hle : depth ≤ greater)
    (text : Text)
    (hfits : ∀ diagnostic ∈ (parse { maxDepth := depth, lineComments } text).diagnostics,
      diagnostic.problem.isDepthExceeded = false) :
    parse { maxDepth := greater, lineComments } text =
      parse { maxDepth := depth, lineComments } text := by
  have hgoes : (stateBehind { maxDepth := depth, lineComments } text).aborted = false := by
    by_contra haborted
    obtain ⟨diagnostic, hmem, hproblem⟩ :=
      exists_isDepthExceeded_iff.2 (Bool.not_eq_false _ ▸ haborted)
    rw [hfits diagnostic hmem] at hproblem
    contradiction
  have hbehind : stateBehind { maxDepth := greater, lineComments } text =
      (stateBehind { maxDepth := depth, lineComments } text).withLimit greater :=
    @State.foldl_withLimit (.initial depth) greater hle _ hgoes
  rw [parse_eq, parse_eq, hbehind, State.finish_withLimit]
  rfl

/-- Two blocks inside one another fit into the limit two, whatever else is wrong with them. -/
theorem parse_of_maxDepth_le_three :
    (parse { maxDepth := 2 } "@media a\x7bb:c(d);e\x7bf:g\x7d\x7d".toList).diagnostics ≠ [] ∧
      parse { maxDepth := 3 } "@media a\x7bb:c(d);e\x7bf:g\x7d\x7d".toList =
        parse { maxDepth := 2 } "@media a\x7bb:c(d);e\x7bf:g\x7d\x7d".toList :=
  ⟨by decide +kernel, parse_of_maxDepth_le true (by decide) _ (by decide +kernel)⟩

end Stylesheet

end Css
