import Css.Proofs.Stylesheet.Segment
import Css.Stylesheet.Parser

/-!
# What the steps of the parser change

Each function from state to state writes few fields: adding and closing keep the segment, ending a
segment keeps the number of open blocks, and no step takes a diagnostic back.
-/

namespace Css.Parser.State

variable (state : State)

/-! ### Adding what has been read -/

@[simp]
theorem frames_report (span : Span) (problem : Problem) :
    (state.report span problem).frames = state.frames := rfl

@[simp]
theorem segment_report (span : Span) (problem : Problem) :
    (state.report span problem).segment = state.segment := rfl

@[simp]
theorem aborted_report (span : Span) (problem : Problem) :
    (state.report span problem).aborted = state.aborted := rfl

@[simp]
theorem limit_report (span : Span) (problem : Problem) :
    (state.report span problem).limit = state.limit := rfl

@[simp]
theorem length_frames_addDeclaration (declaration : Declaration) :
    (state.addDeclaration declaration).frames.length = state.frames.length := by
  unfold addDeclaration
  split <;> simp [*]

@[simp]
theorem segment_addDeclaration (declaration : Declaration) :
    (state.addDeclaration declaration).segment = state.segment := by
  unfold addDeclaration
  split <;> rfl

@[simp]
theorem aborted_addDeclaration (declaration : Declaration) :
    (state.addDeclaration declaration).aborted = state.aborted := by
  unfold addDeclaration
  split <;> rfl

@[simp]
theorem limit_addDeclaration (declaration : Declaration) :
    (state.addDeclaration declaration).limit = state.limit := by
  unfold addDeclaration
  split <;> rfl

@[simp]
theorem length_frames_addRule (rule : Rule) :
    (state.addRule rule).frames.length = state.frames.length := by
  unfold addRule
  split <;> simp [*]

@[simp]
theorem segment_addRule (rule : Rule) : (state.addRule rule).segment = state.segment := by
  unfold addRule
  split <;> rfl

@[simp]
theorem aborted_addRule (rule : Rule) : (state.addRule rule).aborted = state.aborted := by
  unfold addRule
  split <;> rfl

@[simp]
theorem limit_addRule (rule : Rule) : (state.addRule rule).limit = state.limit := by
  unfold addRule
  split <;> rfl

@[simp]
theorem length_frames_addAtRule (start : Span) (rule : Rule) :
    (state.addAtRule start rule).frames.length = state.frames.length := by
  unfold addAtRule
  split
  · split <;> rfl
  · simp

@[simp]
theorem segment_addAtRule (start : Span) (rule : Rule) :
    (state.addAtRule start rule).segment = state.segment := by
  unfold addAtRule
  split
  · split <;> rfl
  · simp

@[simp]
theorem aborted_addAtRule (start : Span) (rule : Rule) :
    (state.addAtRule start rule).aborted = state.aborted := by
  unfold addAtRule
  split
  · split <;> rfl
  · simp

@[simp]
theorem limit_addAtRule (start : Span) (rule : Rule) :
    (state.addAtRule start rule).limit = state.limit := by
  unfold addAtRule
  split
  · split <;> rfl
  · simp

/-! ### Closing blocks -/

@[simp]
theorem length_frames_closeFrame :
    state.closeFrame.frames.length = state.frames.length - 1 := by
  unfold closeFrame
  split
  · simp [*]
  · simp only [*]
    split <;> simp

@[simp]
theorem segment_closeFrame : state.closeFrame.segment = state.segment := by
  unfold closeFrame
  split
  · rfl
  · split <;> simp

@[simp]
theorem aborted_closeFrame : state.closeFrame.aborted = state.aborted := by
  unfold closeFrame
  split
  · rfl
  · split <;> simp

@[simp]
theorem limit_closeFrame : state.closeFrame.limit = state.limit := by
  unfold closeFrame
  split
  · rfl
  · split <;> simp

@[simp]
theorem aborted_closeFrames (atEnd : Option Span) (frames : List Frame) :
    (closeFrames atEnd frames state).aborted = state.aborted := by
  induction frames generalizing state with
  | nil => rfl
  | cons frame frames ih =>
    simp only [closeFrames, ih]
    cases atEnd <;> simp

@[simp]
theorem segment_closeFrames (atEnd : Option Span) (frames : List Frame) :
    (closeFrames atEnd frames state).segment = state.segment := by
  induction frames generalizing state with
  | nil => rfl
  | cons frame frames ih =>
    simp only [closeFrames, ih]
    cases atEnd <;> simp

theorem length_frames_closeFrames_le (atEnd : Option Span) (frames : List Frame) :
    (closeFrames atEnd frames state).frames.length ≤ state.frames.length := by
  induction frames generalizing state with
  | nil => exact Nat.le_refl _
  | cons frame frames ih =>
    have hclose : ∀ state : State, (closeFrames atEnd frames state.closeFrame).frames.length ≤
        state.frames.length := fun state =>
      Nat.le_trans (ih _) (by rw [length_frames_closeFrame]; exact Nat.sub_le ..)
    cases atEnd with
    | none => exact hclose state
    | some span => exact hclose (state.report span _)

/-! ### Ending segments -/

@[simp]
theorem frames_reportUnmatched (start : Span) (segment : Segment) (stop : Span) :
    (state.reportUnmatched start segment stop).frames = state.frames := by
  unfold reportUnmatched
  split <;> rfl

@[simp]
theorem rules_reportUnmatched (start : Span) (segment : Segment) (stop : Span) :
    (state.reportUnmatched start segment stop).rules = state.rules := by
  unfold reportUnmatched
  split <;> rfl

@[simp]
theorem segment_reportUnmatched (start : Span) (segment : Segment) (stop : Span) :
    (state.reportUnmatched start segment stop).segment = state.segment := by
  unfold reportUnmatched
  split <;> rfl

@[simp]
theorem aborted_reportUnmatched (start : Span) (segment : Segment) (stop : Span) :
    (state.reportUnmatched start segment stop).aborted = state.aborted := by
  unfold reportUnmatched
  split <;> rfl

@[simp]
theorem limit_reportUnmatched (start : Span) (segment : Segment) (stop : Span) :
    (state.reportUnmatched start segment stop).limit = state.limit := by
  unfold reportUnmatched
  split <;> rfl

@[simp]
theorem aborted_addStatement (start : Span) (name : Text) (segment : Segment) (stop : Span) :
    (state.addStatement start name segment stop).aborted = state.aborted := by
  simp [addStatement]

@[simp]
theorem segment_endSegment (purpose : Purpose) (segment : Segment) (stop : Span) :
    (state.endSegment purpose segment stop).segment = none := by
  unfold endSegment
  cases purpose with
  | selector => rfl
  | atRule start name => simp [addStatement]
  | declaration => simp only; split <;> simp

@[simp]
theorem length_frames_endSegment (purpose : Purpose) (segment : Segment) (stop : Span) :
    (state.endSegment purpose segment stop).frames.length = state.frames.length := by
  unfold endSegment
  cases purpose with
  | selector => rfl
  | atRule start name => simp [addStatement]
  | declaration => simp only; split <;> simp

@[simp]
theorem aborted_endSegment (purpose : Purpose) (segment : Segment) (stop : Span) :
    (state.endSegment purpose segment stop).aborted = state.aborted := by
  unfold endSegment
  cases purpose with
  | selector => rfl
  | atRule start name => simp
  | declaration => simp only; split <;> simp

@[simp]
theorem limit_endSegment (purpose : Purpose) (segment : Segment) (stop : Span) :
    (state.endSegment purpose segment stop).limit = state.limit := by
  unfold endSegment
  cases purpose with
  | selector => rfl
  | atRule start name => simp [addStatement]
  | declaration => simp only; split <;> simp

/-! ### Opening blocks and giving up -/

@[simp]
theorem aborted_abortSegment (purpose : Purpose) (segment : Segment) (stop : Span) :
    (state.abortSegment purpose segment stop).aborted = true := by
  unfold abortSegment
  cases purpose <;> simp [abort]

/-- The state in which a segment opens its block: brackets out of order have been noted. -/
def atBlock (state : State) (purpose : Purpose) (segment : Segment) (stop : Span) : State :=
  match purpose with
  | .atRule start _ => { state with segment := none }.reportUnmatched start segment stop
  | _ => { state with segment := none }

@[simp]
theorem frames_atBlock (purpose : Purpose) (segment : Segment) (stop : Span) :
    (state.atBlock purpose segment stop).frames = state.frames := by
  cases purpose <;> simp [atBlock]

@[simp]
theorem rules_atBlock (purpose : Purpose) (segment : Segment) (stop : Span) :
    (state.atBlock purpose segment stop).rules = state.rules := by
  cases purpose <;> simp [atBlock]

@[simp]
theorem segment_atBlock (purpose : Purpose) (segment : Segment) (stop : Span) :
    (state.atBlock purpose segment stop).segment = none := by
  cases purpose <;> simp [atBlock]

@[simp]
theorem aborted_atBlock (purpose : Purpose) (segment : Segment) (stop : Span) :
    (state.atBlock purpose segment stop).aborted = state.aborted := by
  cases purpose <;> simp [atBlock]

@[simp]
theorem limit_atBlock (purpose : Purpose) (segment : Segment) (stop : Span) :
    (state.atBlock purpose segment stop).limit = state.limit := by
  cases purpose <;> simp [atBlock]

/-- A segment opens its block unless that is too deep, where reading ends. -/
theorem openBlock_eq (purpose : Purpose) (segment : Segment) (stop : Span) :
    state.openBlock purpose segment stop =
      if state.isTooDeep 0 then
        closeFrames none state.frames ((state.atBlock purpose segment stop).abort stop)
      else
        { state.atBlock purpose segment stop with
          frames := (frame? purpose segment stop).toList ++ state.frames } := by
  have hframes := frames_atBlock state purpose segment stop
  have hdeep : (state.atBlock purpose segment stop).isTooDeep 0 = state.isTooDeep 0 := by
    simp [isTooDeep]
  rw [← hdeep, ← hframes]
  rfl

theorem aborted_openBlock {purpose : Purpose} {segment : Segment} {stop : Span}
    (h : state.isTooDeep 0 = true) : (state.openBlock purpose segment stop).aborted = true := by
  rw [openBlock_eq, if_pos h, aborted_closeFrames]
  rfl

/-- A segment opens its block unless reading ends there. -/
theorem openBlock_of_aborted_eq_false {purpose : Purpose} {segment : Segment} {stop : Span}
    (h : (state.openBlock purpose segment stop).aborted = false) :
    state.openBlock purpose segment stop =
      { state.atBlock purpose segment stop with
        frames := (frame? purpose segment stop).toList ++ state.frames } := by
  cases hdeep : state.isTooDeep 0 with
  | true =>
    rw [aborted_openBlock state hdeep] at h
    contradiction
  | false => rw [openBlock_eq, hdeep, if_neg Bool.false_ne_true]

@[simp]
theorem segment_abortSegment (purpose : Purpose) (segment : Segment) (stop : Span) :
    (state.abortSegment purpose segment stop).segment = none := by
  cases purpose <;> simp [abortSegment, addStatement, abort]

theorem length_frames_abortSegment_le (purpose : Purpose) (segment : Segment) (stop : Span) :
    (state.abortSegment purpose segment stop).frames.length ≤ state.frames.length := by
  unfold abortSegment
  cases purpose with
  | atRule start name =>
    refine Nat.le_trans (length_frames_closeFrames_le ..) ?_
    simp [addStatement, abort]
  | selector => exact length_frames_closeFrames_le ..
  | declaration => exact length_frames_closeFrames_le ..

theorem isSome_frame? (purpose : Purpose) (segment : Segment) (stop : Span) :
    (frame? purpose segment stop).isSome = purpose.endsAtBlock := by
  cases purpose with
  | selector => rfl
  | atRule start name => simp only [frame?]; split <;> rfl
  | declaration => rfl

@[simp]
theorem segment_openBlock (purpose : Purpose) (segment : Segment) (stop : Span) :
    (state.openBlock purpose segment stop).segment = none := by
  rw [openBlock_eq]
  split <;> simp [abort]

/-- A segment grows by a lexeme unless that is too deep, where reading ends. -/
theorem extend_of_aborted_eq_false {purpose : Purpose} {segment : Segment} {lexeme : Lexeme}
    (h : (state.extend purpose segment lexeme).aborted = false) :
    state.extend purpose segment lexeme =
      { state with segment := some (purpose, segment.push lexeme) } := by
  unfold extend at h ⊢
  split
  · rename_i hdeep
    rw [if_pos hdeep, aborted_abortSegment] at h
    contradiction
  · rfl

@[simp]
theorem segment_closeCurly (span : Span) : (state.closeCurly span).segment = state.segment := by
  unfold closeCurly
  split <;> simp

@[simp]
theorem aborted_closeCurly (span : Span) : (state.closeCurly span).aborted = state.aborted := by
  unfold closeCurly
  split <;> simp

/-! ### Steps -/

theorem aborted_eq_false_of_step {state : State} {reading : Reading}
    (h : (state.step reading).aborted = false) : state.aborted = false := by
  unfold step at h
  split at h
  · exact h
  · exact Bool.eq_false_iff.2 ‹_›

/-- The state in which a lexeme is looked at: what is wrong with it has been noted. -/
def noting (state : State) (reading : Reading) : State :=
  { state with diagnostics := state.diagnostics ++ reading.diagnostic?.toList.toArray }

theorem noting_of_problem_none {state : State} {reading : Reading} (h : reading.problem = none) :
    state.noting reading = state := by
  simp [noting, Reading.diagnostic?, h]

theorem step_of_aborted {state : State} (reading : Reading) (h : state.aborted = true) :
    state.step reading = state := by
  rw [step, if_pos h]

theorem foldl_step_of_aborted {state : State} (readings : List Reading)
    (h : state.aborted = true) : readings.foldl step state = state := by
  induction readings with
  | nil => rfl
  | cons reading readings ih => rw [List.foldl_cons, step_of_aborted reading h, ih]

theorem step_of_segment_none {state : State} (reading : Reading)
    (hgoes : state.aborted = false) (hsegment : state.segment = none) :
    state.step reading = (state.noting reading).begin reading.lexeme := by
  rcases state with ⟨limit, rules, frames, segment, diagnostics, aborted⟩
  obtain rfl : aborted = false := hgoes
  obtain rfl : segment = none := hsegment
  rfl

theorem step_of_segment_some {state : State} (reading : Reading) {purpose : Purpose}
    {segment : Segment} (hgoes : state.aborted = false)
    (hsegment : state.segment = some (purpose, segment)) :
    state.step reading =
      if reading.lexeme.token = .closing .curly ∧ !segment.inCurly then
        ((state.noting reading).endSegment purpose segment reading.lexeme.span).closeCurly
          reading.lexeme.span
      else (state.noting reading).collect purpose segment reading.lexeme := by
  rcases state with ⟨limit, rules, frames, segment', diagnostics, aborted⟩
  obtain rfl : aborted = false := hgoes
  obtain rfl : segment' = some (purpose, segment) := hsegment
  rfl

/-- What a step can do where reading has not been given up. -/
inductive StepsTo (state : State) (reading : Reading) : State → Prop
  | idle (hsegment : state.segment = none) : StepsTo state reading (state.noting reading)
  | closeCurly (hsegment : state.segment = none) :
    StepsTo state reading ((state.noting reading).closeCurly reading.lexeme.span)
  | atRule (name : Text) (hsegment : state.segment = none) :
    StepsTo state reading
      { state.noting reading with segment := some (.atRule reading.lexeme.span name, .empty) }
  | start (hsegment : state.segment = none) :
    StepsTo state reading ((state.noting reading).collect
      (if state.inDeclarations then .declaration else .selector) .empty reading.lexeme)
  | collect (purpose : Purpose) (segment : Segment)
      (hsegment : state.segment = some (purpose, segment)) :
    StepsTo state reading ((state.noting reading).collect purpose segment reading.lexeme)
  | endBlock (purpose : Purpose) (segment : Segment)
      (hsegment : state.segment = some (purpose, segment)) :
    StepsTo state reading (((state.noting reading).endSegment purpose segment
      reading.lexeme.span).closeCurly reading.lexeme.span)

theorem stepsTo {state : State} (reading : Reading) (hgoes : state.aborted = false) :
    StepsTo state reading (state.step reading) := by
  cases hsegment : state.segment with
  | none =>
    rw [step_of_segment_none reading hgoes hsegment, begin]
    split
    · exact .idle hsegment
    split
    · exact .closeCurly hsegment
    · exact .atRule _ hsegment
    · exact .start hsegment
  | some collected =>
    obtain ⟨purpose, segment⟩ := collected
    rw [step_of_segment_some reading hgoes hsegment]
    split
    · exact .endBlock purpose segment hsegment
    · exact .collect purpose segment hsegment

theorem aborted_eq_false_of_foldl {state : State} {readings : List Reading}
    (h : (readings.foldl step state).aborted = false) : state.aborted = false := by
  induction readings generalizing state with
  | nil => exact h
  | cons reading readings ih => exact aborted_eq_false_of_step (ih h)

/-- Trivia end no segment. -/
theorem step_of_isTrivia {state : State} {reading : Reading} (hgoes : state.aborted = false)
    (htrivia : reading.lexeme.isTrivia = true) :
    state.step reading =
      { state.noting reading with
        segment := state.segment.map fun (purpose, segment) =>
          (purpose, segment.push reading.lexeme) } := by
  obtain ⟨⟨token, span, raw⟩, problem⟩ := reading
  have hkind : token = .whitespace ∨ ∃ content, token = .comment content := by
    cases token with
    | whitespace => exact .inl rfl
    | comment content => exact .inr ⟨content, rfl⟩
    | _ => contradiction
  rcases state with ⟨limit, rules, frames, segment, diagnostics, aborted⟩
  obtain rfl : aborted = false := hgoes
  cases segment with
  | none => obtain rfl | ⟨content, rfl⟩ := hkind <;> rfl
  | some collected =>
    rw [step_of_segment_some _ rfl rfl, collect, extend]
    obtain rfl | ⟨content, rfl⟩ := hkind <;> simp [Token.opens?, noting]

def pending (state : State) : List Lexeme :=
  match state.segment with
  | none => []
  | some (_, segment) => segment.lexemes.toList

theorem pending_of_segment_none {state : State} (h : state.segment = none) :
    state.pending = [] := by
  rw [pending, h]

theorem pending_of_segment_some {state : State} {purpose : Purpose} {segment : Segment}
    (h : state.segment = some (purpose, segment)) : state.pending = segment.lexemes.toList := by
  rw [pending, h]

/-- A step lets go of what is pending or puts its lexeme behind it. -/
theorem pending_step {state : State} (reading : Reading) (hgoes : state.aborted = false) :
    (state.step reading).pending = [] ∨
      (state.step reading).pending = state.pending ++ [reading.lexeme] := by
  have hcollect : ∀ {after : State} {purpose : Purpose} {segment : Segment} {lexeme : Lexeme},
      (after.collect purpose segment lexeme).pending = [] ∨
        (after.collect purpose segment lexeme).pending = segment.lexemes.toList ++ [lexeme] := by
    intro after purpose segment lexeme
    unfold collect
    split
    · exact .inl (pending_of_segment_none (by simp))
    split
    · exact .inl (pending_of_segment_none (by simp))
    · unfold extend
      split
      · exact .inl (pending_of_segment_none (by simp))
      · exact .inr (by simp only [pending, Segment.lexemes_push, Array.toList_push])
  have hstep := stepsTo reading hgoes
  generalize state.step reading = after at *
  cases hstep with
  | idle hsegment => exact .inl (pending_of_segment_none hsegment)
  | closeCurly hsegment =>
    exact .inl (pending_of_segment_none ((segment_closeCurly ..).trans hsegment))
  | atRule => exact .inl rfl
  | start hsegment =>
    rw [pending_of_segment_none hsegment]
    exact hcollect
  | collect purpose segment hsegment =>
    rw [pending_of_segment_some hsegment]
    exact hcollect
  | endBlock => exact .inl (pending_of_segment_none (by simp))

@[simp]
theorem limit_closeFrames (atEnd : Option Span) (frames : List Frame) :
    (closeFrames atEnd frames state).limit = state.limit := by
  induction frames generalizing state with
  | nil => rfl
  | cons frame frames ih =>
    simp only [closeFrames, ih]
    cases atEnd <;> simp

@[simp]
theorem limit_abort (span : Span) : (state.abort span).limit = state.limit := rfl

@[simp]
theorem limit_abortSegment (purpose : Purpose) (segment : Segment) (stop : Span) :
    (state.abortSegment purpose segment stop).limit = state.limit := by
  cases purpose <;> simp [abortSegment, addStatement]

@[simp]
theorem limit_collect (purpose : Purpose) (segment : Segment) (lexeme : Lexeme) :
    (state.collect purpose segment lexeme).limit = state.limit := by
  unfold collect
  split
  · rw [openBlock_eq]
    split <;> simp
  split
  · simp
  · unfold extend
    split <;> simp

@[simp]
theorem limit_closeCurly (span : Span) : (state.closeCurly span).limit = state.limit := by
  unfold closeCurly
  split <;> simp

@[simp]
theorem limit_step (reading : Reading) : (state.step reading).limit = state.limit := by
  have hnoting : (state.noting reading).limit = state.limit := rfl
  cases hgoes : state.aborted with
  | true => rw [step_of_aborted reading hgoes]
  | false =>
    have hstep := stepsTo reading hgoes
    generalize state.step reading = after at *
    cases hstep with
    | idle => rfl
    | closeCurly => rw [limit_closeCurly, hnoting]
    | atRule => rfl
    | start => rw [limit_collect, hnoting]
    | collect => rw [limit_collect, hnoting]
    | endBlock => rw [limit_closeCurly, limit_endSegment, hnoting]

theorem limit_foldl (readings : List Reading) :
    (readings.foldl step state).limit = state.limit := by
  induction readings generalizing state with
  | nil => rfl
  | cons reading readings ih => rw [List.foldl_cons, ih, limit_step]

end Css.Parser.State

namespace Css.Stylesheet

open Css.Parser (State)

def stateBehind (options : ParseOptions) (text : Text) : State :=
  (Reading.all options.lineComments 0 text).foldl State.step (.initial options.maxDepth)

theorem parse_eq (options : ParseOptions) (text : Text) :
    parse options text =
      { sheet := ((stateBehind options text).finish (.ofPlace text.byteLength)).rules.toList
        diagnostics := Diagnostic.sort
          ((stateBehind options text).finish (.ofPlace text.byteLength)).diagnostics.toList } :=
  rfl

end Css.Stylesheet
