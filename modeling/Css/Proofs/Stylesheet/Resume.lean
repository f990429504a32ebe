import Css.Proofs.Media.Reading
import Css.Proofs.Selector.Reading
import Css.Proofs.Shift
import Css.Proofs.Stylesheet.Steps
import Css.Proofs.Value.Reading

/-!
# Reading on behind another source

A state that is back outside every block reads what follows as if it were a source of its own, with
the places shifted. `State.resume` says how such a state looks, and every step commutes with it.
-/

namespace Css

namespace Segment

def shift (bytes : Nat) (segment : Segment) : Segment :=
  { segment with lexemes := segment.lexemes.map (Lexeme.shift bytes) }

variable (bytes : Nat) (segment : Segment)

theorem shift_empty : empty.shift bytes = empty := by
  simp only [shift, empty, Array.map_empty]

theorem shift_push (lexeme : Lexeme) :
    (segment.push lexeme).shift bytes = (segment.shift bytes).push (lexeme.shift bytes) := by
  have htoken : (lexeme.shift bytes).token = lexeme.token := rfl
  simp only [push, htoken, shift]
  split
  · simp only [Array.map_push]
  · simp only [close, noteUnmatched]
    split
    · simp only [Array.map_push]
    · split <;> simp only [Array.map_push]
  · simp only [Array.map_push]

theorem shift_span (fallback : Span) :
    (segment.shift bytes).span (fallback.shift bytes) = (segment.span fallback).shift bytes := by
  simp only [span, shift, Array.getElem?_map, Array.back?_map]
  cases segment.lexemes[0]? with
  | none => rfl
  | some first =>
    cases segment.lexemes.back? with
    | none => rfl
    | some last => exact (Span.shift_join bytes _ _).symm

theorem toList_shift :
    (segment.shift bytes).lexemes.toList = segment.lexemes.toList.map (Lexeme.shift bytes) :=
  Array.toList_map ..

end Segment

namespace Parser

def Purpose.shift (bytes : Nat) : Purpose → Purpose
  | atRule start name => atRule (start.shift bytes) name
  | purpose => purpose

def Frame.shift (bytes : Nat) : Frame → Frame
  | style selectors span declarations => style selectors (span.shift bytes) declarations
  | group start name prelude rules => group (start.shift bytes) name prelude rules
  | descriptors start name prelude declarations =>
    descriptors (start.shift bytes) name prelude declarations

namespace State

/-- A state of a source that stands `bytes` behind the start of another, which left the state
`before`. -/
def resume (state before : State) (bytes : Nat) : State where
  limit := state.limit
  rules := before.rules ++ state.rules
  frames := state.frames.map (Frame.shift bytes)
  segment := state.segment.map fun (purpose, segment) => (purpose.shift bytes, segment.shift bytes)
  diagnostics := before.diagnostics ++ state.diagnostics.map (Diagnostic.shift bytes)
  aborted := state.aborted

variable (before : State) (bytes : Nat) (state : State)

theorem resume_initial (limit : Nat) (hlimit : before.limit = limit)
    (hframes : before.frames = []) (hsegment : before.segment = none)
    (hgoes : before.aborted = false) : (initial limit).resume before bytes = before := by
  rcases before with ⟨limit', rules, frames, segment, diagnostics, aborted⟩
  obtain rfl : limit' = limit := hlimit
  obtain rfl : frames = [] := hframes
  obtain rfl : segment = none := hsegment
  obtain rfl : aborted = false := hgoes
  simp [resume, initial]

/-! ### Adding what has been read -/

theorem resume_report (span : Span) (problem : Problem) :
    (state.report span problem).resume before bytes =
      (state.resume before bytes).report (span.shift bytes) problem := by
  simp only [report, resume, Array.map_push, Array.append_push]
  rfl

theorem inDeclarations_resume :
    (state.resume before bytes).inDeclarations = state.inDeclarations := by
  unfold inDeclarations resume
  cases state.frames with
  | nil => rfl
  | cons frame frames => cases frame <;> rfl

theorem resume_addDeclaration (declaration : Declaration) :
    (state.addDeclaration declaration).resume before bytes =
      (state.resume before bytes).addDeclaration declaration := by
  rcases state with ⟨limit, rules, frames, segment, diagnostics, aborted⟩
  cases frames with
  | nil => rfl
  | cons frame frames => cases frame <;> rfl

theorem resume_addRule (rule : Rule) :
    (state.addRule rule).resume before bytes = (state.resume before bytes).addRule rule := by
  rcases state with ⟨limit, rules, frames, segment, diagnostics, aborted⟩
  cases frames with
  | nil => simp only [addRule, resume, List.map_nil, Array.append_push]
  | cons frame frames => cases frame <;> rfl

theorem resume_addAtRule (start : Span) (rule : Rule) :
    (state.addAtRule start rule).resume before bytes =
      (state.resume before bytes).addAtRule (start.shift bytes) rule := by
  simp only [addAtRule, inDeclarations_resume]
  split
  · split
    · rename_i haborted
      rw [if_pos (show (state.resume before bytes).aborted = true from haborted)]
    · rename_i haborted
      rw [if_neg (show ¬(state.resume before bytes).aborted = true from haborted)]
      exact resume_report ..
  · exact resume_addRule ..

/-! ### Closing blocks -/

theorem resume_closeFrame :
    state.closeFrame.resume before bytes = (state.resume before bytes).closeFrame := by
  rcases state with ⟨limit, rules, frames, segment, diagnostics, aborted⟩
  cases frames with
  | nil => rfl
  | cons frame frames =>
    cases frame with
    | style selectors span declarations =>
      cases selectors with
      | ok selectors => exact resume_addRule ..
      | error error => exact resume_report ..
    | group start name prelude rules => exact resume_addAtRule ..
    | descriptors start name prelude declarations => exact resume_addAtRule ..

theorem resume_closeFrames (atEnd : Option Span) (frames : List Frame) :
    (closeFrames atEnd frames state).resume before bytes =
      closeFrames (atEnd.map (Span.shift bytes)) (frames.map (Frame.shift bytes))
        (state.resume before bytes) := by
  induction frames generalizing state with
  | nil => rfl
  | cons frame frames ih =>
    cases atEnd with
    | none =>
      simp only [closeFrames, List.map_cons, Option.map_none, ih, resume_closeFrame]
    | some span =>
      simp only [closeFrames, List.map_cons, Option.map_some, ih, resume_closeFrame,
        resume_report]

/-! ### Ending segments -/

theorem resume_reportUnmatched (start : Span) (segment : Segment) (stop : Span) :
    (state.reportUnmatched start segment stop).resume before bytes =
      (state.resume before bytes).reportUnmatched (start.shift bytes) (segment.shift bytes)
        (stop.shift bytes) := by
  have hunmatched : (segment.shift bytes).unmatched = segment.unmatched := rfl
  simp only [reportUnmatched, hunmatched]
  split
  · rw [resume_report, Segment.shift_span, Span.shift_join]
  · rfl

theorem readPrelude_shift (name : Text) (segment : Segment) :
    readPrelude name (segment.shift bytes).lexemes.toList =
      readPrelude name segment.lexemes.toList := by
  have hmoves := Lexeme.moves_shift bytes
  simp only [readPrelude, Segment.toList_shift, hmoves.media_map, hmoves.ofLexemes_map]

theorem resume_addStatement (start : Span) (name : Text) (segment : Segment) (stop : Span) :
    (state.addStatement start name segment stop).resume before bytes =
      (state.resume before bytes).addStatement (start.shift bytes) name (segment.shift bytes)
        (stop.shift bytes) := by
  simp only [addStatement, resume_addAtRule, resume_reportUnmatched, readPrelude_shift]

theorem resume_clear :
    resume { state with segment := none } before bytes =
      { state.resume before bytes with segment := none } := rfl

theorem resume_endSegment (purpose : Purpose) (segment : Segment) (stop : Span) :
    (state.endSegment purpose segment stop).resume before bytes =
      (state.resume before bytes).endSegment (purpose.shift bytes) (segment.shift bytes)
        (stop.shift bytes) := by
  have hfinish : (segment.shift bytes).finish = segment.finish.shift bytes := rfl
  have hunmatched : (segment.finish.shift bytes).unmatched = segment.finish.unmatched := rfl
  unfold endSegment
  cases purpose with
  | selector => simp only [Purpose.shift, hfinish, resume_report, Segment.shift_span, resume_clear]
  | atRule start name => simp only [Purpose.shift, hfinish, resume_addStatement, resume_clear]
  | declaration =>
    simp only [Purpose.shift, hfinish, hunmatched, Segment.toList_shift,
      (Lexeme.moves_shift bytes).declaration_map]
    split
    · rw [resume_addDeclaration, resume_clear]
    · rw [resume_report, resume_clear, Segment.shift_span]

/-! ### Opening blocks and giving up -/

theorem resume_abort (span : Span) :
    (state.abort span).resume before bytes =
      (state.resume before bytes).abort (span.shift bytes) := by
  have hreport := resume_report before bytes state span (.depthExceeded state.limit)
  have hlimit : (state.resume before bytes).limit = state.limit := rfl
  rw [abort, abort, hlimit, ← hreport]
  rfl

theorem resume_abortSegment (purpose : Purpose) (segment : Segment) (stop : Span) :
    (state.abortSegment purpose segment stop).resume before bytes =
      (state.resume before bytes).abortSegment (purpose.shift bytes) (segment.shift bytes)
        (stop.shift bytes) := by
  have hclose : ∀ state : State, (closeFrames none state.frames state).resume before bytes =
      closeFrames none (state.resume before bytes).frames (state.resume before bytes) :=
    fun state => resume_closeFrames before bytes state none state.frames
  cases purpose with
  | atRule start name =>
    simp only [abortSegment, Purpose.shift, hclose, resume_addStatement, resume_abort]
  | selector => simp only [abortSegment, Purpose.shift, hclose, resume_abort]
  | declaration => simp only [abortSegment, Purpose.shift, hclose, resume_abort]

theorem isTooDeep_resume (depth : Nat) :
    (state.resume before bytes).isTooDeep depth = state.isTooDeep depth := by
  simp [isTooDeep, resume]

theorem frame?_shift (purpose : Purpose) (segment : Segment) (stop : Span) :
    frame? (purpose.shift bytes) (segment.shift bytes) (stop.shift bytes) =
      (frame? purpose segment stop).map (Frame.shift bytes) := by
  have hunmatched : (segment.shift bytes).unmatched = segment.unmatched := rfl
  cases purpose with
  | selector =>
    simp only [frame?, Purpose.shift, hunmatched, Segment.shift_span, Segment.toList_shift,
      (Lexeme.moves_shift bytes).selectors_map, Option.map_some, Frame.shift]
  | atRule start name =>
    simp only [frame?, Purpose.shift, readPrelude_shift]
    split <;> rfl
  | declaration => rfl

theorem resume_atBlock (purpose : Purpose) (segment : Segment) (stop : Span) :
    (state.atBlock purpose segment stop).resume before bytes =
      (state.resume before bytes).atBlock (purpose.shift bytes) (segment.shift bytes)
        (stop.shift bytes) := by
  cases purpose with
  | atRule start name => exact resume_reportUnmatched ..
  | selector => rfl
  | declaration => rfl

theorem resume_openBlock (purpose : Purpose) (segment : Segment) (stop : Span) :
    (state.openBlock purpose segment stop).resume before bytes =
      (state.resume before bytes).openBlock (purpose.shift bytes) (segment.shift bytes)
        (stop.shift bytes) := by
  rw [openBlock_eq, openBlock_eq, isTooDeep_resume]
  split
  · rw [resume_closeFrames, resume_abort, resume_atBlock]
    rfl
  · rw [← resume_atBlock, frame?_shift]
    simp only [resume, List.map_append, Option.toList_map]

theorem resume_collect (purpose : Purpose) (segment : Segment) (lexeme : Lexeme) :
    (state.collect purpose segment lexeme).resume before bytes =
      (state.resume before bytes).collect (purpose.shift bytes) (segment.shift bytes)
        (lexeme.shift bytes) := by
  have htoken : (lexeme.shift bytes).token = lexeme.token := rfl
  have hstack : (segment.shift bytes).stack = segment.stack := rfl
  have hcurly : (segment.shift bytes).inCurly = segment.inCurly := rfl
  have hspan : (lexeme.shift bytes).span = lexeme.span.shift bytes := rfl
  have hends : (purpose.shift bytes).endsAtBlock = purpose.endsAtBlock ∧
      (purpose.shift bytes).endsAtSemicolon = purpose.endsAtSemicolon := by
    cases purpose <;> exact ⟨rfl, rfl⟩
  simp only [collect, htoken, hstack, hcurly, hends.1, hends.2, hspan]
  split
  · exact resume_openBlock ..
  split
  · exact resume_endSegment ..
  · simp only [extend, htoken, hstack, isTooDeep_resume]
    split
    · exact resume_abortSegment ..
    · simp only [resume, Option.map_some, Segment.shift_push]

/-! ### Steps -/

theorem resume_closeCurly (span : Span) :
    (state.closeCurly span).resume before bytes =
      (state.resume before bytes).closeCurly (span.shift bytes) := by
  have hempty : (state.resume before bytes).frames.isEmpty = state.frames.isEmpty := by
    simp [resume]
  simp only [closeCurly, hempty]
  split
  · exact resume_report ..
  · exact resume_closeFrame ..

theorem isIdle_resume (token : Token) :
    (state.resume before bytes).isIdle token = state.isIdle token := by
  have hempty : (state.resume before bytes).frames.isEmpty = state.frames.isEmpty := by
    simp [resume]
  simp only [isIdle, inDeclarations_resume, hempty]

theorem resume_begin (lexeme : Lexeme) :
    (state.begin lexeme).resume before bytes =
      (state.resume before bytes).begin (lexeme.shift bytes) := by
  have htoken : (lexeme.shift bytes).token = lexeme.token := rfl
  simp only [begin, isIdle_resume, htoken, inDeclarations_resume]
  split
  · rfl
  · split
    · exact resume_closeCurly ..
    · simp only [resume, Option.map_some, Segment.shift_empty]
      rfl
    · rw [resume_collect, Segment.shift_empty]
      split <;> rfl

theorem resume_noting (reading : Reading) :
    (state.noting reading).resume before bytes =
      (state.resume before bytes).noting (reading.shift bytes) := by
  simp only [noting, resume, Reading.diagnostic?_shift, Array.map_append, Array.append_assoc]
  cases reading.diagnostic? <;> simp

theorem resume_step (reading : Reading) :
    (state.step reading).resume before bytes =
      (state.resume before bytes).step (reading.shift bytes) := by
  have htoken : (reading.shift bytes).lexeme.token = reading.lexeme.token := rfl
  cases hgoes : state.aborted with
  | true =>
    have hgoes' : (state.resume before bytes).aborted = true := hgoes
    rw [step_of_aborted reading hgoes, step_of_aborted _ hgoes']
  | false =>
    have hgoes' : (state.resume before bytes).aborted = false := hgoes
    cases hsegment : state.segment with
    | none =>
      have hnone : (state.resume before bytes).segment = none := by simp [resume, hsegment]
      rw [step_of_segment_none reading hgoes hsegment, step_of_segment_none _ hgoes' hnone,
        resume_begin, resume_noting]
      rfl
    | some collected =>
      obtain ⟨purpose, segment⟩ := collected
      have hsome : (state.resume before bytes).segment =
          some (purpose.shift bytes, segment.shift bytes) := by simp [resume, hsegment]
      have hcurly : (segment.shift bytes).inCurly = segment.inCurly := rfl
      rw [step_of_segment_some reading hgoes hsegment, step_of_segment_some _ hgoes' hsome,
        htoken, hcurly]
      split
      · rw [resume_closeCurly, resume_endSegment, resume_noting]
        rfl
      · rw [resume_collect, resume_noting]
        rfl

theorem resume_foldl (readings : List Reading) :
    (readings.foldl step state).resume before bytes =
      (readings.map (Reading.shift bytes)).foldl step (state.resume before bytes) := by
  induction readings generalizing state with
  | nil => rfl
  | cons reading readings ih => rw [List.foldl_cons, ih, resume_step]; rfl

theorem resume_finish (place : Pos) :
    (state.finish place).resume before bytes =
      (state.resume before bytes).finish (place.shift bytes) := by
  have haborted : (state.resume before bytes).aborted = state.aborted := rfl
  have hclose : ∀ state : State,
      (closeFrames (some (.point place)) state.frames state).resume before bytes =
        closeFrames (some (.point (place.shift bytes))) (state.resume before bytes).frames
          (state.resume before bytes) :=
    fun state => resume_closeFrames before bytes state _ state.frames
  simp only [finish, haborted]
  split
  · rfl
  · rw [hclose]
    cases hsegment : state.segment with
    | none =>
      have hnone : (state.resume before bytes).segment = none := by simp [resume, hsegment]
      rw [hnone]
    | some collected =>
      obtain ⟨purpose, segment⟩ := collected
      have hsome : (state.resume before bytes).segment =
          some (purpose.shift bytes, segment.shift bytes) := by simp [resume, hsegment]
      rw [hsome]
      simp only [resume_endSegment, Span.shift_point]

end State

end Parser

end Css
