import Css.Proofs.Stylesheet.Segment
import Css.Proofs.Stylesheet.Steps

/-!
# Places of diagnostics

Every span that the parser notes is put together from spans of lexemes and the end of the source.
So what holds of those and is kept when two spans are joined holds of every diagnostic.
-/

namespace Css

variable {within : Span → Prop}

namespace Segment

def IsWithin (within : Span → Prop) (segment : Segment) : Prop :=
  ∀ lexeme ∈ segment.lexemes, within lexeme.span

theorem isWithin_empty : empty.IsWithin within := by
  intro lexeme hmem
  simp [empty] at hmem

theorem IsWithin.push {segment : Segment} {lexeme : Lexeme} (h : segment.IsWithin within)
    (hlexeme : within lexeme.span) : (segment.push lexeme).IsWithin within := by
  intro member hmem
  rw [lexemes_push, Array.mem_push] at hmem
  obtain hmem | rfl := hmem
  · exact h member hmem
  · exact hlexeme

theorem IsWithin.finish {segment : Segment} (h : segment.IsWithin within) :
    segment.finish.IsWithin within := h

theorem IsWithin.span {segment : Segment} (h : segment.IsWithin within)
    (hjoin : ∀ left right, within left → within right → within (left.join right))
    {fallback : Span} (hfallback : within fallback) : within (segment.span fallback) := by
  unfold Segment.span
  split
  · rename_i first last hfirst hlast
    exact hjoin _ _ (h first (Array.mem_of_getElem? hfirst)) (h last (Array.mem_of_back? hlast))
  · exact hfallback

end Segment

namespace Parser

def Frame.IsWithin (within : Span → Prop) : Frame → Prop
  | style _ span _ => within span
  | group start .. => within start
  | descriptors start .. => within start

def Purpose.IsWithin (within : Span → Prop) : Purpose → Prop
  | atRule start _ => within start
  | _ => True

theorem State.isWithin_frame?
    (hjoin : ∀ left right, within left → within right → within (left.join right))
    {purpose : Purpose} {segment : Segment} {stop : Span} {frame : Frame}
    (hpurpose : purpose.IsWithin within) (hsegment : segment.IsWithin within)
    (hstop : within stop) (h : State.frame? purpose segment stop = some frame) :
    frame.IsWithin within := by
  cases purpose with
  | selector =>
    obtain rfl := Option.some.inj h
    exact hsegment.span hjoin hstop
  | atRule start name =>
    simp only [State.frame?] at h
    split at h <;> (obtain rfl := Option.some.inj h; exact hpurpose)
  | declaration => exact absurd h (by simp [State.frame?])

namespace State

structure IsWithin (within : Span → Prop) (state : State) : Prop where
  diagnostics : ∀ diagnostic ∈ state.diagnostics, within diagnostic.span
  frames : ∀ frame ∈ state.frames, frame.IsWithin within
  segment : ∀ purpose segment, state.segment = some (purpose, segment) →
    purpose.IsWithin within ∧ segment.IsWithin within

namespace IsWithin

variable {state : State}

theorem report (h : state.IsWithin within) {span : Span} (hspan : within span)
    (problem : Problem) : (state.report span problem).IsWithin within := by
  refine ⟨fun diagnostic hmem => ?_, h.frames, h.segment⟩
  rw [State.report, Array.mem_push] at hmem
  obtain hmem | rfl := hmem
  · exact h.diagnostics diagnostic hmem
  · exact hspan

theorem addDeclaration (h : state.IsWithin within) (declaration : Declaration) :
    (state.addDeclaration declaration).IsWithin within := by
  have hframes := h.frames
  unfold State.addDeclaration
  split
  · rename_i heq
    rw [heq, List.forall_mem_cons] at hframes
    exact ⟨h.diagnostics, List.forall_mem_cons.2 ⟨hframes.1, hframes.2⟩, h.segment⟩
  · rename_i heq
    rw [heq, List.forall_mem_cons] at hframes
    exact ⟨h.diagnostics, List.forall_mem_cons.2 ⟨hframes.1, hframes.2⟩, h.segment⟩
  · exact h

theorem addRule (h : state.IsWithin within) (rule : Rule) :
    (state.addRule rule).IsWithin within := by
  have hframes := h.frames
  unfold State.addRule
  split
  · exact ⟨h.diagnostics, h.frames, h.segment⟩
  · rename_i heq
    rw [heq, List.forall_mem_cons] at hframes
    exact ⟨h.diagnostics, List.forall_mem_cons.2 ⟨hframes.1, hframes.2⟩, h.segment⟩
  · exact h

theorem addAtRule (h : state.IsWithin within) {start : Span} (hstart : within start)
    (rule : Rule) : (state.addAtRule start rule).IsWithin within := by
  unfold State.addAtRule
  split
  · split
    · exact h
    · exact h.report hstart _
  · exact h.addRule rule

theorem closeFrame (h : state.IsWithin within) : state.closeFrame.IsWithin within := by
  have hframes := h.frames
  unfold State.closeFrame
  split
  · exact h
  · rename_i frame frames heq
    rw [heq, List.forall_mem_cons] at hframes
    obtain ⟨hframe, hframes⟩ := hframes
    have hrest : IsWithin within { state with frames } := ⟨h.diagnostics, hframes, h.segment⟩
    split
    · exact hrest.addRule _
    · exact hrest.report hframe _
    · exact hrest.addAtRule hframe _
    · exact hrest.addAtRule hframe _

theorem closeFrames (h : state.IsWithin within) {atEnd : Option Span}
    (hend : ∀ span ∈ atEnd, within span) (frames : List Frame) :
    (State.closeFrames atEnd frames state).IsWithin within := by
  induction frames generalizing state with
  | nil => exact h
  | cons frame frames ih =>
    cases atEnd with
    | none => exact ih h.closeFrame
    | some span => exact ih (h.report (hend span rfl) _).closeFrame

/-! ### Segments and blocks -/

variable (hjoin : ∀ left right, within left → within right → within (left.join right))
include hjoin

theorem reportUnmatched (h : state.IsWithin within) {start stop : Span} {segment : Segment}
    (hstart : within start) (hsegment : segment.IsWithin within) (hstop : within stop) :
    (state.reportUnmatched start segment stop).IsWithin within := by
  unfold State.reportUnmatched
  split
  · exact h.report (hjoin _ _ hstart (hsegment.span hjoin hstop)) _
  · exact h

theorem addStatement (h : state.IsWithin within) {start stop : Span} {segment : Segment}
    (hstart : within start) (hsegment : segment.IsWithin within) (hstop : within stop)
    (name : Text) : (state.addStatement start name segment stop).IsWithin within :=
  (h.reportUnmatched hjoin hstart hsegment hstop).addAtRule hstart _

omit hjoin in
theorem clear (h : state.IsWithin within) : IsWithin within { state with segment := none } :=
  ⟨h.diagnostics, h.frames, by rintro _ _ ⟨⟩⟩

theorem endSegment (h : state.IsWithin within) {purpose : Purpose} {segment : Segment}
    {stop : Span} (hpurpose : purpose.IsWithin within) (hsegment : segment.IsWithin within)
    (hstop : within stop) : (state.endSegment purpose segment stop).IsWithin within := by
  unfold State.endSegment
  cases purpose with
  | selector => exact h.clear.report (hsegment.finish.span hjoin hstop) _
  | atRule start name => exact h.clear.addStatement hjoin hpurpose hsegment.finish hstop name
  | declaration =>
    simp only
    split
    · exact h.clear.addDeclaration _
    · exact h.clear.report (hsegment.finish.span hjoin hstop) _

omit hjoin in
theorem abort (h : state.IsWithin within) {span : Span} (hspan : within span) :
    (state.abort span).IsWithin within :=
  ⟨(h.report hspan _).diagnostics, h.frames, by rintro _ _ ⟨⟩⟩

theorem abortSegment (h : state.IsWithin within) {purpose : Purpose} {segment : Segment}
    {stop : Span} (hpurpose : purpose.IsWithin within) (hsegment : segment.IsWithin within)
    (hstop : within stop) : (state.abortSegment purpose segment stop).IsWithin within := by
  have hnone : ∀ span ∈ (none : Option Span), within span := by rintro _ ⟨⟩
  unfold State.abortSegment
  cases purpose with
  | atRule start name =>
    exact ((h.abort hstop).addStatement hjoin hpurpose hsegment hstop name).closeFrames hnone _
  | selector => exact (h.abort hstop).closeFrames hnone _
  | declaration => exact (h.abort hstop).closeFrames hnone _

theorem atBlock (h : state.IsWithin within) {purpose : Purpose} {segment : Segment}
    {stop : Span} (hpurpose : purpose.IsWithin within) (hsegment : segment.IsWithin within)
    (hstop : within stop) : (state.atBlock purpose segment stop).IsWithin within := by
  cases purpose with
  | atRule start name => exact h.clear.reportUnmatched hjoin hpurpose hsegment hstop
  | selector => exact h.clear
  | declaration => exact h.clear

theorem openBlock (h : state.IsWithin within) {purpose : Purpose} {segment : Segment}
    {stop : Span} (hpurpose : purpose.IsWithin within) (hsegment : segment.IsWithin within)
    (hstop : within stop) : (state.openBlock purpose segment stop).IsWithin within := by
  have hblock := h.atBlock hjoin hpurpose hsegment hstop
  rw [openBlock_eq]
  split
  · exact (hblock.abort hstop).closeFrames (by rintro _ ⟨⟩) _
  · refine ⟨hblock.diagnostics, ?_, hblock.segment⟩
    intro frame hmem
    obtain hmem | hmem := List.mem_append.1 hmem
    · exact isWithin_frame? hjoin hpurpose hsegment hstop (Option.mem_toList.1 hmem)
    · exact h.frames frame hmem

theorem collect (h : state.IsWithin within) {purpose : Purpose} {segment : Segment}
    {lexeme : Lexeme} (hpurpose : purpose.IsWithin within) (hsegment : segment.IsWithin within)
    (hlexeme : within lexeme.span) : (state.collect purpose segment lexeme).IsWithin within := by
  unfold State.collect
  split
  · exact h.openBlock hjoin hpurpose hsegment hlexeme
  split
  · exact h.endSegment hjoin hpurpose hsegment hlexeme
  · unfold extend
    split
    · exact h.abortSegment hjoin hpurpose hsegment hlexeme
    · refine ⟨h.diagnostics, h.frames, ?_⟩
      rintro purpose' segment' heq
      obtain ⟨rfl, rfl⟩ := Prod.mk.inj (Option.some.inj heq)
      exact ⟨hpurpose, hsegment.push hlexeme⟩

/-! ### Steps -/

omit hjoin in
theorem noting (h : state.IsWithin within) {reading : Reading}
    (hreading : within reading.lexeme.span) : (state.noting reading).IsWithin within := by
  refine ⟨fun diagnostic hmem => ?_, h.frames, h.segment⟩
  obtain hmem | hmem := Array.mem_append.1 hmem
  · exact h.diagnostics diagnostic hmem
  · obtain ⟨problem, -, rfl⟩ : ∃ problem, reading.problem = some problem ∧
        ⟨reading.lexeme.span, problem⟩ = diagnostic := by
      simpa [Reading.diagnostic?] using hmem
    exact hreading

omit hjoin in
theorem closeCurly (h : state.IsWithin within) {span : Span} (hspan : within span) :
    (state.closeCurly span).IsWithin within := by
  unfold State.closeCurly
  split
  · exact h.report hspan _
  · exact h.closeFrame

theorem begin (h : state.IsWithin within) {lexeme : Lexeme} (hlexeme : within lexeme.span) :
    (state.begin lexeme).IsWithin within := by
  unfold State.begin
  split
  · exact h
  · split
    · exact h.closeCurly hlexeme
    · refine ⟨h.diagnostics, h.frames, ?_⟩
      rintro purpose segment heq
      obtain ⟨rfl, rfl⟩ := Prod.mk.inj (Option.some.inj heq)
      exact ⟨hlexeme, Segment.isWithin_empty⟩
    · refine h.collect hjoin ?_ Segment.isWithin_empty hlexeme
      split <;> trivial

theorem step (h : state.IsWithin within) {reading : Reading}
    (hreading : within reading.lexeme.span) : (state.step reading).IsWithin within := by
  cases hgoes : state.aborted with
  | true => rwa [step_of_aborted reading hgoes]
  | false =>
    have hnoting := h.noting hreading
    cases hsegment : state.segment with
    | none =>
      rw [step_of_segment_none reading hgoes hsegment]
      exact hnoting.begin hjoin hreading
    | some collected =>
      obtain ⟨purpose, segment⟩ := collected
      obtain ⟨hpurpose, hlexemes⟩ := h.segment _ _ hsegment
      rw [step_of_segment_some reading hgoes hsegment]
      split
      · exact (hnoting.endSegment hjoin hpurpose hlexemes hreading).closeCurly hreading
      · exact hnoting.collect hjoin hpurpose hlexemes hreading

theorem foldl (h : state.IsWithin within) {readings : List Reading}
    (hreadings : ∀ reading ∈ readings, within reading.lexeme.span) :
    (readings.foldl State.step state).IsWithin within := by
  induction readings generalizing state with
  | nil => exact h
  | cons reading readings ih =>
    rw [List.forall_mem_cons] at hreadings
    exact ih (h.step hjoin hreadings.1) hreadings.2

theorem finish (h : state.IsWithin within) {place : Pos} (hend : within (.point place)) :
    (state.finish place).IsWithin within := by
  have hstop : ∀ span ∈ some (Span.point place), within span := by
    rintro _ ⟨⟩
    exact hend
  unfold State.finish
  split
  · exact h
  · simp only
    split
    · rename_i purpose segment hsegment
      obtain ⟨hpurpose, hlexemes⟩ := h.segment _ _ hsegment
      exact (h.endSegment hjoin hpurpose hlexemes hend).closeFrames hstop _
    · exact h.closeFrames hstop _

end IsWithin

theorem isWithin_initial (limit : Nat) : (initial limit).IsWithin within :=
  ⟨by simp [initial], by simp [initial], by simp [initial]⟩

end State

end Parser

end Css
