import Css.Proofs.Stylesheet.Steps

/-!
# Diagnostics of the parser

Diagnostics are only ever added. Those that the parser adds are about how tokens stand together
(`State.Reports`); faults of single tokens come from the source, and one more is noted where the
nesting is too deep, which ends reading.
-/

namespace Css

def Problem.isStructural : Problem → Bool
  | unbalancedBlock _ => true
  | invalidDeclaration _ => true
  | invalidSelector _ => true
  | _ => false

namespace Parser

/-! ### Diagnostics stay -/

def State.Keeps (before after : State) : Prop :=
  ∃ more, after.diagnostics = before.diagnostics ++ more

/-- Whether a state has the diagnostics of an earlier one, and perhaps more about how tokens stand
together. -/
def State.Reports (before after : State) : Prop :=
  ∃ more, after.diagnostics = before.diagnostics ++ more ∧
    ∀ diagnostic ∈ more, diagnostic.problem.isStructural = true

namespace State.Reports

theorem of_eq {before after : State} (h : after.diagnostics = before.diagnostics) :
    Reports before after := ⟨#[], by rw [h, Array.append_empty], by simp⟩

theorem trans {first second third : State} (h : Reports first second)
    (h' : Reports second third) : Reports first third := by
  obtain ⟨more, hmore, hstructural⟩ := h
  obtain ⟨more', hmore', hstructural'⟩ := h'
  refine ⟨more ++ more', by rw [hmore', hmore, Array.append_assoc], fun diagnostic hmem => ?_⟩
  obtain hmem | hmem := Array.mem_append.1 hmem
  · exact hstructural diagnostic hmem
  · exact hstructural' diagnostic hmem

theorem keeps {before after : State} (h : Reports before after) : Keeps before after := by
  obtain ⟨more, hmore, -⟩ := h
  exact ⟨more, hmore⟩

variable (state : State)

theorem report (span : Span) {problem : Problem} (h : problem.isStructural = true) :
    Reports state (state.report span problem) := by
  refine ⟨#[⟨span, problem⟩], rfl, fun diagnostic hmem => ?_⟩
  obtain rfl := Array.mem_singleton.1 hmem
  exact h

theorem addDeclaration (declaration : Declaration) :
    Reports state (state.addDeclaration declaration) := by
  unfold State.addDeclaration
  split <;> exact of_eq rfl

theorem addRule (rule : Rule) : Reports state (state.addRule rule) := by
  unfold State.addRule
  split <;> exact of_eq rfl

theorem addAtRule (start : Span) (rule : Rule) : Reports state (state.addAtRule start rule) := by
  unfold State.addAtRule
  split
  · split
    · exact of_eq rfl
    · exact report _ _ rfl
  · exact addRule ..

theorem closeFrame : Reports state state.closeFrame := by
  unfold State.closeFrame
  split
  · exact of_eq rfl
  · split
    · exact addRule ..
    · exact report _ _ rfl
    · exact addAtRule ..
    · exact addAtRule ..

theorem closeFrames (atEnd : Option Span) (frames : List Frame) :
    Reports state (State.closeFrames atEnd frames state) := by
  induction frames generalizing state with
  | nil => exact of_eq rfl
  | cons frame frames ih =>
    cases atEnd with
    | none => exact (closeFrame state).trans (ih _)
    | some span => exact ((report _ _ rfl).trans (closeFrame _)).trans (ih _)

theorem reportUnmatched (start : Span) (segment : Segment) (stop : Span) :
    Reports state (state.reportUnmatched start segment stop) := by
  unfold State.reportUnmatched
  split
  · exact report _ _ rfl
  · exact of_eq rfl

theorem atBlock (purpose : Purpose) (segment : Segment) (stop : Span) :
    Reports state (state.atBlock purpose segment stop) := by
  cases purpose with
  | atRule start name => exact reportUnmatched ..
  | selector => exact of_eq rfl
  | declaration => exact of_eq rfl

theorem addStatement (start : Span) (name : Text) (segment : Segment) (stop : Span) :
    Reports state (state.addStatement start name segment stop) :=
  (reportUnmatched ..).trans (addAtRule ..)

theorem endSegment (purpose : Purpose) (segment : Segment) (stop : Span) :
    Reports state (state.endSegment purpose segment stop) := by
  have hclear : Reports state { state with segment := none } := of_eq rfl
  unfold State.endSegment
  cases purpose with
  | selector => exact hclear.trans (report _ _ rfl)
  | atRule start name => exact hclear.trans (addStatement ..)
  | declaration =>
    simp only
    split
    · exact hclear.trans (addDeclaration ..)
    · exact hclear.trans (report _ _ rfl)

theorem abortSegment (purpose : Purpose) (segment : Segment) (stop : Span) :
    Reports (state.abort stop) (state.abortSegment purpose segment stop) := by
  unfold State.abortSegment
  cases purpose with
  | atRule start name => exact (addStatement ..).trans (closeFrames ..)
  | selector => exact closeFrames ..
  | declaration => exact closeFrames ..

theorem closeCurly (span : Span) : Reports state (state.closeCurly span) := by
  unfold State.closeCurly
  split
  · exact report _ _ rfl
  · exact closeFrame ..

theorem finish (place : Pos) : Reports state (state.finish place) := by
  unfold State.finish
  split
  · exact of_eq rfl
  · simp only
    split
    · exact (endSegment ..).trans (closeFrames ..)
    · exact closeFrames ..

/-- A segment reports what it adds, except that the nesting may be too deep, which ends reading. -/
theorem collect {state : State} (hgoes : state.aborted = false) (purpose : Purpose)
    (segment : Segment) (lexeme : Lexeme) :
    (Reports state (state.collect purpose segment lexeme) ∧
        (state.collect purpose segment lexeme).aborted = false) ∨
      ∃ middle span, Reports state middle ∧
        Reports (middle.abort span) (state.collect purpose segment lexeme) ∧
          (state.collect purpose segment lexeme).aborted = true := by
  unfold State.collect
  split
  · rw [openBlock_eq]
    split
    · exact .inr ⟨_, _, atBlock .., closeFrames .., by rw [aborted_closeFrames]; rfl⟩
    · exact .inl ⟨atBlock .., (aborted_atBlock ..).trans hgoes⟩
  split
  · exact .inl ⟨endSegment .., (aborted_endSegment ..).trans hgoes⟩
  · unfold extend
    split
    · exact .inr ⟨state, _, of_eq rfl, abortSegment .., aborted_abortSegment ..⟩
    · exact .inl ⟨of_eq rfl, hgoes⟩

theorem begin {state : State} (hgoes : state.aborted = false) (lexeme : Lexeme) :
    (Reports state (state.begin lexeme) ∧ (state.begin lexeme).aborted = false) ∨
      ∃ middle span, Reports state middle ∧
        Reports (middle.abort span) (state.begin lexeme) ∧
          (state.begin lexeme).aborted = true := by
  unfold State.begin
  split
  · exact .inl ⟨of_eq rfl, hgoes⟩
  split
  · exact .inl ⟨closeCurly .., (aborted_closeCurly ..).trans hgoes⟩
  · exact .inl ⟨of_eq rfl, hgoes⟩
  · exact collect hgoes ..

/-- A step notes what is wrong with its token, and then what a segment notes. -/
theorem step {state : State} (hgoes : state.aborted = false) (reading : Reading) :
    (Reports (state.noting reading) (state.step reading) ∧
        (state.step reading).aborted = false) ∨
      ∃ middle span, Reports (state.noting reading) middle ∧
        Reports (middle.abort span) (state.step reading) ∧
          (state.step reading).aborted = true := by
  have hnoting : (state.noting reading).aborted = false := hgoes
  cases hsegment : state.segment with
  | none =>
    rw [step_of_segment_none reading hgoes hsegment]
    exact begin hnoting ..
  | some collected =>
    rw [step_of_segment_some reading hgoes hsegment]
    split
    · refine .inl ⟨(endSegment ..).trans (closeCurly ..), ?_⟩
      rw [aborted_closeCurly, aborted_endSegment, hnoting]
    · exact collect hnoting ..

end State.Reports

namespace State.Keeps

theorem of_eq {before after : State} (h : after.diagnostics = before.diagnostics) :
    Keeps before after := ⟨#[], by rw [h, Array.append_empty]⟩

theorem trans {first second third : State} (h : Keeps first second) (h' : Keeps second third) :
    Keeps first third := by
  obtain ⟨more, hmore⟩ := h
  obtain ⟨more', hmore'⟩ := h'
  exact ⟨more ++ more', by rw [hmore', hmore, Array.append_assoc]⟩

theorem mem {before after : State} (h : Keeps before after) {diagnostic : Diagnostic}
    (hmem : diagnostic ∈ before.diagnostics) : diagnostic ∈ after.diagnostics := by
  obtain ⟨more, hmore⟩ := h
  rw [hmore]
  exact Array.mem_append_left _ hmem

variable (state : State)

theorem abort (span : Span) : Keeps state (state.abort span) := ⟨#[_], rfl⟩

theorem openBlock (purpose : Purpose) (segment : Segment) (stop : Span) :
    Keeps (state.atBlock purpose segment stop) (state.openBlock purpose segment stop) := by
  rw [openBlock_eq]
  split
  · exact (abort ..).trans (Reports.closeFrames ..).keeps
  · exact of_eq rfl

theorem step (reading : Reading) : Keeps state (state.step reading) := by
  cases hgoes : state.aborted with
  | true =>
    rw [step_of_aborted reading hgoes]
    exact of_eq rfl
  | false =>
    have hnoting : Keeps state (state.noting reading) := ⟨_, rfl⟩
    obtain ⟨hstep, -⟩ | ⟨middle, span, hmiddle, hstep, -⟩ := Reports.step hgoes reading
    · exact hnoting.trans hstep.keeps
    · exact hnoting.trans (hmiddle.keeps.trans ((abort middle span).trans hstep.keeps))

theorem foldl (readings : List Reading) : Keeps state (readings.foldl State.step state) := by
  induction readings generalizing state with
  | nil => exact of_eq rfl
  | cons reading readings ih => exact (step state reading).trans (ih _)

end State.Keeps

/-! ### Giving up is noted -/

def State.Explains (state : State) : Prop :=
  state.aborted = true →
    ∃ diagnostic ∈ state.diagnostics, ∃ limit, diagnostic.problem = .depthExceeded limit

namespace State.Explains

theorem of_not_aborted {state : State} (h : state.aborted = false) : Explains state := by
  intro haborted
  rw [h] at haborted
  contradiction

theorem of_keeps_abort {state after : State} {span : Span} (h : Keeps (state.abort span) after) :
    Explains after := fun _ =>
  ⟨⟨span, .depthExceeded state.limit⟩, h.mem (by simp [State.abort, State.report]), state.limit, rfl⟩

theorem step {state : State} (h : Explains state) (reading : Reading) :
    Explains (state.step reading) := by
  cases hgoes : state.aborted with
  | true => rwa [step_of_aborted reading hgoes]
  | false =>
    obtain ⟨-, hstep⟩ | ⟨middle, span, -, hstep, -⟩ := Reports.step hgoes reading
    · exact of_not_aborted hstep
    · exact of_keeps_abort hstep.keeps

theorem foldl {state : State} (h : Explains state) (readings : List Reading) :
    Explains (readings.foldl State.step state) := by
  induction readings generalizing state with
  | nil => exact h
  | cons reading readings ih => exact ih (h.step reading)

end State.Explains

end Parser

end Css
