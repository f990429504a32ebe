import Css.Proofs.Stylesheet.Steps

/-!
# Declarations in front of those of the first rule

What the first rule of a source already holds does not matter for how the source is read on. A state
that has more declarations in front of those of this rule keeps them there (`State.Leads`), while
the block of the rule is open and once it is closed.
-/

namespace Css.Parser

/-- Whether the outermost of some open blocks is that of a style rule, and other blocks differ in
the declarations only that this one has in front there. -/
inductive Frame.Lead (selectors : SelectorList) (front : List Declaration) :
    List Frame → List Frame → Prop
  | outermost (span span' : Span) (declarations : Array Declaration) :
    Lead selectors front [.style (.ok selectors) span declarations]
      [.style (.ok selectors) span' (front.toArray ++ declarations)]
  | inside (frame : Frame) {frames frames' : List Frame} (h : Lead selectors front frames frames') :
    Lead selectors front (frame :: frames) (frame :: frames')

namespace Frame.Lead

variable {selectors : SelectorList} {front : List Declaration} {frames frames' : List Frame}

theorem length_eq (h : Lead selectors front frames frames') : frames'.length = frames.length := by
  induction h with
  | outermost => rfl
  | inside frame _ ih => rw [List.length_cons, List.length_cons, ih]

theorem append (h : Lead selectors front frames frames') (opened : List Frame) :
    Lead selectors front (opened ++ frames) (opened ++ frames') := by
  induction opened with
  | nil => exact h
  | cons frame opened ih => exact .inside frame ih

/-- A block that is the only open one is that of the style rule. -/
theorem eq_style {frame : Frame} (h : Lead selectors front [frame] frames) :
    ∃ span declarations, frame = .style (.ok selectors) span declarations := by
  cases h with
  | outermost span span' declarations => exact ⟨span, declarations, rfl⟩
  | inside frame h => cases h

end Frame.Lead

namespace State

inductive Holds (selectors : SelectorList) (front : List Declaration) :
    List Frame → Array Rule → List Frame → Array Rule → Prop
  | opened {frames frames' : List Frame} (h : Frame.Lead selectors front frames frames') :
    Holds selectors front frames #[] frames' #[]
  | closed (frames : List Frame) (declarations : List Declaration) (rules : Array Rule) :
    Holds selectors front frames (#[.style selectors declarations] ++ rules) frames
      (#[.style selectors (front ++ declarations)] ++ rules)

namespace Holds

variable {selectors : SelectorList} {front : List Declaration} {frames frames' : List Frame}
  {rules rules' : Array Rule}

theorem length_frames (h : Holds selectors front frames rules frames' rules') :
    frames'.length = frames.length := by
  cases h with
  | opened h => exact h.length_eq
  | closed => rfl

theorem holdsDeclarations_head? (h : Holds selectors front frames rules frames' rules') :
    frames'.head?.map Frame.holdsDeclarations = frames.head?.map Frame.holdsDeclarations := by
  cases h with
  | opened h => cases h <;> rfl
  | closed => rfl

theorem append (h : Holds selectors front frames rules frames' rules') (opened : List Frame) :
    Holds selectors front (opened ++ frames) rules (opened ++ frames') rules' := by
  cases h with
  | opened h => exact .opened (h.append opened)
  | closed => exact .closed ..

/-- Where no rule has been read, the block of the first one is open. -/
theorem lead (h : Holds selectors front frames rules frames' rules') (hrules : rules = #[]) :
    Frame.Lead selectors front frames frames' := by
  cases h with
  | opened h => exact h
  | closed => simp at hrules

end Holds

/-- Whether the second state differs from the first, but for what was noted, in declarations that
its first rule has in front. -/
structure Leads (selectors : SelectorList) (front : List Declaration) (state state' : State) :
    Prop where
  limit : state'.limit = state.limit
  segment : state'.segment = state.segment
  aborted : state'.aborted = state.aborted
  content : Holds selectors front state.frames state.rules state'.frames state'.rules

namespace Leads

variable {selectors : SelectorList} {front : List Declaration} {state state' : State}

theorem length_frames (h : Leads selectors front state state') :
    state'.frames.length = state.frames.length := h.content.length_frames

theorem inDeclarations (h : Leads selectors front state state') :
    state'.inDeclarations = state.inDeclarations := by
  rw [State.inDeclarations, h.content.holdsDeclarations_head?, State.inDeclarations]

theorem isEmpty_frames (h : Leads selectors front state state') :
    state'.frames.isEmpty = state.frames.isEmpty := by
  rw [Bool.eq_iff_iff, List.isEmpty_iff_length_eq_zero, List.isEmpty_iff_length_eq_zero,
    h.length_frames]

theorem isTooDeep (h : Leads selectors front state state') (depth : Nat) :
    state'.isTooDeep depth = state.isTooDeep depth := by
  rw [State.isTooDeep, h.limit, h.length_frames, State.isTooDeep]

theorem isIdle (h : Leads selectors front state state') (token : Token) :
    state'.isIdle token = state.isIdle token := by
  rw [State.isIdle, h.inDeclarations, h.isEmpty_frames, State.isIdle]

/-! ### Adding what has been read -/

theorem report (h : Leads selectors front state state') (span span' : Span)
    (problem problem' : Problem) :
    Leads selectors front (state.report span problem) (state'.report span' problem') :=
  ⟨h.limit, h.segment, h.aborted, h.content⟩

theorem noting (h : Leads selectors front state state') (reading : Reading) :
    Leads selectors front (state.noting reading) (state'.noting reading) :=
  ⟨h.limit, h.segment, h.aborted, h.content⟩

theorem withSegment (h : Leads selectors front state state') (segment : Option (Purpose × Segment)) :
    Leads selectors front { state with segment } { state' with segment } :=
  ⟨h.limit, rfl, h.aborted, h.content⟩

theorem addDeclaration (h : Leads selectors front state state') (declaration : Declaration) :
    Leads selectors front (state.addDeclaration declaration) (state'.addDeclaration declaration) := by
  rcases state with ⟨limit, rules, frames, segment, diagnostics, aborted⟩
  rcases state' with ⟨limit', rules', frames', segment', diagnostics', aborted'⟩
  obtain ⟨hlimit, hsegment, haborted, hcontent⟩ := h
  cases hcontent with
  | opened h =>
    cases h with
    | outermost span span' declarations =>
      refine ⟨hlimit, hsegment, haborted, .opened ?_⟩
      show Frame.Lead selectors front _ [.style _ _ ((front.toArray ++ declarations).push declaration)]
      rw [← Array.append_push]
      exact .outermost ..
    | inside frame h =>
      cases frame <;> exact ⟨hlimit, hsegment, haborted, .opened (.inside _ h)⟩
  | closed =>
    cases frames with
    | nil => exact ⟨hlimit, hsegment, haborted, .closed ..⟩
    | cons frame frames => cases frame <;> exact ⟨hlimit, hsegment, haborted, .closed ..⟩

theorem addRule (h : Leads selectors front state state') (rule : Rule) :
    Leads selectors front (state.addRule rule) (state'.addRule rule) := by
  rcases state with ⟨limit, rules, frames, segment, diagnostics, aborted⟩
  rcases state' with ⟨limit', rules', frames', segment', diagnostics', aborted'⟩
  obtain ⟨hlimit, hsegment, haborted, hcontent⟩ := h
  cases hcontent with
  | opened h =>
    cases h with
    | outermost => exact ⟨hlimit, hsegment, haborted, .opened (.outermost ..)⟩
    | inside frame h =>
      cases frame <;> exact ⟨hlimit, hsegment, haborted, .opened (.inside _ h)⟩
  | closed declarations rules =>
    cases frames with
    | nil =>
      refine ⟨hlimit, hsegment, haborted, ?_⟩
      show Holds selectors front [] ((#[_] ++ rules).push rule) [] ((#[_] ++ rules).push rule)
      rw [← Array.append_push, ← Array.append_push]
      exact .closed ..
    | cons frame frames => cases frame <;> exact ⟨hlimit, hsegment, haborted, .closed ..⟩

theorem addAtRule (h : Leads selectors front state state') (start : Span) (rule : Rule) :
    Leads selectors front (state.addAtRule start rule) (state'.addAtRule start rule) := by
  unfold State.addAtRule
  rw [h.inDeclarations, h.aborted]
  split
  · split
    · exact h
    · exact h.report ..
  · exact h.addRule rule

/-! ### Closing blocks -/

theorem closeFrame (h : Leads selectors front state state') :
    Leads selectors front state.closeFrame state'.closeFrame := by
  rcases state with ⟨limit, rules, frames, segment, diagnostics, aborted⟩
  rcases state' with ⟨limit', rules', frames', segment', diagnostics', aborted'⟩
  obtain ⟨hlimit, hsegment, haborted, hcontent⟩ := h
  -- closing a block inside the others adds to what is around it
  have hinside : ∀ (frame : Frame) {frames frames' : List Frame} {rules rules' : Array Rule},
      Holds selectors front frames rules frames' rules' →
      Leads selectors front
        (State.closeFrame ⟨limit, rules, frame :: frames, segment, diagnostics, aborted⟩)
        (State.closeFrame ⟨limit', rules', frame :: frames', segment', diagnostics', aborted'⟩) := by
    intro frame frames frames' rules rules' hcontent
    have hrest : Leads selectors front ⟨limit, rules, frames, segment, diagnostics, aborted⟩
        ⟨limit', rules', frames', segment', diagnostics', aborted'⟩ :=
      ⟨hlimit, hsegment, haborted, hcontent⟩
    cases frame with
    | style selectors span declarations =>
      cases selectors with
      | ok selectors => exact hrest.addRule _
      | error error => exact hrest.report ..
    | group start name prelude rules => exact hrest.addAtRule ..
    | descriptors start name prelude declarations => exact hrest.addAtRule ..
  cases hcontent with
  | opened h =>
    cases h with
    | outermost span span' declarations =>
      refine ⟨hlimit, hsegment, haborted, ?_⟩
      show Holds selectors front [] #[.style selectors declarations.toList] []
        #[.style selectors (front.toArray ++ declarations).toList]
      rw [Array.toList_append]
      exact .closed [] declarations.toList #[]
    | inside frame h => exact hinside frame (.opened h)
  | closed declarations rules =>
    cases frames with
    | nil => exact ⟨hlimit, hsegment, haborted, .closed ..⟩
    | cons frame frames => exact hinside frame (.closed ..)

theorem closeFrames (h : Leads selectors front state state') (atEnd : Option Span)
    {frames frames' : List Frame} (hlength : frames'.length = frames.length) :
    Leads selectors front (State.closeFrames atEnd frames state)
      (State.closeFrames atEnd frames' state') := by
  induction frames generalizing frames' state state' with
  | nil =>
    obtain rfl := List.length_eq_zero_iff.1 hlength
    exact h
  | cons frame frames ih =>
    obtain ⟨frame', frames', rfl⟩ := List.exists_cons_of_length_eq_add_one hlength
    have hrest : frames'.length = frames.length := Nat.succ.inj hlength
    cases atEnd with
    | none => exact ih h.closeFrame hrest
    | some span => exact ih (h.report ..).closeFrame hrest

/-! ### Segments and blocks -/

theorem reportUnmatched (h : Leads selectors front state state') (start : Span) (segment : Segment)
    (stop : Span) : Leads selectors front (state.reportUnmatched start segment stop)
      (state'.reportUnmatched start segment stop) := by
  unfold State.reportUnmatched
  split
  · exact h.report ..
  · exact h

theorem addStatement (h : Leads selectors front state state') (start : Span) (name : Text)
    (segment : Segment) (stop : Span) :
    Leads selectors front (state.addStatement start name segment stop)
      (state'.addStatement start name segment stop) :=
  (h.reportUnmatched ..).addAtRule ..

theorem endSegment (h : Leads selectors front state state') (purpose : Purpose) (segment : Segment)
    (stop : Span) : Leads selectors front (state.endSegment purpose segment stop)
      (state'.endSegment purpose segment stop) := by
  have hclear := h.withSegment none
  unfold State.endSegment
  cases purpose with
  | selector => exact hclear.report ..
  | atRule start name => exact hclear.addStatement ..
  | declaration =>
    simp only
    split
    · exact hclear.addDeclaration _
    · exact hclear.report ..

theorem abort (h : Leads selectors front state state') (span : Span) :
    Leads selectors front (state.abort span) (state'.abort span) :=
  ⟨h.limit, rfl, rfl, h.content⟩

theorem abortSegment (h : Leads selectors front state state') (purpose : Purpose) (segment : Segment)
    (stop : Span) : Leads selectors front (state.abortSegment purpose segment stop)
      (state'.abortSegment purpose segment stop) := by
  have habort := h.abort stop
  unfold State.abortSegment
  cases purpose with
  | selector => exact habort.closeFrames _ habort.length_frames
  | atRule start name =>
    have hstatement := habort.addStatement start name segment stop
    exact hstatement.closeFrames _ hstatement.length_frames
  | declaration => exact habort.closeFrames _ habort.length_frames

theorem openBlock (h : Leads selectors front state state') (purpose : Purpose) (segment : Segment)
    (stop : Span) : Leads selectors front (state.openBlock purpose segment stop)
      (state'.openBlock purpose segment stop) := by
  have hblock : Leads selectors front (state.atBlock purpose segment stop)
      (state'.atBlock purpose segment stop) := by
    cases purpose with
    | atRule start name => exact (h.withSegment none).reportUnmatched ..
    | selector => exact h.withSegment none
    | declaration => exact h.withSegment none
  rw [openBlock_eq, openBlock_eq, h.isTooDeep]
  split
  · exact (hblock.abort stop).closeFrames _ h.length_frames
  · refine ⟨hblock.limit, hblock.segment, hblock.aborted, ?_⟩
    show Holds selectors front _ (state.atBlock purpose segment stop).rules _
      (state'.atBlock purpose segment stop).rules
    rw [rules_atBlock, rules_atBlock]
    exact h.content.append _

theorem collect (h : Leads selectors front state state') (purpose : Purpose) (segment : Segment)
    (lexeme : Lexeme) : Leads selectors front (state.collect purpose segment lexeme)
      (state'.collect purpose segment lexeme) := by
  unfold State.collect
  split
  · exact h.openBlock ..
  split
  · exact h.endSegment ..
  · unfold extend
    rw [h.isTooDeep]
    split
    · exact h.abortSegment ..
    · exact h.withSegment _

/-! ### Steps -/

theorem closeCurly (h : Leads selectors front state state') (span : Span) :
    Leads selectors front (state.closeCurly span) (state'.closeCurly span) := by
  unfold State.closeCurly
  rw [h.isEmpty_frames]
  split
  · exact h.report ..
  · exact h.closeFrame

theorem begin (h : Leads selectors front state state') (lexeme : Lexeme) :
    Leads selectors front (state.begin lexeme) (state'.begin lexeme) := by
  unfold State.begin
  rw [h.isIdle, h.inDeclarations]
  split
  · exact h
  split
  · exact h.closeCurly _
  · exact h.withSegment _
  · exact h.collect ..

theorem step (h : Leads selectors front state state') (reading : Reading) :
    Leads selectors front (state.step reading) (state'.step reading) := by
  cases hgoes : state.aborted with
  | true =>
    rw [step_of_aborted reading hgoes, step_of_aborted reading (h.aborted.trans hgoes)]
    exact h
  | false =>
    have hgoes' := h.aborted.trans hgoes
    cases hsegment : state.segment with
    | none =>
      rw [step_of_segment_none reading hgoes hsegment,
        step_of_segment_none reading hgoes' (h.segment.trans hsegment)]
      exact (h.noting reading).begin _
    | some collected =>
      obtain ⟨purpose, segment⟩ := collected
      rw [step_of_segment_some reading hgoes hsegment,
        step_of_segment_some reading hgoes' (h.segment.trans hsegment)]
      split
      · exact ((h.noting reading).endSegment ..).closeCurly _
      · exact (h.noting reading).collect ..

theorem foldl (h : Leads selectors front state state') (readings : List Reading) :
    Leads selectors front (readings.foldl State.step state) (readings.foldl State.step state') := by
  induction readings generalizing state state' with
  | nil => exact h
  | cons reading readings ih => exact ih (h.step reading)

/-! ### The end of the source -/

theorem finish (h : Leads selectors front state state') (place : Pos) :
    Leads selectors front (state.finish place) (state'.finish place) := by
  unfold State.finish
  rw [h.aborted, h.segment]
  split
  · exact h
  cases state.segment with
  | none => exact h.closeFrames _ h.length_frames
  | some collected =>
    obtain ⟨purpose, segment⟩ := collected
    have hend := h.endSegment purpose segment (.point place)
    exact hend.closeFrames _ hend.length_frames

end Leads

end State

end Css.Parser
