import Css.Proofs.Stylesheet.Append
import Css.Proofs.Token.Faults
import Css.Tokenizer

/-!
# Sources in which nothing is wrong

As long as nothing is wrong, the brackets open in a source are those of the segment that is being
collected and around them one curly bracket for each open block (`follow?_step`). Whatever leaves
another bracket open, or closes one out of order, is noted: at once, at the end of the segment, or
where the block closes whose selectors it stands in. So a source without diagnostics closes every
bracket by its own shape, and no token of it was cut short.
-/

namespace Css

namespace Parser

def Frame.isRead : Frame → Bool
  | style (.error _) _ _ => false
  | _ => true

namespace State

structure Sound (state : State) : Prop where
  aborted : state.aborted = false
  diagnostics : state.diagnostics = #[]
  frames : state.frames.all Frame.isRead = true

structure Clean (state : State) : Prop extends state.Sound where
  segment : ∀ purpose segment, state.segment = some (purpose, segment) → segment.unmatched = none

def openBrackets (state : State) : List Bracket :=
  (state.segment.map (·.2.stack)).getD [] ++ List.replicate state.frames.length .curly

theorem openBrackets_of_segment_none {state : State} (h : state.segment = none) :
    state.openBrackets = List.replicate state.frames.length .curly := by
  rw [openBrackets, h]
  rfl

theorem Keeps.diagnostics_eq_empty {before after : State} (h : Keeps before after)
    (hafter : after.diagnostics = #[]) : before.diagnostics = #[] := by
  obtain ⟨more, hmore⟩ := h
  rw [hmore] at hafter
  exact (Array.append_eq_empty_iff.1 hafter).1

theorem diagnostics_report_ne (state : State) (span : Span) (problem : Problem) :
    (state.report span problem).diagnostics ≠ #[] := Array.push_ne_empty

variable {state : State}

/-! ### Blocks -/

theorem all_isRead_addRule (rule : Rule) :
    (state.addRule rule).frames.all Frame.isRead = state.frames.all Frame.isRead := by
  unfold addRule
  split <;> simp [*, Frame.isRead]

theorem all_isRead_addAtRule (start : Span) (rule : Rule) :
    (state.addAtRule start rule).frames.all Frame.isRead = state.frames.all Frame.isRead := by
  unfold addAtRule
  split
  · split <;> rfl
  · exact all_isRead_addRule rule

theorem all_isRead_addDeclaration (declaration : Declaration) :
    (state.addDeclaration declaration).frames.all Frame.isRead =
      state.frames.all Frame.isRead := by
  unfold addDeclaration
  split
  · rename_i selectors _ _ _ heq
    rw [heq]
    cases selectors <;> rfl
  · rename_i heq
    rw [heq]
    rfl
  · rfl

theorem Sound.of_closeFrame (h : state.closeFrame.Sound) : state.Sound := by
  refine ⟨(aborted_closeFrame state).symm.trans h.aborted,
    (Reports.closeFrame state).keeps.diagnostics_eq_empty h.diagnostics, ?_⟩
  have hdiagnostics := h.diagnostics
  have hread := h.frames
  unfold closeFrame at hdiagnostics hread
  split at hread
  · exact hread
  · rename_i frame frames heq
    rw [heq, List.all_cons, Bool.and_eq_true]
    rw [heq] at hdiagnostics
    split at hread
    · rw [all_isRead_addRule] at hread
      exact ⟨rfl, hread⟩
    · exact absurd hdiagnostics (diagnostics_report_ne _ _ _)
    · rw [all_isRead_addAtRule] at hread
      exact ⟨rfl, hread⟩
    · rw [all_isRead_addAtRule] at hread
      exact ⟨rfl, hread⟩

/-- A curly bracket between segments closes a block. -/
theorem Sound.of_closeCurly {span : Span} (h : (state.closeCurly span).Sound) :
    state.Sound ∧ 0 < state.frames.length := by
  unfold closeCurly at h
  split at h
  · exact absurd h.diagnostics (diagnostics_report_ne _ _ _)
  · rename_i hopen
    exact ⟨h.of_closeFrame, by simpa [List.length_pos_iff] using hopen⟩

theorem follow?_closeCurly {span : Span} (hsegment : state.segment = none)
    (h : (state.closeCurly span).Sound) :
    (Token.closing .curly).follow? (List.replicate state.frames.length .curly) =
      some (state.closeCurly span).openBrackets := by
  obtain ⟨-, hpos⟩ := h.of_closeCurly
  have hopen : state.frames.isEmpty = false := by simpa [List.length_pos_iff] using hpos
  obtain ⟨n, hn⟩ := Nat.exists_eq_succ_of_ne_zero (Nat.ne_of_gt hpos)
  rw [closeCurly, hopen, if_neg Bool.false_ne_true,
    openBrackets_of_segment_none (by rw [segment_closeFrame, hsegment]), length_frames_closeFrame,
    hn, List.replicate_succ]
  rfl

/-! ### Segments -/

/-- A segment that ends without a fault has closed all its brackets in order. -/
theorem Sound.of_endSegment {purpose : Purpose} {segment : Segment} {stop : Span}
    (h : (state.endSegment purpose segment stop).Sound) :
    state.Sound ∧ segment.unmatched = none ∧ segment.stack = [] := by
  have hdiagnostics := h.diagnostics
  have hread : state.frames.all Frame.isRead = true ∧ segment.finish.unmatched = none := by
    have hframes := h.frames
    unfold endSegment at hdiagnostics hframes
    cases purpose with
    | selector => exact absurd hdiagnostics (diagnostics_report_ne _ _ _)
    | atRule start name =>
      simp only [addStatement, all_isRead_addAtRule, frames_reportUnmatched] at hdiagnostics hframes
      refine ⟨hframes, ?_⟩
      cases hunmatched : segment.finish.unmatched with
      | none => rfl
      | some bracket =>
        have hreport := (Reports.addAtRule ..).keeps.diagnostics_eq_empty hdiagnostics
        rw [reportUnmatched, hunmatched] at hreport
        exact absurd hreport (diagnostics_report_ne _ _ _)
    | declaration =>
      simp only at hdiagnostics hframes
      split at hframes
      · rename_i declaration hparse
        rw [all_isRead_addDeclaration] at hframes
        exact ⟨hframes, Option.isNone_iff_eq_none.1 (Declaration.isClosed_of_parse hparse)⟩
      · rename_i error hparse
        rw [hparse] at hdiagnostics
        exact absurd hdiagnostics (diagnostics_report_ne _ _ _)
  obtain ⟨hframes, hfinish⟩ := hread
  obtain ⟨hunmatched, hhead⟩ := Segment.noteUnmatched_eq_none hfinish
  exact ⟨⟨(aborted_endSegment ..).symm.trans h.aborted,
    (Reports.endSegment ..).keeps.diagnostics_eq_empty hdiagnostics, hframes⟩, hunmatched,
    List.head?_eq_none_iff.1 hhead⟩

/-- A block that opens without a fault stands behind brackets that were closed in order. -/
theorem Sound.of_openBlock {purpose : Purpose} {segment : Segment} {stop : Span}
    (hends : purpose.endsAtBlock = true) (h : (state.openBlock purpose segment stop).Sound) :
    state.Sound ∧ segment.unmatched = none ∧
      (state.openBlock purpose segment stop).openBrackets =
        List.replicate (state.frames.length + 1) .curly := by
  obtain ⟨frame, hframe⟩ := Option.isSome_iff_exists.1
    ((isSome_frame? purpose segment stop).trans hends)
  have hopened := openBlock_of_aborted_eq_false state h.aborted
  rw [hopened, hframe] at h ⊢
  have hblock : (state.atBlock purpose segment stop).diagnostics = #[] := h.diagnostics
  have hframes := h.frames
  simp only [Option.toList_some, List.singleton_append, List.all_cons, Bool.and_eq_true] at hframes
  refine ⟨⟨(aborted_atBlock ..).symm.trans h.aborted,
    (Reports.atBlock ..).keeps.diagnostics_eq_empty hblock, hframes.2⟩, ?_, ?_⟩
  · cases hunmatched : segment.unmatched with
    | none => rfl
    | some bracket =>
      exfalso
      cases purpose with
      | selector =>
        simp only [frame?, hunmatched, Option.isSome_some, if_true, Option.some.injEq] at hframe
        rw [← hframe] at hframes
        exact absurd hframes.1 Bool.false_ne_true
      | atRule start name =>
        simp only [atBlock, reportUnmatched, hunmatched] at hblock
        exact diagnostics_report_ne _ _ _ hblock
      | declaration => contradiction
  · exact openBrackets_of_segment_none (segment_atBlock state purpose segment stop)

/-- A lexeme of a segment, where nothing is wrong behind it. -/
theorem Clean.of_collect {purpose : Purpose} {segment : Segment} {lexeme : Lexeme}
    (h : (state.collect purpose segment lexeme).Clean) :
    state.Sound ∧ segment.unmatched = none := by
  have haborted := h.aborted
  unfold collect at h haborted
  split at h
  · rename_i hopens
    obtain ⟨hsound, hunmatched, -⟩ := h.toSound.of_openBlock hopens.2.2
    exact ⟨hsound, hunmatched⟩
  · rename_i hopens
    rw [if_neg hopens] at haborted
    split at h
    · obtain ⟨hsound, hunmatched, -⟩ := h.toSound.of_endSegment
      exact ⟨hsound, hunmatched⟩
    · rename_i hends
      rw [if_neg hends] at haborted
      rw [extend_of_aborted_eq_false state haborted] at h
      exact ⟨⟨h.aborted, h.diagnostics, h.frames⟩, Segment.unmatched_of_push (h.segment _ _ rfl)⟩

theorem follow?_push_of_unmatched {segment : Segment} {lexeme : Lexeme} (outer : List Bracket)
    (h : (segment.push lexeme).unmatched = none) :
    lexeme.token.follow? (segment.stack ++ outer) =
      some ((segment.push lexeme).stack ++ outer) := by
  unfold Token.follow?
  cases hopens : lexeme.token.opens? with
  | some bracket => simp [Segment.push_of_opens? hopens]
  | none =>
    cases hcloses : lexeme.token.closes? with
    | none => simp [Segment.push_of_no_bracket hopens hcloses]
    | some bracket =>
      rw [Segment.push_eq_close hcloses] at h ⊢
      have hhead := (Segment.head?_of_close h).2
      obtain ⟨stack, hstack⟩ := List.head?_eq_some_iff.1 hhead
      rw [Segment.close, if_pos hhead]
      simp only at hstack ⊢
      rw [hstack]
      simp

theorem follow?_collect {purpose : Purpose} {segment : Segment} {lexeme : Lexeme}
    (h : (state.collect purpose segment lexeme).Clean) :
    lexeme.token.follow? (segment.stack ++ List.replicate state.frames.length .curly) =
      some (state.collect purpose segment lexeme).openBrackets := by
  have haborted := h.aborted
  unfold collect at h haborted ⊢
  split at h
  · rename_i hopens
    obtain ⟨htoken, hstack, hends⟩ := hopens
    obtain ⟨-, -, hbrackets⟩ := h.toSound.of_openBlock hends
    rw [if_pos ⟨htoken, hstack, hends⟩, hbrackets, htoken, hstack]
    rfl
  · rename_i hopens
    rw [if_neg hopens] at haborted ⊢
    split at h
    · rename_i hends
      obtain ⟨-, -, hstack⟩ := h.toSound.of_endSegment
      rw [if_pos hends, hends.1, hstack, openBrackets_of_segment_none (segment_endSegment ..),
        length_frames_endSegment]
      rfl
    · rename_i hends
      rw [if_neg hends] at haborted ⊢
      rw [extend_of_aborted_eq_false state haborted] at h ⊢
      exact follow?_push_of_unmatched _ (h.segment _ _ rfl)

/-! ### Steps -/

theorem Clean.of_begin {lexeme : Lexeme} (h : (state.begin lexeme).Clean) : state.Sound := by
  unfold begin at h
  split at h
  · exact h.toSound
  split at h
  · exact h.toSound.of_closeCurly.1
  · exact ⟨h.aborted, h.diagnostics, h.frames⟩
  · exact h.of_collect.1

theorem follow?_begin {lexeme : Lexeme} (hsegment : state.segment = none)
    (h : (state.begin lexeme).Clean) :
    lexeme.token.follow? (List.replicate state.frames.length .curly) =
      some (state.begin lexeme).openBrackets := by
  unfold begin at h ⊢
  split at h
  · rename_i hidle
    rw [if_pos hidle, openBrackets_of_segment_none hsegment]
    exact isIdle_follow? hidle _
  · rename_i hidle
    rw [if_neg hidle]
    split at h
    · rename_i htoken
      rw [htoken]
      exact follow?_closeCurly hsegment h.toSound
    · rename_i name htoken
      rw [htoken]
      rfl
    · exact follow?_collect h

theorem Sound.of_noting {reading : Reading} (h : (state.noting reading).Sound) :
    state.Sound ∧ reading.problem = none := by
  obtain ⟨hbefore, hnone⟩ := Array.append_eq_empty_iff.1 h.diagnostics
  refine ⟨⟨h.aborted, hbefore, h.frames⟩, ?_⟩
  cases hproblem : reading.problem with
  | none => rfl
  | some problem =>
    rw [Reading.diagnostic?, hproblem] at hnone
    simp at hnone

/-- Nothing was wrong where nothing is wrong one lexeme later. -/
theorem Clean.of_step {reading : Reading} (h : (state.step reading).Clean) :
    state.Clean ∧ reading.problem = none := by
  have hgoes := aborted_eq_false_of_step h.aborted
  cases hsegment : state.segment with
  | none =>
    rw [step_of_segment_none reading hgoes hsegment] at h
    obtain ⟨hsound, hproblem⟩ := Sound.of_noting h.of_begin
    exact ⟨⟨hsound, by simp [hsegment]⟩, hproblem⟩
  | some collected =>
    obtain ⟨purpose, segment⟩ := collected
    have hparts : (state.noting reading).Sound ∧ segment.unmatched = none := by
      rw [step_of_segment_some reading hgoes hsegment] at h
      split at h
      · obtain ⟨hsound, hunmatched, -⟩ := h.toSound.of_closeCurly.1.of_endSegment
        exact ⟨hsound, hunmatched⟩
      · exact h.of_collect
    obtain ⟨hsound, hproblem⟩ := Sound.of_noting hparts.1
    refine ⟨⟨hsound, ?_⟩, hproblem⟩
    rintro purpose' segment' heq
    obtain ⟨-, rfl⟩ := Prod.mk.inj (Option.some.inj (hsegment.symm.trans heq))
    exact hparts.2

/-- Where nothing is wrong a lexeme leaves open what the state behind it knows to be open. -/
theorem follow?_step {reading : Reading} (h : (state.step reading).Clean) :
    reading.lexeme.token.follow? state.openBrackets =
      some (state.step reading).openBrackets := by
  have hgoes := aborted_eq_false_of_step h.aborted
  cases hsegment : state.segment with
  | none =>
    rw [step_of_segment_none reading hgoes hsegment] at h ⊢
    rw [openBrackets_of_segment_none hsegment]
    exact @follow?_begin (state.noting reading) _ hsegment h
  | some collected =>
    obtain ⟨purpose, segment⟩ := collected
    have hbrackets : state.openBrackets =
        segment.stack ++ List.replicate state.frames.length .curly := by
      rw [openBrackets, hsegment]
      rfl
    rw [step_of_segment_some reading hgoes hsegment] at h ⊢
    rw [hbrackets]
    split at h
    · rename_i hcloses
      obtain ⟨-, -, hstack⟩ := h.toSound.of_closeCurly.1.of_endSegment
      have hfollow := follow?_closeCurly (segment_endSegment ..) h.toSound
      rw [length_frames_endSegment] at hfollow
      rw [if_pos hcloses, hcloses.1, hstack]
      exact hfollow
    · rename_i hcloses
      rw [if_neg hcloses]
      exact follow?_collect h

/-- A run at whose end nothing is wrong and no bracket is open closes its brackets in order. -/
theorem closesAll_of_clean {readings : List Reading}
    (hclean : (readings.foldl State.step state).Clean)
    (hclosed : (readings.foldl State.step state).openBrackets = []) :
    state.Clean ∧ Lexeme.closesAll state.openBrackets (readings.map (·.lexeme)) = true ∧
      ∀ reading ∈ readings, reading.problem = none := by
  induction readings generalizing state with
  | nil =>
    rw [show state.openBrackets = [] from hclosed]
    exact ⟨hclean, rfl, by simp⟩
  | cons reading readings ih =>
    obtain ⟨hfirst, hcloses, hproblems⟩ := ih hclean hclosed
    obtain ⟨hstate, hproblem⟩ := hfirst.of_step
    refine ⟨hstate, Lexeme.closesAll_cons_iff.2 ⟨_, follow?_step hfirst, hcloses⟩, ?_⟩
    exact List.forall_mem_cons.2 ⟨hproblem, hproblems⟩

theorem diagnostics_closeFrames_ne (span : Span) (frame : Frame) (frames : List Frame) :
    (closeFrames (some span) (frame :: frames) state).diagnostics ≠ #[] := by
  intro h
  have hreports :=
    (Reports.closeFrame (state.report span (.unbalancedBlock Bracket.curly.closing))).trans
      (Reports.closeFrames _ (some span) frames)
  exact diagnostics_report_ne _ _ _ (hreports.keeps.diagnostics_eq_empty h)

/-- A source that ends without a fault ends outside all brackets and blocks. -/
theorem Clean.of_finish {place : Pos} (hgoes : state.aborted = false)
    (h : (state.finish place).diagnostics = #[]) : state.Clean ∧ state.openBrackets = [] := by
  have hclosed : ∀ {behind : State}, behind.aborted = false →
      (closeFrames (some (.point place)) behind.frames behind).diagnostics = #[] →
        behind.Sound ∧ behind.frames = [] := by
    intro behind hbehind hdiagnostics
    cases hframes : behind.frames with
    | nil =>
      rw [hframes] at hdiagnostics
      exact ⟨⟨hbehind, hdiagnostics, by rw [hframes]; rfl⟩, rfl⟩
    | cons frame frames =>
      rw [hframes] at hdiagnostics
      exact absurd hdiagnostics (diagnostics_closeFrames_ne _ _ _)
  rw [State.finish, hgoes, if_neg Bool.false_ne_true] at h
  cases hsegment : state.segment with
  | none =>
    rw [hsegment] at h
    obtain ⟨hsound, hframes⟩ := hclosed hgoes h
    refine ⟨⟨hsound, by simp [hsegment]⟩, ?_⟩
    rw [openBrackets_of_segment_none hsegment, hframes]
    rfl
  | some collected =>
    obtain ⟨purpose, segment⟩ := collected
    simp only [hsegment] at h
    obtain ⟨hend, hframes⟩ := hclosed ((aborted_endSegment ..).trans hgoes) h
    obtain ⟨hsound, hunmatched, hstack⟩ := hend.of_endSegment
    refine ⟨⟨hsound, ?_⟩, ?_⟩
    · rintro purpose' segment' heq
      obtain ⟨-, rfl⟩ := Prod.mk.inj (Option.some.inj (hsegment.symm.trans heq))
      exact hunmatched
    · have hlength := length_frames_endSegment state purpose segment (.point place)
      rw [hframes, List.length_nil] at hlength
      rw [openBrackets, hsegment, ← hlength, Option.map_some, Option.getD_some, hstack]
      rfl

end State

end Parser

theorem Lexeme.closesAll_append_atEnd (stack : List Bracket) (lexemes : List Lexeme)
    (place : Nat) : closesAll stack (lexemes ++ [atEnd place]) = closesAll stack lexemes := by
  induction lexemes generalizing stack with
  | nil => rfl
  | cons lexeme lexemes ih =>
    simp only [List.cons_append, closesAll, ih]

namespace Stylesheet

/-- A source without diagnostics has its brackets closed in order and no token that was cut
short. -/
theorem isBalanced_of_no_diagnostics (options : ParseOptions) (text : Text)
    (h : (parse options text).diagnostics = []) :
    Lexeme.isBalanced (Tokenizer.ofText options.lineComments text).rest.1 = true ∧
      ∀ lexeme ∈ (Tokenizer.ofText options.lineComments text).rest.1,
        lexeme.token.isBad = false := by
  have hgoes : (stateBehind options text).aborted = false :=
    aborted_stateBehind (by rw [h]; simp)
  have hdiagnostics :
      ((stateBehind options text).finish (.ofPlace text.byteLength)).diagnostics = #[] := by
    rw [parse_eq] at h
    have hlength := congrArg List.length h
    simpa [Diagnostic.sort] using hlength
  obtain ⟨hclean, hclosed⟩ := Parser.State.Clean.of_finish hgoes hdiagnostics
  obtain ⟨-, hcloses, hproblems⟩ := Parser.State.closesAll_of_clean hclean hclosed
  have hrest : (Tokenizer.ofText options.lineComments text).rest.1 =
      (Reading.all options.lineComments 0 text).map (·.lexeme) ++
        [Lexeme.atEnd (0 + Text.byteLength (text.take text.length))] := rfl
  rw [hrest]
  refine ⟨?_, fun lexeme hmem => ?_⟩
  · rw [Lexeme.isBalanced, Lexeme.closesAll_append_atEnd]
    exact hcloses
  · obtain hmem | hmem := List.mem_append.1 hmem
    · obtain ⟨reading, hreading, rfl⟩ := List.mem_map.1 hmem
      have hreads := Reading.reads_of_mem_all hreading
      rw [hproblems reading hreading] at hreads
      exact hreads.isBad_eq_false
    · rw [List.mem_singleton.1 hmem]
      rfl

/-- Brackets of all shapes in a selector, a prelude and a value. -/
theorem isBalanced_of_no_diagnostics_media :
    Lexeme.isBalanced (Tokenizer.ofText true
        "@media (a)\x7b:is(b)[c]\x7bd:e((f),[g])\x7d\x7d".toList).rest.1 = true ∧
      ∀ lexeme ∈ (Tokenizer.ofText true
        "@media (a)\x7b:is(b)[c]\x7bd:e((f),[g])\x7d\x7d".toList).rest.1,
        lexeme.token.isBad = false :=
  isBalanced_of_no_diagnostics { } "@media (a)\x7b:is(b)[c]\x7bd:e((f),[g])\x7d\x7d".toList
    (by decide +kernel)

end Stylesheet

end Css
