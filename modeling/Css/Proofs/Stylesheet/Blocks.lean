import Css.Proofs.Selector.Nesting
import Css.Proofs.Stylesheet.Conditions
import Css.Proofs.Value.Nesting

/-!
# The nesting limit, blocks and function calls

A block opens only inside the limit, and a bracket is taken up by a segment only as far as the limit
leaves room inside the open blocks. Selectors and values are read from segments whose brackets are
closed by their own shapes. So the limit bounds how deep blocks nest in a style sheet, and how deep
function calls nest inside them.
-/

namespace Css

mutual

def Rule.blockDepth : Rule → Nat
  | .style _ _ => 1
  | .statement _ _ => 0
  | .group _ _ rules => Stylesheet.blockDepth rules + 1
  | .descriptors _ _ _ => 1

def Stylesheet.blockDepth : List Rule → Nat
  | [] => 0
  | rule :: rules => max rule.blockDepth (Stylesheet.blockDepth rules)

end

theorem Stylesheet.blockDepth_push (rules : Array Rule) (rule : Rule) :
    blockDepth (rules.push rule).toList = max (blockDepth rules.toList) rule.blockDepth := by
  rw [Array.toList_push]
  induction rules.toList with
  | nil => simp [blockDepth]
  | cons first rules ih => rw [List.cons_append, blockDepth, ih, blockDepth, Nat.max_assoc]

def Part.callDepth : Part → Nat
  | .selectors read => SelectorList.callDepth read
  | .prelude _ => 0
  | .declaration read => read.value.callDepth

namespace Parser

def Frame.blockDepth : Frame → Nat
  | group _ _ _ rules => Stylesheet.blockDepth rules.toList
  | _ => 0

def Frame.BlocksWithin (limit : Nat) : List Frame → Prop
  | [] => True
  | frame :: frames =>
    frame.blockDepth + (frames.length + 1) ≤ limit ∧ Frame.BlocksWithin limit frames

theorem Frame.BlocksWithin.length_le {limit : Nat} {frames : List Frame}
    (h : BlocksWithin limit frames) : frames.length ≤ limit := by
  cases frames with
  | nil => exact Nat.zero_le _
  | cons frame frames =>
    have := h.1
    rw [List.length_cons]
    omega

namespace State

structure BlocksWithin (state : State) : Prop where
  rules : Stylesheet.blockDepth state.rules.toList ≤ state.limit
  frames : Frame.BlocksWithin state.limit state.frames

namespace BlocksWithin

variable {state : State}

theorem of_eq {after : State} (h : state.BlocksWithin) (hlimit : after.limit = state.limit)
    (hrules : after.rules = state.rules) (hframes : after.frames = state.frames) :
    after.BlocksWithin :=
  ⟨by rw [hlimit, hrules]; exact h.rules, by rw [hlimit, hframes]; exact h.frames⟩

theorem addDeclaration (h : state.BlocksWithin) (declaration : Declaration) :
    (state.addDeclaration declaration).BlocksWithin := by
  have hframes := h.frames
  unfold State.addDeclaration
  split
  · rename_i heq
    rw [heq] at hframes
    exact ⟨h.rules, hframes⟩
  · rename_i heq
    rw [heq] at hframes
    exact ⟨h.rules, hframes⟩
  · exact h

theorem addRule (h : state.BlocksWithin) {rule : Rule}
    (hrule : rule.blockDepth + state.frames.length ≤ state.limit) :
    (state.addRule rule).BlocksWithin := by
  have hframes := h.frames
  unfold State.addRule
  split
  · rename_i heq
    rw [heq, List.length_nil, Nat.add_zero] at hrule
    refine ⟨?_, h.frames⟩
    simp only [Stylesheet.blockDepth_push]
    exact Nat.max_le.2 ⟨h.rules, hrule⟩
  · rename_i heq
    rw [heq] at hframes hrule
    obtain ⟨hinner, hrest⟩ := hframes
    refine ⟨h.rules, ?_, hrest⟩
    rw [List.length_cons] at hrule
    simp only [Frame.blockDepth, Stylesheet.blockDepth_push] at hinner ⊢
    omega
  · exact h

theorem addAtRule (h : state.BlocksWithin) (start : Span) {rule : Rule}
    (hrule : rule.blockDepth + state.frames.length ≤ state.limit) :
    (state.addAtRule start rule).BlocksWithin := by
  unfold State.addAtRule
  split
  · split
    · exact h
    · exact h.of_eq rfl rfl rfl
  · exact h.addRule hrule

theorem closeFrame (h : state.BlocksWithin) : state.closeFrame.BlocksWithin := by
  have hframes := h.frames
  unfold State.closeFrame
  split
  · exact h
  · rename_i frame frames heq
    rw [heq] at hframes
    obtain ⟨hframe, hrest⟩ := hframes
    have hbehind : BlocksWithin { state with frames } := ⟨h.rules, hrest⟩
    split
    · simp only [Frame.blockDepth] at hframe
      exact hbehind.addRule (by simp only [Rule.blockDepth]; omega)
    · exact hbehind.of_eq rfl rfl rfl
    · simp only [Frame.blockDepth] at hframe
      exact hbehind.addAtRule _ (by simp only [Rule.blockDepth]; omega)
    · simp only [Frame.blockDepth] at hframe
      exact hbehind.addAtRule _ (by simp only [Rule.blockDepth]; omega)

theorem closeFrames (h : state.BlocksWithin) (atEnd : Option Span) (frames : List Frame) :
    (State.closeFrames atEnd frames state).BlocksWithin := by
  induction frames generalizing state with
  | nil => exact h
  | cons frame frames ih =>
    cases atEnd with
    | none => exact ih h.closeFrame
    | some span => exact ih (closeFrame (h.of_eq rfl rfl rfl))

/-! ### Segments and blocks -/

theorem addStatement (h : state.BlocksWithin) (start : Span) (name : Text) (segment : Segment)
    (stop : Span) : (state.addStatement start name segment stop).BlocksWithin := by
  have hreport : (state.reportUnmatched start segment stop).BlocksWithin :=
    h.of_eq (limit_reportUnmatched ..) (rules_reportUnmatched ..) (frames_reportUnmatched ..)
  refine hreport.addAtRule start ?_
  rw [Rule.blockDepth, Nat.zero_add]
  exact hreport.frames.length_le

theorem endSegment (h : state.BlocksWithin) (purpose : Purpose) (segment : Segment)
    (stop : Span) : (state.endSegment purpose segment stop).BlocksWithin := by
  have hclear : BlocksWithin { state with segment := none } := h.of_eq rfl rfl rfl
  unfold State.endSegment
  cases purpose with
  | selector => exact hclear.of_eq rfl rfl rfl
  | atRule start name => exact hclear.addStatement start name _ stop
  | declaration =>
    simp only
    split
    · exact hclear.addDeclaration _
    · exact hclear.of_eq rfl rfl rfl

theorem blockDepth_frame? {purpose : Purpose} {segment : Segment} {stop : Span} {frame : Frame}
    (h : frame? purpose segment stop = some frame) : frame.blockDepth = 0 := by
  cases purpose with
  | selector =>
    obtain rfl := Option.some.inj h
    rfl
  | atRule start name =>
    simp only [frame?] at h
    split at h
    · obtain rfl := Option.some.inj h
      rfl
    · obtain rfl := Option.some.inj h
      rfl
  | declaration => exact absurd h (by simp [frame?])

theorem openBlock (h : state.BlocksWithin) (purpose : Purpose) (segment : Segment)
    (stop : Span) : (state.openBlock purpose segment stop).BlocksWithin := by
  have hblock : (state.atBlock purpose segment stop).BlocksWithin :=
    h.of_eq (limit_atBlock ..) (rules_atBlock ..) (frames_atBlock ..)
  have habort : ((state.atBlock purpose segment stop).abort stop).BlocksWithin :=
    hblock.of_eq rfl rfl rfl
  rw [openBlock_eq]
  split
  · exact habort.closeFrames ..
  · rename_i hdeep
    have hroom : state.frames.length + 1 ≤ state.limit := by simpa [isTooDeep] using hdeep
    have hlimit := limit_atBlock state purpose segment stop
    refine ⟨hblock.rules, ?_⟩
    cases hframe : frame? purpose segment stop with
    | none =>
      simp only [hlimit]
      exact h.frames
    | some frame =>
      simp only [hlimit]
      refine ⟨?_, h.frames⟩
      rw [blockDepth_frame? hframe, Nat.zero_add]
      exact hroom

theorem abortSegment (h : state.BlocksWithin) (purpose : Purpose) (segment : Segment)
    (stop : Span) : (state.abortSegment purpose segment stop).BlocksWithin := by
  have habort : (state.abort stop).BlocksWithin := h.of_eq rfl rfl rfl
  unfold State.abortSegment
  cases purpose with
  | atRule start name => exact (habort.addStatement start name segment stop).closeFrames ..
  | selector => exact habort.closeFrames ..
  | declaration => exact habort.closeFrames ..

theorem closeCurly (h : state.BlocksWithin) (span : Span) :
    (state.closeCurly span).BlocksWithin := by
  unfold State.closeCurly
  split
  · exact h.of_eq rfl rfl rfl
  · exact h.closeFrame

end BlocksWithin

/-! ### What a segment gives -/

/-- A segment whose brackets count as many by shape as without a look at their shape gives a part
whose calls nest no deeper than the room it had. -/
theorem gives_callDepth {limit depth : Nat} {purpose : Purpose} {segment : Segment}
    (hdepth : depth ≤ limit)
    (hcounts : segment.unmatched = none → segment.Counts (limit - depth)) :
    purpose.Gives (fun depth part => part.callDepth + depth ≤ limit) depth segment := by
  cases purpose with
  | selector =>
    intro hunmatched selectors hparse
    have hcalls := SelectorList.callDepth_of_parse hparse
    have hdeepest := (hcounts hunmatched).deepest
    show SelectorList.callDepth selectors + depth ≤ limit
    omega
  | atRule start name =>
    show (Part.prelude _).callDepth + depth ≤ limit
    rw [Part.callDepth, Nat.zero_add]
    exact hdepth
  | declaration =>
    intro declaration hparse
    have hunmatched := Option.isNone_iff_eq_none.1 (Declaration.isClosed_of_parse hparse)
    have hcalls := Declaration.callDepth_value hparse
    have hdeepest := (hcounts hunmatched).deepest
    show declaration.value.callDepth + depth ≤ limit
    omega

structure Limited (state : State) : Prop where
  parts : state.EachPart fun depth part => part.callDepth + depth ≤ state.limit
  blocks : state.BlocksWithin
  counts : ∀ purpose segment, state.segment = some (purpose, segment) →
    segment.unmatched = none → segment.Counts (state.limit - state.frames.length)

namespace Limited

variable {state : State}

theorem of_segment_none {limit : Nat} (hlimit : state.limit = limit)
    (hparts : state.EachPart fun depth part => part.callDepth + depth ≤ limit)
    (hblocks : state.BlocksWithin) (hsegment : state.segment = none) : state.Limited := by
  subst hlimit
  exact ⟨hparts, hblocks, by simp [hsegment]⟩

theorem noting (h : state.Limited) (reading : Reading) : (state.noting reading).Limited :=
  ⟨h.parts.of_eq rfl rfl, h.blocks.of_eq rfl rfl rfl, h.counts⟩

theorem closeCurly (h : state.Limited) (hsegment : state.segment = none) (span : Span) :
    (state.closeCurly span).Limited := by
  refine of_segment_none (limit_closeCurly ..) (h.parts.closeCurly span)
    (h.blocks.closeCurly span) ?_
  unfold State.closeCurly
  split
  · exact hsegment
  · rw [segment_closeFrame]
    exact hsegment

variable {purpose : Purpose} {segment : Segment}

theorem endSegment (h : state.Limited)
    (hcounts : segment.unmatched = none → segment.Counts (state.limit - state.frames.length))
    (stop : Span) : (state.endSegment purpose segment stop).Limited := by
  have hgives : purpose.Gives (fun depth part => part.callDepth + depth ≤ state.limit)
      state.frames.length segment.finish := by
    refine gives_callDepth h.blocks.frames.length_le fun hfinish => ?_
    have hcounts := hcounts (Segment.noteUnmatched_eq_none hfinish).1
    exact ⟨hcounts.behind, hcounts.deepest⟩
  exact of_segment_none (limit_endSegment ..) (h.parts.endSegment hgives stop)
    (h.blocks.endSegment ..) (segment_endSegment ..)

theorem openBlock (h : state.Limited)
    (hcounts : segment.unmatched = none → segment.Counts (state.limit - state.frames.length))
    (stop : Span) : (state.openBlock purpose segment stop).Limited := by
  have hgives : purpose.Gives (fun depth part => part.callDepth + depth ≤ state.limit)
      state.frames.length segment := gives_callDepth h.blocks.frames.length_le hcounts
  have hparts := h.parts.openBlock hgives stop
  have hblocks := h.blocks.openBlock purpose segment stop
  rw [openBlock_eq] at hparts hblocks ⊢
  split at hparts
  · rename_i hdeep
    rw [if_pos hdeep] at hblocks ⊢
    exact of_segment_none (by simp) hparts hblocks (by simp [State.abort])
  · rename_i hdeep
    rw [if_neg hdeep] at hblocks ⊢
    exact of_segment_none (limit_atBlock ..) hparts hblocks (segment_atBlock ..)

theorem collect (h : state.Limited)
    (hcounts : segment.unmatched = none → segment.Counts (state.limit - state.frames.length))
    (lexeme : Lexeme) : (state.collect purpose segment lexeme).Limited := by
  unfold State.collect
  split
  · exact h.openBlock hcounts _
  split
  · exact h.endSegment hcounts _
  unfold extend
  split
  · exact of_segment_none (limit_abortSegment ..)
      (h.parts.abortSegment (gives_callDepth h.blocks.frames.length_le hcounts) _)
      (h.blocks.abortSegment ..) (segment_abortSegment ..)
  · rename_i hshallow
    refine ⟨h.parts.of_eq rfl rfl, h.blocks.of_eq rfl rfl rfl, ?_⟩
    rintro purpose' segment' heq hunmatched
    obtain ⟨rfl, rfl⟩ := Prod.mk.inj (Option.some.inj heq)
    refine (hcounts (Segment.unmatched_of_push hunmatched)).push ?_ hunmatched
    intro hbracket
    simp only [hbracket, Bool.true_and, isTooDeep, decide_eq_true_eq] at hshallow
    omega

theorem begin (h : state.Limited) (hsegment : state.segment = none) (lexeme : Lexeme) :
    (state.begin lexeme).Limited := by
  unfold State.begin
  split
  · exact h
  split
  · exact h.closeCurly hsegment _
  · refine ⟨h.parts.of_eq rfl rfl, h.blocks.of_eq rfl rfl rfl, ?_⟩
    rintro purpose segment heq -
    obtain ⟨-, rfl⟩ := Prod.mk.inj (Option.some.inj heq)
    exact Segment.counts_empty _
  · exact h.collect (fun _ => Segment.counts_empty _) lexeme

/-- One lexeme keeps what the limit bounds. -/
theorem step (h : state.Limited) (reading : Reading) : (state.step reading).Limited := by
  cases hgoes : state.aborted with
  | true => rwa [step_of_aborted reading hgoes]
  | false =>
    cases hsegment : state.segment with
    | none =>
      rw [step_of_segment_none reading hgoes hsegment]
      exact (h.noting reading).begin hsegment _
    | some collected =>
      obtain ⟨purpose, segment⟩ := collected
      have hcounts := h.counts purpose segment hsegment
      rw [step_of_segment_some reading hgoes hsegment]
      split
      · exact ((h.noting reading).endSegment hcounts _).closeCurly (segment_endSegment ..) _
      · exact (h.noting reading).collect hcounts _

theorem foldl (h : state.Limited) (readings : List Reading) :
    (readings.foldl State.step state).Limited := by
  induction readings generalizing state with
  | nil => exact h
  | cons reading readings ih => exact ih (h.step reading)

theorem finish (h : state.Limited) (place : Pos) :
    (state.finish place).EachPart (fun depth part => part.callDepth + depth ≤ state.limit) ∧
      Stylesheet.blockDepth (state.finish place).rules.toList ≤ state.limit := by
  have hclose : ∀ {behind : State}, behind.Limited → behind.limit = state.limit →
      (closeFrames (some (.point place)) behind.frames behind).EachPart
          (fun depth part => part.callDepth + depth ≤ state.limit) ∧
        Stylesheet.blockDepth
          (closeFrames (some (.point place)) behind.frames behind).rules.toList ≤ state.limit := by
    intro behind hbehind hlimit
    have hparts := hbehind.parts
    have hrules := (hbehind.blocks.closeFrames (some (.point place)) behind.frames).rules
    rw [limit_closeFrames, hlimit] at hrules
    rw [hlimit] at hparts
    exact ⟨hparts.closeFrames .., hrules⟩
  unfold State.finish
  split
  · exact ⟨h.parts, h.blocks.rules⟩
  cases hsegment : state.segment with
  | none => exact hclose h rfl
  | some collected =>
    obtain ⟨purpose, segment⟩ := collected
    exact hclose (h.endSegment (h.counts purpose segment hsegment) _) (limit_endSegment ..)

end Limited

theorem limited_initial (limit : Nat) : (initial limit).Limited :=
  Limited.of_segment_none rfl ⟨trivial, trivial⟩ ⟨Nat.zero_le _, trivial⟩ rfl

end State

end Parser

namespace Stylesheet

open Css.Parser (State)

/-- The limit bounds function calls inside the blocks of a style sheet, and these blocks. -/
theorem limited_parse (options : ParseOptions) (text : Text) :
    EachPart (fun depth part => part.callDepth + depth ≤ options.maxDepth) 0
        (parse options text).sheet ∧
      blockDepth (parse options text).sheet ≤ options.maxDepth := by
  have hlimit : (stateBehind options text).limit = options.maxDepth := State.limit_foldl ..
  have hlimited : (stateBehind options text).Limited := (State.limited_initial _).foldl _
  obtain ⟨hparts, hblocks⟩ := hlimited.finish (.ofPlace text.byteLength)
  rw [hlimit] at hparts hblocks
  exact ⟨hparts.rules, hblocks⟩

end Stylesheet

end Css
