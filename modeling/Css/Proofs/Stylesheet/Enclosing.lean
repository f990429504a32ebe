import Css.Proofs.Stylesheet.Append
import Css.Proofs.Stylesheet.Unplaced
import Css.Proofs.Token.Scanned

/-!
# Reading inside a block of rules

A source inside a block of rules is read as on its own, one block deeper: the block stands below
every open one (`State.Encloses`), and each step keeps it there. What the two readings treat apart
are a closing bracket outside every block, which closes the block around, and the tokens `<!--` and
`-->`, which are blank only outside every block.
-/

namespace Css

namespace Parser.State

def Encloses (start : Span) (name : Text) (prelude : Prelude) (inner outer : State) : Prop :=
  ∃ noted, outer =
    { limit := inner.limit + 1
      rules := #[]
      frames := inner.frames ++ [.group start name prelude inner.rules]
      segment := inner.segment
      diagnostics := noted
      aborted := inner.aborted }

namespace Encloses

variable {start : Span} {name : Text} {prelude : Prelude} {inner outer : State}

theorem segment_eq (h : Encloses start name prelude inner outer) :
    outer.segment = inner.segment := by
  obtain ⟨noted, rfl⟩ := h
  rfl

theorem aborted_eq (h : Encloses start name prelude inner outer) :
    outer.aborted = inner.aborted := by
  obtain ⟨noted, rfl⟩ := h
  rfl

theorem inDeclarations_eq (h : Encloses start name prelude inner outer) :
    outer.inDeclarations = inner.inDeclarations := by
  obtain ⟨noted, rfl⟩ := h
  unfold inDeclarations
  cases inner.frames <;> rfl

theorem isTooDeep_eq (h : Encloses start name prelude inner outer) (depth : Nat) :
    outer.isTooDeep depth = inner.isTooDeep depth := by
  obtain ⟨noted, rfl⟩ := h
  simp only [isTooDeep, List.length_append, List.length_singleton]
  exact decide_eq_decide.2 (by omega)

/-! ### Adding what has been read -/

theorem report (h : Encloses start name prelude inner outer) (span span' : Span)
    (problem problem' : Problem) :
    Encloses start name prelude (inner.report span problem) (outer.report span' problem') := by
  obtain ⟨noted, rfl⟩ := h
  exact ⟨_, rfl⟩

theorem noting (h : Encloses start name prelude inner outer) (reading reading' : Reading) :
    Encloses start name prelude (inner.noting reading) (outer.noting reading') := by
  obtain ⟨noted, rfl⟩ := h
  exact ⟨_, rfl⟩

theorem clearSegment (h : Encloses start name prelude inner outer) :
    Encloses start name prelude { inner with segment := none }
      { outer with segment := none } := by
  obtain ⟨noted, rfl⟩ := h
  exact ⟨_, rfl⟩

theorem addDeclaration (h : Encloses start name prelude inner outer) (declaration : Declaration) :
    Encloses start name prelude (inner.addDeclaration declaration)
      (outer.addDeclaration declaration) := by
  obtain ⟨noted, rfl⟩ := h
  rcases inner with ⟨limit, rules, frames, segment, diagnostics, aborted⟩
  cases frames with
  | nil => exact ⟨_, rfl⟩
  | cons frame frames => cases frame <;> exact ⟨_, rfl⟩

theorem addRule (h : Encloses start name prelude inner outer) (rule : Rule) :
    Encloses start name prelude (inner.addRule rule) (outer.addRule rule) := by
  obtain ⟨noted, rfl⟩ := h
  rcases inner with ⟨limit, rules, frames, segment, diagnostics, aborted⟩
  cases frames with
  | nil => exact ⟨_, rfl⟩
  | cons frame frames => cases frame <;> exact ⟨_, rfl⟩

theorem addAtRule (h : Encloses start name prelude inner outer) (span : Span) (rule : Rule) :
    Encloses start name prelude (inner.addAtRule span rule) (outer.addAtRule span rule) := by
  unfold State.addAtRule
  rw [h.inDeclarations_eq, h.aborted_eq]
  split
  · split
    · exact h
    · exact h.report ..
  · exact h.addRule rule

/-! ### Segments and blocks -/

theorem closeFrame (h : Encloses start name prelude inner outer) (hopen : inner.frames ≠ []) :
    Encloses start name prelude inner.closeFrame outer.closeFrame := by
  obtain ⟨noted, rfl⟩ := h
  rcases inner with ⟨limit, rules, frames, segment, diagnostics, aborted⟩
  cases frames with
  | nil => exact absurd rfl hopen
  | cons frame frames =>
    have hrest : Encloses start name prelude ⟨limit, rules, frames, segment, diagnostics, aborted⟩
        ⟨limit + 1, #[], frames ++ [.group start name prelude rules], segment, noted, aborted⟩ :=
      ⟨noted, rfl⟩
    cases frame with
    | style selectors span declarations =>
      cases selectors with
      | ok selectors => exact hrest.addRule _
      | error error => exact hrest.report ..
    | group start' name' prelude' rules' => exact hrest.addAtRule ..
    | descriptors start' name' prelude' declarations => exact hrest.addAtRule ..

theorem reportUnmatched (h : Encloses start name prelude inner outer) (span : Span)
    (segment : Segment) (stop : Span) :
    Encloses start name prelude (inner.reportUnmatched span segment stop)
      (outer.reportUnmatched span segment stop) := by
  unfold State.reportUnmatched
  split
  · exact h.report ..
  · exact h

theorem endSegment (h : Encloses start name prelude inner outer) (purpose : Purpose)
    (segment : Segment) (stop : Span) :
    Encloses start name prelude (inner.endSegment purpose segment stop)
      (outer.endSegment purpose segment stop) := by
  unfold State.endSegment
  cases purpose with
  | selector => exact h.clearSegment.report ..
  | atRule span keyword => exact (h.clearSegment.reportUnmatched ..).addAtRule ..
  | declaration =>
    simp only
    split
    · exact h.clearSegment.addDeclaration _
    · exact h.clearSegment.report ..

theorem atBlock (h : Encloses start name prelude inner outer) (purpose : Purpose)
    (segment : Segment) (stop : Span) :
    Encloses start name prelude (inner.atBlock purpose segment stop)
      (outer.atBlock purpose segment stop) := by
  cases purpose with
  | atRule span keyword => exact h.clearSegment.reportUnmatched ..
  | selector => exact h.clearSegment
  | declaration => exact h.clearSegment

theorem openBlock (h : Encloses start name prelude inner outer) (purpose : Purpose)
    (segment : Segment) (stop : Span)
    (hgoes : (inner.openBlock purpose segment stop).aborted = false) :
    Encloses start name prelude (inner.openBlock purpose segment stop)
      (outer.openBlock purpose segment stop) := by
  cases hdeep : inner.isTooDeep 0 with
  | true =>
    rw [aborted_openBlock inner hdeep] at hgoes
    contradiction
  | false =>
    have hdeep' : outer.isTooDeep 0 = false := (h.isTooDeep_eq 0).trans hdeep
    have hframes : outer.frames = inner.frames ++ [.group start name prelude inner.rules] := by
      obtain ⟨noted, rfl⟩ := h
      rfl
    obtain ⟨noted, hblock⟩ := h.atBlock purpose segment stop
    simp only [openBlock_eq, hdeep, hdeep', Bool.false_eq_true, if_false]
    refine ⟨noted, ?_⟩
    simp only [hblock, hframes, rules_atBlock, List.append_assoc]

theorem collect (h : Encloses start name prelude inner outer) (purpose : Purpose)
    (segment : Segment) (lexeme : Lexeme)
    (hgoes : (inner.collect purpose segment lexeme).aborted = false) :
    Encloses start name prelude (inner.collect purpose segment lexeme)
      (outer.collect purpose segment lexeme) := by
  unfold State.collect at hgoes ⊢
  split
  · rename_i hopens
    rw [if_pos hopens] at hgoes
    exact h.openBlock _ _ _ hgoes
  · rename_i hopens
    rw [if_neg hopens] at hgoes
    split
    · exact h.endSegment ..
    · rename_i hends
      rw [if_neg hends] at hgoes
      have hdeep := h.isTooDeep_eq segment.stack.length
      unfold extend at hgoes ⊢
      rw [hdeep]
      split
      · rename_i hdeep
        rw [if_pos hdeep, aborted_abortSegment] at hgoes
        contradiction
      · obtain ⟨noted, rfl⟩ := h
        exact ⟨_, rfl⟩

/-! ### Steps -/

theorem closeCurly (h : Encloses start name prelude inner outer) (span : Span)
    (hopen : inner.frames ≠ []) :
    Encloses start name prelude (inner.closeCurly span) (outer.closeCurly span) := by
  have hinner : inner.frames.isEmpty = false := List.isEmpty_eq_false_iff.2 hopen
  have houter : outer.frames.isEmpty = false := by
    obtain ⟨noted, rfl⟩ := h
    simp
  rw [State.closeCurly, State.closeCurly, hinner, houter]
  exact h.closeFrame hopen

theorem isIdle_eq (h : Encloses start name prelude inner outer) {token : Token}
    (hcdo : token ≠ .cdo) (hcdc : token ≠ .cdc) : outer.isIdle token = inner.isIdle token := by
  simp only [isIdle, h.inDeclarations_eq, beq_eq_false_iff_ne.2 hcdo, beq_eq_false_iff_ne.2 hcdc,
    Bool.or_self, Bool.and_false]

theorem begin (h : Encloses start name prelude inner outer) (lexeme : Lexeme)
    (hcdo : lexeme.token ≠ .cdo) (hcdc : lexeme.token ≠ .cdc)
    (hopen : lexeme.token = .closing .curly → inner.frames ≠ [])
    (hgoes : (inner.begin lexeme).aborted = false) :
    Encloses start name prelude (inner.begin lexeme) (outer.begin lexeme) := by
  unfold State.begin at hgoes ⊢
  rw [h.isIdle_eq hcdo hcdc, h.inDeclarations_eq]
  split
  · exact h
  · rename_i hidle
    rw [if_neg hidle] at hgoes
    split
    · exact h.closeCurly _ (hopen ‹_›)
    · obtain ⟨noted, rfl⟩ := h
      exact ⟨_, rfl⟩
    · rename_i hclosing hkeyword
      refine h.collect _ _ _ ?_
      split at hgoes
      · exact absurd ‹_› hclosing
      · exact absurd ‹_› (hkeyword _)
      · exact hgoes

/-- One lexeme of a source whose brackets close in order, where reading goes on. -/
theorem step (h : Encloses start name prelude inner outer) {reading reading' : Reading}
    (hlexeme : reading'.lexeme = reading.lexeme) {stack behind : List Bracket}
    (htracks : Tracks inner stack) (hfollow : reading.lexeme.token.follow? stack = some behind)
    (hcdo : reading.lexeme.token ≠ .cdo) (hcdc : reading.lexeme.token ≠ .cdc)
    (hgoes : (inner.step reading).aborted = false) :
    Encloses start name prelude (inner.step reading) (outer.step reading') := by
  have hgoing := aborted_eq_false_of_step hgoes
  have hgoing' : outer.aborted = false := h.aborted_eq.trans hgoing
  have hnoting := h.noting reading reading'
  cases hsegment : inner.segment with
  | none =>
    rw [step_of_segment_none reading hgoing hsegment] at hgoes ⊢
    rw [step_of_segment_none reading' hgoing' (h.segment_eq.trans hsegment), hlexeme]
    exact hnoting.begin _ hcdo hcdc
      (fun htoken => htracks.frames_ne_nil (htoken ▸ hfollow) (by simp [hsegment])) hgoes
  | some collected =>
    obtain ⟨purpose, segment⟩ := collected
    rw [step_of_segment_some reading hgoing hsegment] at hgoes ⊢
    rw [step_of_segment_some reading' hgoing' (h.segment_eq.trans hsegment), hlexeme]
    split
    · rename_i hcloses
      obtain ⟨htoken, hflat⟩ := hcloses
      have hopen : inner.frames ≠ [] :=
        htracks.frames_ne_nil (htoken ▸ hfollow) (by simpa [hsegment] using hflat)
      apply (hnoting.endSegment ..).closeCurly
      apply List.length_pos_iff.1
      rw [length_frames_endSegment]
      exact List.length_pos_iff.2 hopen
    · rename_i hcloses
      rw [if_neg hcloses] at hgoes
      exact hnoting.collect _ _ _ hgoes

/-- A whole source whose brackets close in order. -/
theorem foldl (h : Encloses start name prelude inner outer) {readings readings' : List Reading}
    (hlexemes : readings'.map (·.lexeme) = readings.map (·.lexeme)) {stack : List Bracket}
    (htracks : Tracks inner stack)
    (hcloses : Lexeme.closesAll stack (readings.map (·.lexeme)) = true)
    (hnone : ∀ reading ∈ readings, reading.lexeme.token ≠ .cdo ∧ reading.lexeme.token ≠ .cdc)
    (hgoes : (readings.foldl State.step inner).aborted = false) :
    Encloses start name prelude (readings.foldl State.step inner)
      (readings'.foldl State.step outer) := by
  induction readings generalizing inner outer readings' stack with
  | nil =>
    obtain rfl := List.map_eq_nil_iff.1 hlexemes
    exact h
  | cons reading readings ih =>
    obtain ⟨reading', readings', rfl, hlexeme, hlexemes⟩ := List.map_eq_cons_iff.1 hlexemes
    obtain ⟨behind, hfollow, hbehind⟩ := Lexeme.closesAll_cons_iff.1 hcloses
    have hfirst : (inner.step reading).aborted = false := aborted_eq_false_of_foldl hgoes
    obtain ⟨hcdo, hcdc⟩ := hnone reading (List.mem_cons_self ..)
    exact ih (h.step hlexeme htracks hfollow hcdo hcdc hfirst) hlexemes
      (htracks.step hfollow hfirst) hbehind (fun reading hmem => hnone reading (.tail _ hmem)) hgoes

end Encloses

/-! ### The end of the source -/

variable {state : State}

namespace Encloses

variable {start : Span} {name : Text} {prelude : Prelude} {inner outer : State}

end Encloses

end Parser.State

namespace Stylesheet

open Css.Lexeme (unplaced)
open Css.Parser (State)

def opening (name : Text) : List Lexeme :=
  [⟨.atKeyword name, .point 0, '@' :: name⟩, ⟨.opening .curly, .point 0, ['{']⟩]

end Stylesheet

end Css
