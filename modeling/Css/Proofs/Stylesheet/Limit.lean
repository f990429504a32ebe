import Css.Proofs.Stylesheet.Blocks
import Css.Proofs.Stylesheet.Clean

/-!
# When the nesting limit is passed

Reading ends where the limit is passed, and says so once (`depthFaults_foldl`). The blocks and
brackets that the parser counts are brackets that are open in the source, so a source whose brackets
close in order and nest within the limit is read to its end (`Tracks.aborted_step`).
-/

namespace Css

def Problem.isDepthExceeded : Problem → Bool
  | depthExceeded _ => true
  | _ => false

theorem Token.Reads.isDepthExceeded {token : Token} {problem : Problem}
    (h : token.Reads (some problem)) : problem.isDepthExceeded = false := by
  cases h <;> rfl

namespace Parser.State

/-! ### How often nesting too deep is noted -/

def depthFaults (state : State) : Nat :=
  state.diagnostics.countP (·.problem.isDepthExceeded)

variable (state : State)

theorem Reports.depthFaults_eq {before after : State} (h : Reports before after) :
    after.depthFaults = before.depthFaults := by
  obtain ⟨more, hmore, hstructural⟩ := h
  have hnone : more.countP (·.problem.isDepthExceeded) = 0 := by
    rw [Array.countP_eq_zero]
    intro diagnostic hmem
    have := hstructural diagnostic hmem
    cases hproblem : diagnostic.problem <;> simp_all [Problem.isStructural, Problem.isDepthExceeded]
  rw [depthFaults, hmore, Array.countP_append, hnone, Nat.add_zero, depthFaults]

@[simp]
theorem depthFaults_abort (span : Span) :
    (state.abort span).depthFaults = state.depthFaults + 1 := by
  simp [depthFaults, abort, report, Problem.isDepthExceeded]

theorem depthFaults_noting {reading : Reading}
    (h : reading.lexeme.token.Reads reading.problem) :
    (state.noting reading).depthFaults = state.depthFaults := by
  cases hproblem : reading.problem with
  | none => simp [depthFaults, noting, Reading.diagnostic?, hproblem]
  | some problem =>
    rw [hproblem] at h
    simp [depthFaults, noting, Reading.diagnostic?, hproblem, h.isDepthExceeded]

variable {state}

theorem depthFaults_step {reading : Reading}
    (hreads : reading.lexeme.token.Reads reading.problem)
    (h : state.depthFaults = state.aborted.toNat) :
    (state.step reading).depthFaults = (state.step reading).aborted.toNat := by
  cases hgoes : state.aborted with
  | true =>
    rw [step_of_aborted reading hgoes, h]
  | false =>
    have hnoting : (state.noting reading).depthFaults = 0 := by
      rw [depthFaults_noting state hreads, h, hgoes]
      rfl
    obtain ⟨hstep, haborted⟩ | ⟨middle, span, hmiddle, hstep, haborted⟩ :=
      Reports.step hgoes reading
    · rw [hstep.depthFaults_eq, hnoting, haborted]
      rfl
    · rw [hstep.depthFaults_eq, depthFaults_abort, hmiddle.depthFaults_eq, hnoting, haborted]
      rfl

/-- Nesting that is too deep is noted once if reading has ended, and else not at all. -/
theorem depthFaults_foldl {readings : List Reading}
    (hreads : ∀ reading ∈ readings, reading.lexeme.token.Reads reading.problem)
    (h : state.depthFaults = state.aborted.toNat) :
    (readings.foldl step state).depthFaults = (readings.foldl step state).aborted.toNat := by
  induction readings generalizing state with
  | nil => exact h
  | cons reading readings ih =>
    rw [List.forall_mem_cons] at hreads
    exact ih hreads.2 (depthFaults_step hreads.1 h)

/-! ### Sources within the limit -/

/-- Reading goes on where there is room for one more bracket. -/
theorem aborted_collect {purpose : Purpose} {segment : Segment} {lexeme : Lexeme}
    (hgoes : state.aborted = false)
    (hroom : lexeme.token.opens?.isSome = true →
      state.frames.length + segment.stack.length + 1 ≤ state.limit) :
    (state.collect purpose segment lexeme).aborted = false := by
  unfold collect
  split
  · rename_i hopens
    have hroom := hroom (by rw [hopens.1]; rfl)
    have hshallow : state.isTooDeep 0 = false := by
      simp only [isTooDeep, decide_eq_false_iff_not]
      omega
    rw [openBlock_eq, hshallow, if_neg Bool.false_ne_true]
    exact (aborted_atBlock ..).trans hgoes
  split
  · exact (aborted_endSegment ..).trans hgoes
  · unfold extend
    split
    · rename_i hdeep
      simp only [Bool.and_eq_true, isTooDeep, decide_eq_true_eq] at hdeep
      have := hroom hdeep.1
      omega
    · exact hgoes

/-- The brackets that the parser counts are open in the source. -/
theorem Tracks.length_le {stack : List Bracket} (h : Tracks state stack) :
    state.frames.length + ((state.segment.map (·.2.stack)).getD []).length ≤ stack.length := by
  obtain ⟨outer, rfl, hcount⟩ := h.brackets
  have := List.count_le_length (a := Bracket.curly) (l := outer)
  rw [List.length_append]
  omega

theorem Tracks.aborted_step {reading : Reading} {stack behind : List Bracket}
    (htracks : Tracks state stack) (hgoes : state.aborted = false)
    (hfollow : reading.lexeme.token.follow? stack = some behind)
    (hroom : behind.length ≤ state.limit) : (state.step reading).aborted = false := by
  have hlength := htracks.length_le
  have hnoting : (state.noting reading).aborted = false := hgoes
  have hopens : reading.lexeme.token.opens?.isSome = true → stack.length + 1 ≤ state.limit := by
    intro hsome
    obtain ⟨bracket, hbracket⟩ := Option.isSome_iff_exists.1 hsome
    simp only [Token.follow?, hbracket, Option.some.injEq] at hfollow
    rw [← hfollow] at hroom
    exact hroom
  have hstep := stepsTo reading hgoes
  generalize state.step reading = after at *
  cases hstep with
  | idle => exact hnoting
  | closeCurly => rw [aborted_closeCurly, hnoting]
  | atRule => exact hnoting
  | start hsegment =>
    rw [hsegment, Option.map_none, Option.getD_none, List.length_nil] at hlength
    refine aborted_collect hnoting fun hsome => ?_
    have := hopens hsome
    simp only [Segment.empty, List.length_nil, noting]
    omega
  | collect purpose segment hsegment =>
    rw [hsegment, Option.map_some, Option.getD_some] at hlength
    refine aborted_collect hnoting fun hsome => ?_
    have := hopens hsome
    simp only [noting] at hlength ⊢
    omega
  | endBlock => rw [aborted_closeCurly, aborted_endSegment, hnoting]

theorem depthBehind_of_follow? {lexeme : Lexeme} {stack behind : List Bracket}
    (h : lexeme.token.follow? stack = some behind) :
    lexeme.depthBehind stack.length = behind.length := by
  unfold Token.follow? at h
  unfold Lexeme.depthBehind
  cases hopens : lexeme.token.opens? with
  | some bracket =>
    simp only [hopens, Option.some.injEq] at h
    simp [← h]
  | none =>
    cases hcloses : lexeme.token.closes? with
    | none =>
      simp only [hopens, hcloses, Option.some.injEq] at h
      simp [← h]
    | some bracket =>
      simp only [hopens, hcloses, Option.ite_none_right_eq_some, Option.some.injEq] at h
      simp [← h.2]

/-- A source whose brackets close in order and nest within the limit is read to its end. -/
theorem Tracks.aborted_foldl {stack : List Bracket} {readings : List Reading}
    (htracks : Tracks state stack) (hgoes : state.aborted = false)
    (hcloses : Lexeme.closesAll stack (readings.map (·.lexeme)) = true)
    (hroom : Lexeme.deepest stack.length (readings.map (·.lexeme)) ≤ state.limit) :
    (readings.foldl State.step state).aborted = false := by
  induction readings generalizing state stack with
  | nil => exact hgoes
  | cons reading readings ih =>
    obtain ⟨behind, hfollow, hbehind⟩ := Lexeme.closesAll_cons_iff.1 hcloses
    have hdeepest := Nat.le_trans (Lexeme.deepest_depthBehind_le ..) hroom
    rw [depthBehind_of_follow? hfollow] at hdeepest
    have hstep := htracks.aborted_step hgoes hfollow (Nat.le_trans (Lexeme.le_deepest ..) hdeepest)
    exact ih (htracks.step hfollow hstep) hstep hbehind (by rwa [limit_step])

end Parser.State

namespace Stylesheet

open Css.Parser (State)

/-- The diagnostics of a style sheet note nesting that is too deep once if reading ended there. -/
theorem countP_isDepthExceeded (options : ParseOptions) (text : Text) :
    (parse options text).diagnostics.countP (·.problem.isDepthExceeded) =
      (stateBehind options text).aborted.toNat := by
  have hfaults : (stateBehind options text).depthFaults =
      (stateBehind options text).aborted.toNat :=
    State.depthFaults_foldl (fun _ hmem => Reading.reads_of_mem_all hmem) rfl
  rw [← hfaults, ← (State.Reports.finish _ text.byteLength).depthFaults_eq, parse_eq,
    State.depthFaults,
    ← Array.countP_toList]
  exact (List.mergeSort_perm ..).countP_eq _

/-- The nesting limit bounds blocks, and calls inside blocks; it is passed at most once; and it is
not passed where brackets close in order and nest within it. -/
theorem nesting_within_limit (options : ParseOptions) (text : Text) :
    (blockDepth (parse options text).sheet ≤ options.maxDepth ∧
      EachPart (fun depth part => part.callDepth + depth ≤ options.maxDepth) 0
        (parse options text).sheet) ∧
    (parse options text).diagnostics.countP (·.problem.isDepthExceeded) ≤ 1 ∧
    (Lexeme.isBalanced (Tokenizer.ofText options.lineComments text).rest.1 = true →
      Lexeme.deepest 0 (Tokenizer.ofText options.lineComments text).rest.1 ≤ options.maxDepth →
        ∀ diagnostic ∈ (parse options text).diagnostics,
          diagnostic.problem.isDepthExceeded = false) := by
  obtain ⟨hparts, hblocks⟩ := limited_parse options text
  have hcount := countP_isDepthExceeded options text
  refine ⟨⟨hblocks, hparts⟩, ?_, fun hbalanced hdeepest => ?_⟩
  · rw [hcount]
    exact Bool.toNat_le _
  · have hrest : (Tokenizer.ofText options.lineComments text).rest.1 =
        (Reading.all options.lineComments 0 text).map (·.lexeme) ++
          [Lexeme.atEnd (0 + Text.byteLength (text.take text.length))] := rfl
    rw [hrest] at hbalanced hdeepest
    rw [Lexeme.isBalanced, Lexeme.closesAll_append_atEnd] at hbalanced
    have hinitial : State.Tracks (State.initial options.maxDepth) [] :=
      State.Tracks.of_segment_none rfl rfl
    have hgoes : (stateBehind options text).aborted = false :=
      hinitial.aborted_foldl rfl hbalanced
        (Nat.le_trans (Lexeme.deepest_append_left ..) hdeepest)
    rw [hgoes] at hcount
    intro diagnostic hmem
    simpa using List.countP_eq_zero.1 hcount diagnostic hmem

/-- A block with a call in it fits a limit of two, and what is noted there is another fault. -/
theorem nesting_within_limit_two :
    (parse { maxDepth := 2 } "a\x7bb:c(d);e\x7d".toList).diagnostics ≠ [] ∧
      ∀ diagnostic ∈ (parse { maxDepth := 2 } "a\x7bb:c(d);e\x7d".toList).diagnostics,
        diagnostic.problem.isDepthExceeded = false :=
  ⟨by decide +kernel,
    (nesting_within_limit { maxDepth := 2 } "a\x7bb:c(d);e\x7d".toList).2.2
      (by decide +kernel) (by decide +kernel)⟩

end Stylesheet

end Css
