import Css.Proofs.Stylesheet.Leading
import Css.Proofs.Stylesheet.Recast
import Css.Proofs.Stylesheet.Tracking

/-!
# Inside the block of the first rule

Where the brackets of a source close in order behind the bracket that opens its first rule, the
block of this rule stays the outermost open one (`State.InFirst`): whatever is wrong in it, no
bracket closes it. At the end it is the only open block, and what is being collected there, if
anything, ends at a semicolon as it would at the closing bracket of the block.
-/

namespace Css

theorem Token.follow?_append {token : Token} {stack behind : List Bracket}
    (h : token.follow? stack = some behind) (outer : List Bracket) :
    token.follow? (stack ++ outer) = some (behind ++ outer) := by
  unfold follow? at h ⊢
  cases hopens : token.opens? with
  | some bracket =>
    simp only [hopens, Option.some.injEq] at h ⊢
    rw [← h, List.cons_append]
  | none =>
    cases hcloses : token.closes? with
    | none =>
      simp only [hopens, hcloses, Option.some.injEq] at h ⊢
      rw [h]
    | some bracket =>
      simp only [hopens, hcloses, Option.ite_none_right_eq_some, Option.some.injEq] at h ⊢
      obtain ⟨hhead, rfl⟩ := h
      obtain ⟨stack, rfl⟩ := List.head?_eq_some_iff.1 hhead
      exact ⟨rfl, rfl⟩

namespace Parser.State

variable {state : State}

/-! ### The rules outside every block -/

theorem rules_addDeclaration (state : State) (declaration : Declaration) :
    (state.addDeclaration declaration).rules = state.rules := by
  unfold addDeclaration
  split <;> rfl

theorem rules_addRule_of_ne_nil (hopen : state.frames ≠ []) (rule : Rule) :
    (state.addRule rule).rules = state.rules := by
  unfold addRule
  split
  · contradiction
  · rfl
  · rfl

theorem rules_addAtRule_of_ne_nil (hopen : state.frames ≠ []) (start : Span) (rule : Rule) :
    (state.addAtRule start rule).rules = state.rules := by
  unfold addAtRule
  split
  · split <;> rfl
  · exact rules_addRule_of_ne_nil hopen rule

theorem rules_closeFrame_of_ne_nil (hopen : state.closeFrame.frames ≠ []) :
    state.closeFrame.rules = state.rules := by
  rcases state with ⟨limit, rules, frames, segment, diagnostics, aborted⟩
  cases frames with
  | nil => rfl
  | cons frame frames =>
    have hrest : frames ≠ [] := by
      rw [← List.length_pos_iff, length_frames_closeFrame] at hopen
      exact List.length_pos_iff.1 hopen
    cases frame with
    | style selectors span declarations =>
      cases selectors with
      | ok selectors => exact rules_addRule_of_ne_nil hrest _
      | error error => rfl
    | group start name prelude rules => exact rules_addAtRule_of_ne_nil hrest _ _
    | descriptors start name prelude declarations => exact rules_addAtRule_of_ne_nil hrest _ _

theorem rules_endSegment_of_ne_nil (hopen : state.frames ≠ []) (purpose : Purpose)
    (segment : Segment) (stop : Span) :
    (state.endSegment purpose segment stop).rules = state.rules := by
  unfold endSegment
  cases purpose with
  | selector => rfl
  | atRule start name =>
    simp only [addStatement]
    rw [rules_addAtRule_of_ne_nil (by rwa [frames_reportUnmatched]), rules_reportUnmatched]
  | declaration =>
    simp only
    split
    · exact rules_addDeclaration _ _
    · rfl

theorem rules_closeCurly_of_ne_nil {span : Span} (hopen : (state.closeCurly span).frames ≠ []) :
    (state.closeCurly span).rules = state.rules := by
  unfold closeCurly at hopen ⊢
  split
  · rfl
  · rename_i hframes
    rw [if_neg hframes] at hopen
    exact rules_closeFrame_of_ne_nil hopen

theorem rules_collect_of_ne_nil (hopen : state.frames ≠ []) {purpose : Purpose}
    {segment : Segment} {lexeme : Lexeme}
    (hgoes : (state.collect purpose segment lexeme).aborted = false) :
    (state.collect purpose segment lexeme).rules = state.rules := by
  unfold collect at hgoes ⊢
  split
  · rename_i hblock
    rw [if_pos hblock] at hgoes
    rw [openBlock_of_aborted_eq_false state hgoes]
    exact rules_atBlock ..
  rename_i hblock
  rw [if_neg hblock] at hgoes
  split
  · exact rules_endSegment_of_ne_nil hopen ..
  · rename_i hsemicolon
    rw [if_neg hsemicolon] at hgoes
    rw [extend_of_aborted_eq_false state hgoes]

/-- A step that leaves a block open adds no rule outside every block, if one was open before. -/
theorem rules_step_of_ne_nil {reading : Reading} (hgoes : (state.step reading).aborted = false)
    (hopen : state.frames ≠ []) (hopen' : (state.step reading).frames ≠ []) :
    (state.step reading).rules = state.rules := by
  have hstep := stepsTo reading (aborted_eq_false_of_step hgoes)
  replace hopen : (state.noting reading).frames ≠ [] := hopen
  generalize state.step reading = after at *
  cases hstep with
  | idle => rfl
  | closeCurly => exact rules_closeCurly_of_ne_nil hopen'
  | atRule => rfl
  | start => exact rules_collect_of_ne_nil hopen hgoes
  | collect => exact rules_collect_of_ne_nil hopen hgoes
  | endBlock =>
    rw [rules_closeCurly_of_ne_nil hopen']
    exact rules_endSegment_of_ne_nil hopen ..

/-! ### Segments -/

def SelectsOutside (state : State) : Prop :=
  ∀ segment, state.segment = some (.selector, segment) → state.inDeclarations = false

theorem SelectsOutside.of_segment_none (hsegment : state.segment = none) :
    state.SelectsOutside := by
  intro segment heq
  rw [hsegment] at heq
  contradiction

theorem selectsOutside_collect {purpose : Purpose} {segment : Segment} {lexeme : Lexeme}
    (hselector : purpose = .selector → state.inDeclarations = false)
    (hgoes : (state.collect purpose segment lexeme).aborted = false) :
    (state.collect purpose segment lexeme).SelectsOutside := by
  unfold collect at hgoes ⊢
  split
  · exact .of_segment_none (segment_openBlock ..)
  rename_i hblock
  rw [if_neg hblock] at hgoes
  split
  · exact .of_segment_none (segment_endSegment ..)
  · rename_i hsemicolon
    rw [if_neg hsemicolon] at hgoes
    rw [extend_of_aborted_eq_false state hgoes]
    intro segment' heq
    exact hselector (congrArg Prod.fst (Option.some.inj heq))

theorem SelectsOutside.step (h : state.SelectsOutside) {reading : Reading}
    (hgoes : (state.step reading).aborted = false) : (state.step reading).SelectsOutside := by
  have hstep := stepsTo reading (aborted_eq_false_of_step hgoes)
  generalize state.step reading = after at *
  cases hstep with
  | idle hsegment => exact .of_segment_none hsegment
  | closeCurly hsegment => exact .of_segment_none ((segment_closeCurly ..).trans hsegment)
  | atRule => exact fun segment heq => by simp at heq
  | start =>
    refine selectsOutside_collect (fun hselector => ?_) hgoes
    split at hselector
    · contradiction
    · exact Bool.eq_false_iff.2 ‹_›
  | collect purpose segment hsegment =>
    refine selectsOutside_collect ?_ hgoes
    rintro rfl
    exact h segment hsegment
  | endBlock => exact .of_segment_none ((segment_closeCurly ..).trans (segment_endSegment ..))

/-! ### The outermost block -/

/-- Where a curly bracket is around all others, a block is open. -/
theorem Tracks.frames_ne_nil_of_concat {stack : List Bracket}
    (htracks : Tracks state (stack ++ [.curly])) : state.frames ≠ [] := by
  intro hframes
  obtain ⟨outer, hstack, hcount⟩ := htracks.brackets
  rw [hframes, List.length_nil, List.count_eq_zero] at hcount
  obtain rfl | ⟨outer, last, rfl⟩ := List.eq_nil_or_concat outer
  case inr =>
    rw [List.concat_eq_append, ← List.append_assoc] at hstack
    obtain rfl := List.singleton_inj.1 (List.append_inj' hstack rfl).2
    exact hcount (by simp)
  rw [List.append_nil] at hstack
  cases hsegment : state.segment with
  | none => simp [hsegment] at hstack
  | some collected =>
    obtain ⟨purpose, segment⟩ := collected
    replace hstack : stack ++ [.curly] = segment.stack := by simpa [hsegment] using hstack
    cases hends : purpose.endsAtBlock with
    | true =>
      refine htracks.block purpose segment hsegment hends ?_
      rw [← hstack, List.getLast?_concat]
    | false => exact htracks.declaration purpose segment hsegment hends hframes

structure InFirst (selectors : SelectorList) (state : State) (stack : List Bracket) : Prop where
  goes : state.aborted = false
  tracks : Tracks state (stack ++ [.curly])
  rules : state.rules = #[]
  leads : Leads selectors [] state state
  selects : state.SelectsOutside

namespace InFirst

variable {selectors : SelectorList} {stack behind : List Bracket}

theorem step (h : InFirst selectors state stack) {reading : Reading}
    (hfollow : reading.lexeme.token.follow? stack = some behind)
    (hgoes : (state.step reading).aborted = false) :
    InFirst selectors (state.step reading) behind := by
  have htracks := h.tracks.step (Token.follow?_append hfollow [.curly]) hgoes
  have hrules := rules_step_of_ne_nil hgoes h.tracks.frames_ne_nil_of_concat
    htracks.frames_ne_nil_of_concat
  exact ⟨hgoes, htracks, hrules.trans h.rules, h.leads.step reading, h.selects.step hgoes⟩

theorem foldl (h : InFirst selectors state stack) {readings : List Reading}
    (hcloses : Lexeme.closesAll stack (readings.map (·.lexeme)) = true)
    (hgoes : (readings.foldl State.step state).aborted = false) :
    InFirst selectors (readings.foldl State.step state) [] := by
  induction readings generalizing state stack with
  | nil =>
    obtain rfl := Lexeme.closesAll_nil_iff.1 hcloses
    exact h
  | cons reading readings ih =>
    obtain ⟨behind, hfollow, hbehind⟩ := Lexeme.closesAll_cons_iff.1 hcloses
    exact ih (h.step hfollow (aborted_eq_false_of_foldl hgoes)) hbehind hgoes

/-- At the end of the block nothing is open but the block. -/
theorem stack_eq_nil (h : InFirst selectors state []) :
    state.frames.length = 1 ∧
      ∀ purpose segment, state.segment = some (purpose, segment) → segment.stack = [] := by
  obtain ⟨outer, hstack, hcount⟩ := h.tracks.brackets
  have hopen : outer ≠ [] := by
    rintro rfl
    exact h.tracks.frames_ne_nil_of_concat (List.length_eq_zero_iff.1 hcount.symm)
  obtain ⟨hinner, rfl⟩ : (state.segment.map (·.2.stack)).getD [] = [] ∧ outer = [.curly] := by
    obtain ⟨hinner, houter⟩ | ⟨-, houter⟩ := List.append_eq_singleton_iff.1 hstack.symm
    · exact ⟨hinner, houter⟩
    · exact absurd houter hopen
  refine ⟨hcount.symm, fun purpose segment hsegment => ?_⟩
  rwa [hsegment] at hinner

/-- At the end the block is the only open one. -/
theorem exists_frames (h : InFirst selectors state []) :
    ∃ span declarations, state.frames = [.style (.ok selectors) span declarations] := by
  obtain ⟨frame, hframes⟩ := List.length_eq_one_iff.1 h.stack_eq_nil.1
  have hlead := h.leads.content.lead h.rules
  rw [hframes] at hlead
  obtain ⟨span, declarations, rfl⟩ := hlead.eq_style
  exact ⟨span, declarations, hframes⟩

end InFirst

/-! ### The end of the block -/

namespace InFirst

variable {selectors : SelectorList}

theorem inDeclarations (h : InFirst selectors state []) : state.inDeclarations = true := by
  obtain ⟨span, declarations, hframes⟩ := h.exists_frames
  rw [State.inDeclarations, hframes]
  rfl

end InFirst

end Parser.State

end Css
