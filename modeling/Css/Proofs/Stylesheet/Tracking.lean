import Css.Proofs.Stylesheet.Segment
import Css.Proofs.Stylesheet.Steps

/-!
# Brackets of the source and blocks of the parser

Where the brackets of a source close in order, the open ones are those of the segment being
collected, and around it one curly bracket for each open block. Other brackets may stand among the
latter: a semicolon ends a segment inside round brackets too. So at the end of a balanced source
that ends in a curly bracket no block is open and nothing is being collected.
-/

namespace Css

def Token.follow? (stack : List Bracket) (token : Token) : Option (List Bracket) :=
  match token.opens?, token.closes? with
  | some bracket, _ => some (bracket :: stack)
  | none, some bracket => if stack.head? = some bracket then some stack.tail else none
  | none, none => some stack

theorem Token.follow?_closing {bracket : Bracket} {stack behind : List Bracket} :
    (closing bracket).follow? stack = some behind ↔ stack = bracket :: behind := by
  cases stack with
  | nil => simp [follow?, opens?, closes?]
  | cons top stack => simp [follow?, opens?, closes?]

theorem Lexeme.closesAll_cons_iff {stack : List Bracket} {lexeme : Lexeme}
    {lexemes : List Lexeme} :
    closesAll stack (lexeme :: lexemes) = true ↔
      ∃ behind, lexeme.token.follow? stack = some behind ∧ closesAll behind lexemes = true := by
  simp only [closesAll, Token.follow?]
  cases lexeme.token.opens? with
  | some bracket => simp
  | none =>
    cases lexeme.token.closes? with
    | none => simp
    | some bracket =>
      cases stack with
      | nil => simp
      | cons top stack =>
        by_cases htop : top = bracket <;> simp [htop]

theorem Lexeme.closesAll_nil_iff {stack : List Bracket} :
    closesAll stack [] = true ↔ stack = [] := by
  simp [closesAll]

namespace Segment

/-- Brackets behind a lexeme that a segment takes: the segment keeps those opened in it. Only a
bracket that is no curly one may be closed from inside a segment that did not open it. -/
theorem follow?_push {segment : Segment} {lexeme : Lexeme} {outer behind : List Bracket}
    (hfollow : lexeme.token.follow? (segment.stack ++ outer) = some behind)
    (hcurly : lexeme.token = .closing .curly → segment.inCurly = true) :
    ∃ outer', behind = (segment.push lexeme).stack ++ outer' ∧
      outer'.count .curly = outer.count .curly := by
  unfold Token.follow? at hfollow
  cases hopens : lexeme.token.opens? with
  | some bracket =>
    simp only [hopens, Option.some.injEq] at hfollow
    refine ⟨outer, ?_, rfl⟩
    rw [push_of_opens? hopens, ← hfollow, List.cons_append]
  | none =>
    cases hcloses : lexeme.token.closes? with
    | none =>
      simp only [hopens, hcloses, Option.some.injEq] at hfollow
      exact ⟨outer, by rw [push_of_no_bracket hopens hcloses, hfollow], rfl⟩
    | some bracket =>
      simp only [hopens, hcloses, Option.ite_none_right_eq_some, Option.some.injEq] at hfollow
      obtain ⟨hhead, rfl⟩ := hfollow
      rw [push_of_closes? hcloses]
      cases hstack : segment.stack with
      | nil =>
        rw [hstack, List.nil_append] at hhead
        obtain ⟨outer, rfl⟩ := List.head?_eq_some_iff.1 hhead
        refine ⟨outer, by simp [close, hstack, noteUnmatched], ?_⟩
        have hshape : bracket ≠ .curly := by
          rintro rfl
          have := hcurly (Token.closes?_eq_some.1 hcloses)
          simp [inCurly, hstack] at this
        rw [List.count_cons_of_ne hshape]
      | cons top stack =>
        rw [hstack, List.cons_append, List.head?_cons, Option.some.injEq] at hhead
        subst hhead
        exact ⟨outer, by simp [close, hstack], rfl⟩

theorem count_append_outer {segment : Segment} (h : (!segment.inCurly) = true)
    (outer : List Bracket) : (segment.stack ++ outer).count .curly = outer.count .curly := by
  have hnone : .curly ∉ segment.stack := by simpa [inCurly] using h
  rw [List.count_append, List.count_eq_zero.2 hnone, Nat.zero_add]

end Segment

namespace Parser.State

/-- How the open brackets of a source, innermost first, stand to the state of the parser. -/
structure Tracks (state : State) (stack : List Bracket) : Prop where
  brackets : ∃ outer, stack = ((state.segment.map (·.2.stack)).getD []) ++ outer ∧
    outer.count .curly = state.frames.length
  /-- A curly bracket outside all others is a block where the segment may open one. -/
  block : ∀ purpose segment, state.segment = some (purpose, segment) →
    purpose.endsAtBlock = true → segment.stack.getLast? ≠ some .curly
  declaration : ∀ purpose segment, state.segment = some (purpose, segment) →
    purpose.endsAtBlock = false → state.frames ≠ []

theorem Tracks.of_segment_none {state : State} {stack : List Bracket}
    (hsegment : state.segment = none) (hcount : stack.count .curly = state.frames.length) :
    Tracks state stack :=
  ⟨⟨stack, by simp [hsegment], hcount⟩, by simp [hsegment], by simp [hsegment]⟩

/-- One lexeme of a segment, where reading goes on. -/
theorem tracks_collect {state : State} {purpose : Purpose} {segment : Segment} {lexeme : Lexeme}
    {outer behind : List Bracket}
    (hcount : outer.count .curly = state.frames.length)
    (hblock : purpose.endsAtBlock = true → segment.stack.getLast? ≠ some .curly)
    (hdeclaration : purpose.endsAtBlock = false → state.frames ≠ [])
    (hfollow : lexeme.token.follow? (segment.stack ++ outer) = some behind)
    (hcurly : lexeme.token = .closing .curly → segment.inCurly = true)
    (hgoes : (state.collect purpose segment lexeme).aborted = false) :
    Tracks (state.collect purpose segment lexeme) behind := by
  unfold collect at hgoes ⊢
  split
  · rename_i hopens
    obtain ⟨htoken, hstack, hends⟩ := hopens
    simp only [htoken, hstack, hends, true_and, if_true] at hgoes
    obtain ⟨frame, hframe⟩ := Option.isSome_iff_exists.1
      ((isSome_frame? purpose segment lexeme.span).trans hends)
    simp only [htoken, hstack, List.nil_append, Token.follow?, Token.opens?,
      Option.some.injEq] at hfollow
    rw [openBlock_of_aborted_eq_false state hgoes]
    refine Tracks.of_segment_none (segment_atBlock ..) ?_
    rw [← hfollow, hframe]
    simp [hcount]
  · rename_i hopens
    rw [if_neg hopens] at hgoes
    split
    · rename_i hsemicolon
      obtain ⟨htoken, hflat, -⟩ := hsemicolon
      simp only [htoken, Token.follow?, Token.opens?, Token.closes?, Option.some.injEq] at hfollow
      refine Tracks.of_segment_none (segment_endSegment ..) ?_
      rw [length_frames_endSegment, ← hcount, ← hfollow, Segment.count_append_outer hflat]
    · rename_i hsemicolon
      rw [if_neg hsemicolon] at hgoes
      rw [extend_of_aborted_eq_false state hgoes]
      obtain ⟨outer', hbehind, hcount'⟩ := Segment.follow?_push hfollow hcurly
      refine ⟨⟨outer', by simpa using hbehind, by simpa [hcount'] using hcount⟩, ?_, ?_⟩
      · rintro purpose' segment' heq hends hlast
        simp only [Option.some.injEq, Prod.mk.injEq] at heq
        obtain ⟨rfl, rfl⟩ := heq
        obtain hlast | ⟨hstack, hopened⟩ := Segment.getLast?_push hlast
        · exact hblock hends hlast
        · exact hopens ⟨Token.opens?_eq_curly.1 hopened, hstack, hends⟩
      · rintro purpose' segment' heq hends
        simp only [Option.some.injEq, Prod.mk.injEq] at heq
        obtain ⟨rfl, rfl⟩ := heq
        exact hdeclaration hends

theorem tracks_closeCurly {state : State} {stack behind : List Bracket} (span : Span)
    (hsegment : state.segment = none) (hcount : stack.count .curly = state.frames.length)
    (hfollow : (Token.closing .curly).follow? stack = some behind) :
    Tracks (state.closeCurly span) behind := by
  obtain rfl := Token.follow?_closing.1 hfollow
  rw [List.count_cons_self] at hcount
  have hopen : state.frames.isEmpty = false := by
    cases hframes : state.frames with
    | nil => simp [hframes] at hcount
    | cons frame frames => rfl
  simp only [closeCurly, hopen, Bool.false_eq_true, if_false]
  refine Tracks.of_segment_none (by rw [segment_closeFrame, hsegment]) ?_
  rw [length_frames_closeFrame]
  omega

theorem isIdle_follow? {state : State} {token : Token} (h : state.isIdle token = true)
    (stack : List Bracket) : token.follow? stack = some stack := by
  simp only [isIdle, Bool.or_eq_true, Bool.and_eq_true, beq_iff_eq] at h
  obtain (htrivia | ⟨-, rfl⟩) | ⟨-, rfl | rfl⟩ := h
  · cases token <;> first | rfl | simp [Token.isTrivia] at htrivia
  · rfl
  · rfl
  · rfl

theorem frames_ne_nil_of_inDeclarations {state : State} (h : state.inDeclarations = true) :
    state.frames ≠ [] := by
  intro hframes
  simp [inDeclarations, hframes] at h

theorem tracks_begin {state : State} {lexeme : Lexeme} {stack behind : List Bracket}
    (hsegment : state.segment = none) (hcount : stack.count .curly = state.frames.length)
    (hfollow : lexeme.token.follow? stack = some behind)
    (hgoes : (state.begin lexeme).aborted = false) : Tracks (state.begin lexeme) behind := by
  unfold begin at hgoes ⊢
  split
  · rename_i hidle
    rw [isIdle_follow? hidle] at hfollow
    obtain rfl := Option.some.inj hfollow
    exact Tracks.of_segment_none hsegment hcount
  · rename_i hidle
    rw [if_neg hidle] at hgoes
    split
    · rename_i htoken
      rw [htoken] at hfollow
      exact tracks_closeCurly lexeme.span hsegment hcount hfollow
    · rename_i name htoken
      simp only [htoken, Token.follow?, Token.opens?, Token.closes?, Option.some.injEq] at hfollow
      subst hfollow
      refine ⟨⟨stack, rfl, hcount⟩, ?_, ?_⟩
      · rintro purpose segment heq - hlast
        simp only [Option.some.injEq, Prod.mk.injEq] at heq
        obtain ⟨-, rfl⟩ := heq
        simp [Segment.empty] at hlast
      · rintro purpose segment heq hends
        simp only [Option.some.injEq, Prod.mk.injEq] at heq
        obtain ⟨rfl, -⟩ := heq
        simp [Purpose.endsAtBlock] at hends
    · rename_i hclosing hkeyword
      refine tracks_collect hcount (fun _ => by simp [Segment.empty]) ?_
        (by simpa [Segment.empty] using hfollow) (fun h => absurd h hclosing) ?_
      · intro hends
        split at hends
        · exact frames_ne_nil_of_inDeclarations ‹_›
        · simp [Purpose.endsAtBlock] at hends
      · split at hgoes
        · exact absurd ‹_› hclosing
        · exact absurd ‹_› (hkeyword _)
        · exact hgoes

/-- One lexeme of a source whose brackets close in order, where reading goes on. -/
theorem Tracks.step {state : State} {reading : Reading} {stack behind : List Bracket}
    (htracks : Tracks state stack) (hfollow : reading.lexeme.token.follow? stack = some behind)
    (hgoes : (state.step reading).aborted = false) : Tracks (state.step reading) behind := by
  have hgoing := aborted_eq_false_of_step hgoes
  obtain ⟨outer, hstack, hcount⟩ := htracks.brackets
  cases hsegment : state.segment with
  | none =>
    rw [step_of_segment_none reading hgoing hsegment] at hgoes ⊢
    have hcount' : stack.count .curly = state.frames.length := by
      rw [hstack, hsegment]
      exact hcount
    exact tracks_begin hsegment hcount' hfollow hgoes
  | some collected =>
    obtain ⟨purpose, segment⟩ := collected
    replace hstack : stack = segment.stack ++ outer := by simpa [hsegment] using hstack
    rw [step_of_segment_some reading hgoing hsegment] at hgoes ⊢
    split
    · rename_i hcloses
      obtain ⟨htoken, hflat⟩ := hcloses
      rw [htoken] at hfollow
      refine tracks_closeCurly _ (segment_endSegment ..) ?_ hfollow
      rw [length_frames_endSegment, hstack, Segment.count_append_outer hflat]
      exact hcount
    · rename_i hcloses
      rw [if_neg hcloses] at hgoes
      rw [hstack] at hfollow
      refine tracks_collect hcount (htracks.block _ _ hsegment)
        (htracks.declaration _ _ hsegment) hfollow ?_ hgoes
      intro htoken
      simpa [htoken] using hcloses

/-- A curly bracket that closes the innermost open bracket, outside the curly brackets of the
segment, closes a block. -/
theorem Tracks.frames_ne_nil {state : State} {stack behind : List Bracket}
    (htracks : Tracks state stack) (hfollow : (Token.closing .curly).follow? stack = some behind)
    (hflat : ∀ collected ∈ state.segment, (!collected.2.inCurly) = true) : state.frames ≠ [] := by
  obtain ⟨outer, hstack, hcount⟩ := htracks.brackets
  have hpos : 0 < stack.count .curly := by
    rw [Token.follow?_closing.1 hfollow, List.count_cons_self]
    exact Nat.succ_pos _
  have hsame : stack.count .curly = state.frames.length := by
    rw [hstack, ← hcount]
    cases hsegment : state.segment with
    | none => rfl
    | some collected => exact Segment.count_append_outer (hflat collected hsegment) outer
  exact List.length_pos_iff.1 (hsame ▸ hpos)

/-- Where no brackets are open, no block is. -/
theorem Tracks.nil {state : State} (htracks : Tracks state []) : state.frames = [] := by
  obtain ⟨outer, hstack, hcount⟩ := htracks.brackets
  obtain rfl : outer = [] := (List.append_eq_nil_iff.1 hstack.symm).2
  exact List.length_eq_zero_iff.1 hcount.symm

/-- The curly bracket that closes the outermost bracket of a source ends every segment. -/
theorem Tracks.segment_step {state : State} {reading : Reading} {stack : List Bracket}
    (htracks : Tracks state stack) (htoken : reading.lexeme.token = .closing .curly)
    (hfollow : reading.lexeme.token.follow? stack = some [])
    (hgoes : (state.step reading).aborted = false) : (state.step reading).segment = none := by
  have hgoing := aborted_eq_false_of_step hgoes
  obtain ⟨outer, hstack, hcount⟩ := htracks.brackets
  obtain rfl : stack = [.curly] := Token.follow?_closing.1 (htoken ▸ hfollow)
  cases hsegment : state.segment with
  | none =>
    rw [step_of_segment_none reading hgoing hsegment, begin, if_neg, htoken]
    · simp only [closeCurly]
      split
      · exact hsegment
      · rw [segment_closeFrame]
        exact hsegment
    · rw [htoken]
      simp [isIdle, Token.isTrivia]
  | some collected =>
    obtain ⟨purpose, segment⟩ := collected
    replace hstack : [.curly] = segment.stack ++ outer := by simpa [hsegment] using hstack
    have hflat : segment.stack = [] := by
      cases hinner : segment.stack with
      | nil => rfl
      | cons top stack =>
        -- the only bracket open would be one of the segment, which the segment cannot have
        exfalso
        rw [hinner, List.cons_append, List.cons.injEq] at hstack
        obtain ⟨rfl, hnil⟩ := hstack
        obtain ⟨rfl, rfl⟩ := List.append_eq_nil_iff.1 hnil.symm
        cases hends : purpose.endsAtBlock with
        | true => exact htracks.block _ _ hsegment hends (by rw [hinner]; rfl)
        | false =>
          exact htracks.declaration _ _ hsegment hends (List.length_eq_zero_iff.1 hcount.symm)
    rw [step_of_segment_some reading hgoing hsegment,
      if_pos ⟨htoken, by simp [Segment.inCurly, hflat]⟩]
    simp only [closeCurly]
    split
    · simp
    · simp

/-- The state inside a source whose brackets close in order. -/
theorem Tracks.foldl {state : State} {stack : List Bracket} {readings : List Reading}
    {rest : List Lexeme} (htracks : Tracks state stack)
    (hcloses : Lexeme.closesAll stack (readings.map (·.lexeme) ++ rest) = true)
    (hgoes : (readings.foldl State.step state).aborted = false) :
    ∃ behind, Tracks (readings.foldl State.step state) behind ∧
      Lexeme.closesAll behind rest = true := by
  induction readings generalizing state stack with
  | nil => exact ⟨stack, htracks, hcloses⟩
  | cons reading readings ih =>
    obtain ⟨behind, hfollow, hbehind⟩ := Lexeme.closesAll_cons_iff.1 hcloses
    have hfirst : (state.step reading).aborted = false := aborted_eq_false_of_foldl hgoes
    exact ih (htracks.step hfollow hfirst) hbehind hgoes

/-- A source whose brackets close in order and that ends in a curly bracket leaves nothing open,
whatever is wrong in it. -/
theorem frames_eq_nil_and_segment_eq_none {limit : Nat} {readings : List Reading}
    {last : Reading} (hlast : last.lexeme.token = .closing .curly)
    (hbalanced : Lexeme.isBalanced ((readings ++ [last]).map (·.lexeme)) = true)
    (hgoes : ((readings ++ [last]).foldl State.step (initial limit)).aborted = false) :
    ((readings ++ [last]).foldl State.step (initial limit)).frames = [] ∧
      ((readings ++ [last]).foldl State.step (initial limit)).segment = none := by
  have hinitial : Tracks (initial limit) [] := Tracks.of_segment_none rfl rfl
  rw [List.map_append] at hbalanced
  rw [List.foldl_append] at hgoes ⊢
  obtain ⟨stack, htracks, hcloses⟩ :=
    hinitial.foldl hbalanced (aborted_eq_false_of_step hgoes)
  obtain ⟨behind, hfollow, hnil⟩ := Lexeme.closesAll_cons_iff.1 hcloses
  obtain rfl := Lexeme.closesAll_nil_iff.1 hnil
  exact ⟨(htracks.step hfollow hgoes).nil, htracks.segment_step hlast hfollow hgoes⟩

end Parser.State

end Css
