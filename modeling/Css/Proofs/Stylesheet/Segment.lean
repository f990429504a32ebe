import Css.Stylesheet.Segment

/-!
# What a lexeme does to a segment

A segment takes every lexeme. An opening bracket is open behind it; a closing one closes the
innermost bracket, or is out of order.
-/

namespace Css

theorem Token.closes?_eq_some {token : Token} {bracket : Bracket} :
    token.closes? = some bracket ↔ token = .closing bracket := by
  cases token <;> simp [closes?]

theorem Token.opens?_eq_curly {token : Token} :
    token.opens? = some .curly ↔ token = .opening .curly := by
  cases token <;> simp [opens?]

namespace Segment

theorem lexemes_push (segment : Segment) (lexeme : Lexeme) :
    (segment.push lexeme).lexemes = segment.lexemes.push lexeme := by
  unfold push
  simp only
  split
  · rfl
  · unfold close
    split
    · rfl
    · split <;> rfl
  · rfl

theorem push_of_opens? {segment : Segment} {lexeme : Lexeme} {bracket : Bracket}
    (h : lexeme.token.opens? = some bracket) :
    (segment.push lexeme).stack = bracket :: segment.stack := by
  simp only [push, h]

theorem push_of_closes? {segment : Segment} {lexeme : Lexeme} {bracket : Bracket}
    (h : lexeme.token.closes? = some bracket) :
    (segment.push lexeme).stack = (segment.close bracket).stack := by
  obtain ⟨token, span, raw⟩ := lexeme
  obtain rfl := Token.closes?_eq_some.1 h
  simp only [push, Token.opens?, Token.closes?, close]
  split
  · rfl
  split
  · rfl
  · rfl

theorem push_of_no_bracket {segment : Segment} {lexeme : Lexeme}
    (hopens : lexeme.token.opens? = none) (hcloses : lexeme.token.closes? = none) :
    (segment.push lexeme).stack = segment.stack := by
  simp only [push, hopens, hcloses]

/-- Closing a bracket leaves some of the outer ones open. -/
theorem close_stack_suffix (segment : Segment) (bracket : Bracket) :
    (segment.close bracket).stack <:+ segment.stack := by
  unfold close
  split
  · exact List.tail_suffix _
  split
  · exact (List.tail_suffix _).trans (List.dropWhile_suffix _)
  · exact List.suffix_rfl

theorem getLast?_push {segment : Segment} {lexeme : Lexeme} {bracket : Bracket}
    (h : (segment.push lexeme).stack.getLast? = some bracket) :
    segment.stack.getLast? = some bracket ∨
      segment.stack = [] ∧ lexeme.token.opens? = some bracket := by
  cases hopens : lexeme.token.opens? with
  | some opened =>
    rw [push_of_opens? hopens] at h
    cases hstack : segment.stack with
    | nil =>
      rw [hstack] at h
      exact .inr ⟨rfl, h⟩
    | cons top stack =>
      rw [hstack, List.getLast?_cons_cons] at h
      exact .inl h
  | none =>
    have hsuffix : (segment.push lexeme).stack <:+ segment.stack := by
      cases hcloses : lexeme.token.closes? with
      | some closed =>
        rw [push_of_closes? hcloses]
        exact close_stack_suffix segment closed
      | none =>
        refine ⟨[], ?_⟩
        rw [List.nil_append, push_of_no_bracket hopens hcloses]
    obtain ⟨before, hbefore⟩ := hsuffix
    left
    rw [← hbefore, List.getLast?_append, h]
    rfl

theorem noteUnmatched_eq_none {segment : Segment} {bracket : Option Bracket}
    (h : (segment.noteUnmatched bracket).unmatched = none) :
    segment.unmatched = none ∧ bracket = none := by
  simpa [noteUnmatched] using h

/-- A closing bracket that leaves all in order closes the innermost bracket. -/
theorem head?_of_close {segment : Segment} {bracket : Bracket}
    (h : (segment.close bracket).unmatched = none) :
    segment.unmatched = none ∧ segment.stack.head? = some bracket := by
  unfold close at h
  split at h
  · exact ⟨h, ‹_›⟩
  split at h
  · rename_i hhead hmem
    have hnone := (noteUnmatched_eq_none h).2
    rw [List.head?_eq_none_iff.1 hnone] at hmem
    contradiction
  · exact absurd (noteUnmatched_eq_none h).2 (Option.some_ne_none _)

theorem push_eq_close {segment : Segment} {lexeme : Lexeme} {bracket : Bracket}
    (h : lexeme.token.closes? = some bracket) :
    segment.push lexeme =
      { segment with lexemes := segment.lexemes.push lexeme }.close bracket := by
  obtain ⟨token, span, raw⟩ := lexeme
  obtain rfl := Token.closes?_eq_some.1 h
  rfl

/-- Taking a lexeme puts nothing in order again. -/
theorem unmatched_of_push {segment : Segment} {lexeme : Lexeme}
    (h : (segment.push lexeme).unmatched = none) : segment.unmatched = none := by
  cases hcloses : lexeme.token.closes? with
  | some bracket =>
    rw [push_eq_close hcloses] at h
    exact (head?_of_close h).1
  | none =>
    unfold push at h
    rw [hcloses] at h
    split at h
    · exact h
    · contradiction
    · exact h

/-! ### Two ways to see that brackets close in order -/

/-- A lexeme that closes no bracket out of order is one that nothing new is noted of. -/
theorem unmatched_push_and_closesAll_iff {segment : Segment} {lexeme : Lexeme}
    {lexemes : List Lexeme} :
    ((segment.push lexeme).unmatched = none ∧
        Lexeme.closesAll (segment.push lexeme).stack lexemes = true) ↔
      segment.unmatched = none ∧
        Lexeme.closesAll segment.stack (lexeme :: lexemes) = true := by
  cases hopens : lexeme.token.opens? with
  | some bracket => simp only [push, Lexeme.closesAll, hopens]
  | none =>
    cases hcloses : lexeme.token.closes? with
    | none => simp only [push, Lexeme.closesAll, hopens, hcloses]
    | some bracket =>
      have hclose : ∀ taken : Segment, taken.stack.head? = some bracket →
          taken.close bracket = { taken with stack := taken.stack.tail } :=
        fun taken h => if_pos h
      rw [push_eq_close hcloses]
      simp only [Lexeme.closesAll, hopens, hcloses]
      constructor
      · rintro ⟨hunmatched, hrest⟩
        obtain ⟨hnone, hhead⟩ := head?_of_close hunmatched
        obtain ⟨stack, hstack⟩ := List.head?_eq_some_iff.1 hhead
        have hstack : segment.stack = bracket :: stack := hstack
        rw [hclose _ hhead] at hrest
        simp only [hstack, List.tail_cons] at hrest
        exact ⟨hnone, by simp [hstack, hrest]⟩
      · rintro ⟨hnone, hrest⟩
        split at hrest
        · rename_i top stack hstack
          simp only [Bool.and_eq_true, beq_iff_eq] at hrest
          obtain ⟨rfl, hrest⟩ := hrest
          rw [hclose _ (by simp [hstack])]
          simp only [hstack, List.tail_cons]
          exact ⟨hnone, hrest⟩
        · contradiction

/-- While nothing has been noted, the stack of a segment is the one that `closesAll` goes on with.
Once something has, neither side can hold again, so the stacks need not agree from there on. -/
theorem unmatched_foldl_push_eq_none_iff (segment : Segment) (lexemes : List Lexeme) :
    (lexemes.foldl push segment).finish.unmatched = none ↔
      segment.unmatched = none ∧ Lexeme.closesAll segment.stack lexemes = true := by
  induction lexemes generalizing segment with
  | nil =>
    rw [Lexeme.closesAll, List.isEmpty_iff, ← List.head?_eq_none_iff]
    exact Option.or_eq_none_iff
  | cons lexeme lexemes ih => rw [List.foldl_cons, ih, unmatched_push_and_closesAll_iff]

end Segment

end Css
