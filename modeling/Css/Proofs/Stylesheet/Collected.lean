import Css.Proofs.Stylesheet.Declarations
import Css.Proofs.Token.Balanced

/-!
# What a segment collects

A segment goes on past a bracket that is not closed in order, and notes the first one. Collecting
as a loop over the lexemes (`Segment.collect?`) gives what the parser has collected after each of
its steps (`State.Collected`). Whatever ends the loop, a bracket was noted exactly if the lexemes
are not balanced.
-/

namespace Css

/-! ### The loop -/

namespace Segment

def opensBlock (atBlock : Bool) (segment : Segment) (token : Token) : Bool :=
  token == .opening .curly && segment.stack.isEmpty && atBlock

/-- Whether a token ends a segment without a block: a semicolon, or the curly bracket that closes
the block around the segment. Other brackets may be open there. -/
def isEndedBy (atSemicolon : Bool) (segment : Segment) (token : Token) : Bool :=
  (token == .semicolon && !segment.inCurly && atSemicolon) ||
    (token == .closing .curly && !segment.inCurly)

def isTooDeep (limit depth : Nat) (segment : Segment) (token : Token) : Bool :=
  token.opens?.isSome && decide (limit < depth + segment.stack.length + 1)

/-- A segment that takes lexemes up to the one that ends it or to the end of the source, and the
lexemes from there on. There is no result where a bracket is too deep. -/
def collect? (atBlock atSemicolon : Bool) (limit depth : Nat) :
    Segment → List Lexeme → Option (Segment × List Lexeme)
  | segment, [] => some (segment.finish, [])
  | segment, lexeme :: lexemes =>
    if segment.opensBlock atBlock lexeme.token then some (segment, lexeme :: lexemes)
    else if segment.isEndedBy atSemicolon lexeme.token then
      some (segment.finish, lexeme :: lexemes)
    else if segment.isTooDeep limit depth lexeme.token then none
    else collect? atBlock atSemicolon limit depth (segment.push lexeme) lexemes

/-- Where no bracket is open, there is nothing left to note. -/
theorem finish_of_opensBlock {atBlock : Bool} {segment : Segment} {token : Token}
    (h : segment.opensBlock atBlock token = true) : segment.finish = segment := by
  obtain ⟨lexemes, stack, unmatched⟩ := segment
  obtain rfl : stack = [] := by
    simp only [opensBlock, Bool.and_eq_true, List.isEmpty_iff] at h
    exact h.1.2
  rw [finish, noteUnmatched, List.head?_nil, Option.or_none]

variable {atBlock atSemicolon : Bool} {limit depth : Nat}

theorem exists_of_collect? {segment collected : Segment} {source rest : List Lexeme}
    (h : collect? atBlock atSemicolon limit depth segment source = some (collected, rest)) :
    ∃ taken, source = taken ++ rest ∧ collected = (taken.foldl push segment).finish := by
  induction source generalizing segment with
  | nil =>
    obtain ⟨rfl, rfl⟩ := Prod.mk.inj (Option.some.inj h)
    exact ⟨[], rfl, rfl⟩
  | cons lexeme source ih =>
    unfold collect? at h
    split at h
    · rename_i hopens
      obtain ⟨rfl, rfl⟩ := Prod.mk.inj (Option.some.inj h)
      exact ⟨[], rfl, (finish_of_opensBlock hopens).symm⟩
    split at h
    · obtain ⟨rfl, rfl⟩ := Prod.mk.inj (Option.some.inj h)
      exact ⟨[], rfl, rfl⟩
    split at h
    · contradiction
    · obtain ⟨taken, rfl, rfl⟩ := ih h
      exact ⟨lexeme :: taken, rfl, rfl⟩

@[simp]
theorem lexemes_finish (segment : Segment) : segment.finish.lexemes = segment.lexemes := rfl

theorem lexemes_foldl_push (segment : Segment) (lexemes : List Lexeme) :
    (lexemes.foldl push segment).lexemes.toList = segment.lexemes.toList ++ lexemes := by
  induction lexemes generalizing segment with
  | nil => simp
  | cons lexeme lexemes ih => simp [ih, lexemes_push]

end Segment

/-! ### Declarations -/

namespace Declaration

variable {lexemes : List Lexeme}

/-- A name and a colon are no brackets, so the value of balanced lexemes is balanced. -/
theorem balanced_of_cutName {value : List Lexeme} {name : Text} (h : Lexeme.Balanced lexemes)
    (hcut : cutName lexemes = .ok (name, value)) : Lexeme.Balanced value := by
  unfold cutName at hcut
  split at hcut
  · rename_i hname
    split at hcut
    · rename_i hcolon
      obtain ⟨rfl, rfl⟩ := Prod.mk.inj (Except.ok.inj hcut)
      exact (h.of_next? hname rfl).of_next? hcolon rfl
    · contradiction
  · contradiction

theorem cutName_ne_unbalanced (lexemes : List Lexeme) :
    cutName lexemes ≠ .error .unbalanced := by
  unfold cutName
  split
  · split <;> simp
  · simp

theorem parse_ne_unbalanced (h : Lexeme.isBalanced lexemes = true) :
    parse true lexemes ≠ .error .unbalanced := by
  unfold parse
  cases hcut : cutName lexemes with
  | error error =>
    rintro ⟨⟩
    exact cutName_ne_unbalanced lexemes hcut
  | ok read =>
    obtain ⟨name, value⟩ := read
    have hvalue := (balanced_of_cutName (Lexeme.balanced_of_isBalanced h) hcut).isBalanced
    simp only [Except.bind, bind, hvalue, Bool.not_true, Bool.or_self, Bool.false_eq_true, if_false]
    split
    · simp
    split
    · simp
    · simp [pure, Except.pure]

end Declaration

/-! ### What the parser has collected -/

namespace Parser.State

def collect? (state : State) (purpose : Purpose) :
    Segment → List Lexeme → Option (Segment × List Lexeme) :=
  Segment.collect? purpose.endsAtBlock purpose.endsAtSemicolon state.limit state.frames.length

/-- Whether the segment that is being collected is where the loop stands behind the last of some
lexemes. -/
def Collected (source : List Lexeme) (state : State) : Prop :=
  ∀ purpose segment, state.segment = some (purpose, segment) →
    ∃ taken, taken <:+ source ∧
      ∀ rest, state.collect? purpose .empty (taken ++ rest) = state.collect? purpose segment rest

variable {state : State} {source : List Lexeme}

theorem Collected.of_segment_none (h : state.segment = none) : state.Collected source := by
  intro purpose segment hsegment
  rw [h] at hsegment
  contradiction

def LetsGo (state : State) (purpose : Purpose) (segment : Segment) (token : Token) : Prop :=
  segment.opensBlock purpose.endsAtBlock token = true ∨
    segment.isEndedBy purpose.endsAtSemicolon token = true ∨
    segment.isTooDeep state.limit state.frames.length token = true

theorem collect?_cons {purpose : Purpose} {segment : Segment} {lexeme : Lexeme}
    (h : ¬state.LetsGo purpose segment lexeme.token) (rest : List Lexeme) :
    state.collect? purpose segment (lexeme :: rest) =
      state.collect? purpose (segment.push lexeme) rest := by
  simp only [LetsGo, not_or] at h
  obtain ⟨hopens, hends, hdeep⟩ := h
  unfold collect?
  rw [Segment.collect?, if_neg hopens, if_neg hends, if_neg hdeep]

/-- A lexeme that does not close the block around a segment ends it or is taken. -/
theorem collect_cases (state : State) (purpose : Purpose) {segment : Segment} {lexeme : Lexeme}
    (hcurly : ¬(lexeme.token = .closing .curly ∧ !segment.inCurly)) :
    state.LetsGo purpose segment lexeme.token ∧
        (state.collect purpose segment lexeme).segment = none ∨
      ¬state.LetsGo purpose segment lexeme.token ∧
        state.collect purpose segment lexeme =
          { state with segment := some (purpose, segment.push lexeme) } := by
  have hopens : segment.opensBlock purpose.endsAtBlock lexeme.token = true ↔
      lexeme.token = .opening .curly ∧ segment.stack = [] ∧ purpose.endsAtBlock := by
    simp [Segment.opensBlock, and_assoc]
  have hends : segment.isEndedBy purpose.endsAtSemicolon lexeme.token = true ↔
      lexeme.token = .semicolon ∧ !segment.inCurly ∧ purpose.endsAtSemicolon := by
    simp only [Segment.isEndedBy, Bool.or_eq_true, Bool.and_eq_true, beq_iff_eq, and_assoc]
    exact or_iff_left hcurly
  rw [LetsGo, hopens, hends]
  unfold collect
  split
  · exact .inl ⟨.inl ‹_›, segment_openBlock ..⟩
  rename_i hopens
  split
  · exact .inl ⟨.inr (.inl ‹_›), segment_endSegment ..⟩
  rename_i hends
  unfold extend
  split
  · exact .inl ⟨.inr (.inr ‹_›), segment_abortSegment ..⟩
  rename_i hdeep
  exact .inr ⟨fun h => h.elim hopens (·.elim hends hdeep), rfl⟩

/-- The parser lets go of a segment where the loop ends. -/
theorem segment_step_eq_none_iff {reading : Reading} {purpose : Purpose} {segment : Segment}
    (hgoes : state.aborted = false) (hsegment : state.segment = some (purpose, segment)) :
    (state.step reading).segment = none ↔ state.LetsGo purpose segment reading.lexeme.token := by
  rw [step_of_segment_some reading hgoes hsegment]
  split
  · rename_i hcurly
    rw [segment_closeCurly, segment_endSegment]
    exact iff_of_true rfl (.inr (.inl (by simpa [Segment.isEndedBy, hcurly.1] using hcurly.2)))
  · rename_i hcurly
    obtain ⟨hends, hnone⟩ | ⟨hgoes, heq⟩ := collect_cases (state.noting reading) purpose hcurly
    · exact iff_of_true hnone hends
    · exact iff_of_false (by simp [heq]) hgoes

theorem Collected.collect {purpose : Purpose} {segment : Segment} {lexeme : Lexeme}
    (hcurly : ¬(lexeme.token = .closing .curly ∧ !segment.inCurly))
    (h : ∃ taken, taken <:+ source ∧
      ∀ rest, state.collect? purpose .empty (taken ++ rest) = state.collect? purpose segment rest) :
    (state.collect purpose segment lexeme).Collected (source ++ [lexeme]) := by
  obtain ⟨-, hnone⟩ | ⟨hgoes, heq⟩ := collect_cases state purpose hcurly
  · exact .of_segment_none hnone
  obtain ⟨taken, ⟨before, rfl⟩, htaken⟩ := h
  rw [heq]
  rintro purpose' segment' hsegment
  obtain ⟨rfl, rfl⟩ := Prod.mk.inj (Option.some.inj hsegment)
  refine ⟨taken ++ [lexeme], ⟨before, by simp⟩, fun rest => ?_⟩
  rw [List.append_assoc, List.singleton_append]
  exact (htaken (lexeme :: rest)).trans (collect?_cons hgoes rest)

theorem Collected.step (h : state.Collected source) {reading : Reading}
    (hgoes : state.aborted = false) :
    (state.step reading).Collected (source ++ [reading.lexeme]) := by
  cases hsegment : state.segment with
  | none =>
    rw [step_of_segment_none reading hgoes hsegment]
    unfold begin
    split
    · exact .of_segment_none hsegment
    split
    · exact .of_segment_none ((segment_closeCurly ..).trans hsegment)
    · rintro purpose segment heq
      obtain ⟨rfl, rfl⟩ := Prod.mk.inj (Option.some.inj heq)
      exact ⟨[], List.nil_suffix, fun rest => rfl⟩
    · rename_i hclosing _
      exact .collect (fun h => hclosing h.1) ⟨[], List.nil_suffix, fun rest => rfl⟩
  | some collected =>
    obtain ⟨purpose, segment⟩ := collected
    rw [step_of_segment_some reading hgoes hsegment]
    split
    · refine .of_segment_none ?_
      rw [segment_closeCurly, segment_endSegment]
    · rename_i hcurly
      exact .collect hcurly (h purpose segment hsegment)

theorem Collected.foldl (h : state.Collected source) {readings : List Reading}
    (hgoes : (readings.foldl State.step state).aborted = false) :
    (readings.foldl State.step state).Collected (source ++ readings.map (·.lexeme)) := by
  induction readings generalizing state source with
  | nil => rwa [List.map_nil, List.append_nil]
  | cons reading readings ih =>
    have hstate : state.aborted = false := @aborted_eq_false_of_foldl _ (reading :: readings) hgoes
    have hrun := ih (h.step hstate) hgoes
    rwa [List.append_assoc] at hrun

end Parser.State

namespace Segment

open Css.Parser (State Purpose)

variable {atBlock atSemicolon : Bool} {limit depth : Nat}

/-- Where the loop ends, whatever ends it, a bracket was noted exactly if the lexemes taken are not
balanced. So lexemes of which none was noted are not turned away as an unbalanced declaration. -/
theorem unmatched_of_collect? {segment : Segment} {source rest : List Lexeme}
    (h : collect? atBlock atSemicolon limit depth .empty source = some (segment, rest)) :
    source = segment.lexemes.toList ++ rest ∧
      (segment.unmatched = none ↔ Lexeme.isBalanced segment.lexemes.toList = true) ∧
      (segment.unmatched = none →
        Declaration.parse segment.unmatched.isNone segment.lexemes.toList ≠ .error .unbalanced) := by
  obtain ⟨taken, rfl, rfl⟩ := exists_of_collect? h
  have hlexemes : (taken.foldl push empty).finish.lexemes.toList = taken := by
    rw [lexemes_finish, lexemes_foldl_push]
    rfl
  have hbalanced : (taken.foldl push empty).finish.unmatched = none ↔
      Lexeme.isBalanced taken = true :=
    (unmatched_foldl_push_eq_none_iff empty taken).trans (and_iff_right rfl)
  rw [hlexemes]
  refine ⟨rfl, hbalanced, fun hunmatched => ?_⟩
  rw [hunmatched]
  exact Declaration.parse_ne_unbalanced (hbalanced.1 hunmatched)

/-- The bracket that a segment notes says what `isBalanced` says of its lexemes. The parser collects
as the loop does: from any state between segments on, it stands where the loop stands, and it lets
go of a segment where the loop ends. -/
theorem unmatched_eq_none_iff_isBalanced :
    (∀ (atBlock atSemicolon : Bool) (limit depth : Nat) (source rest : List Lexeme)
        (segment : Segment),
      collect? atBlock atSemicolon limit depth .empty source = some (segment, rest) →
        source = segment.lexemes.toList ++ rest ∧
        (segment.unmatched = none ↔ Lexeme.isBalanced segment.lexemes.toList = true) ∧
        (segment.unmatched = none →
          Declaration.parse segment.unmatched.isNone segment.lexemes.toList ≠
            .error .unbalanced)) ∧
    (∀ (state : State) (readings : List Reading), state.segment = none →
      (readings.foldl State.step state).aborted = false →
        (readings.foldl State.step state).Collected (readings.map (·.lexeme))) ∧
    ∀ (state : State) (reading : Reading) (purpose : Purpose) (segment : Segment),
      state.aborted = false → state.segment = some (purpose, segment) →
        ((state.step reading).segment = none ↔
          state.LetsGo purpose segment reading.lexeme.token) := by
  refine ⟨fun _ _ _ _ _ _ _ => unmatched_of_collect?, fun state readings hsegment hgoes => ?_,
    fun _ _ _ _ => State.segment_step_eq_none_iff⟩
  exact @State.Collected.foldl state [] (.of_segment_none hsegment) readings hgoes

/-- A declaration with a bracket that was not opened, which goes on to its semicolon; one whose
brackets close in order; what has been collected behind the start of a rule; and a semicolon. -/
theorem unmatched_eq_none_iff_isBalanced_value :
    Lexeme.isBalanced (([.ident ['a'], .colon, .opening .round, .closing .square, .closing .round] :
      List Token).map (⟨·, .point 0, []⟩)) ≠ true ∧
    Declaration.parse true (([.ident ['a'], .colon, .opening .round, .closing .round] :
      List Token).map (⟨·, .point 0, []⟩)) ≠ .error .unbalanced ∧
    ((Reading.all true 0 "b\x7ba:(c".toList).foldl State.step (.initial 128)).Collected
      ((Reading.all true 0 "b\x7ba:(c".toList).map (·.lexeme)) ∧
    ({ State.initial 128 with segment := some (.declaration, .empty) }.step
      ⟨⟨.semicolon, .point 0, []⟩, none⟩).segment = none := by
  have hmismatch := unmatched_eq_none_iff_isBalanced.1 false true 128 1
    (([.ident ['a'], .colon, .opening .round, .closing .square, .closing .round, .semicolon] :
      List Token).map (⟨·, .point 0, []⟩)) _ _ rfl
  have hmatch := unmatched_eq_none_iff_isBalanced.1 false true 128 1
    (([.ident ['a'], .colon, .opening .round, .closing .round, .semicolon] :
      List Token).map (⟨·, .point 0, []⟩)) _ _ rfl
  refine ⟨fun hbalanced => ?_, hmatch.2.2 rfl, ?_, ?_⟩
  · exact absurd (hmismatch.2.1.2 hbalanced) (Option.some_ne_none _)
  · exact unmatched_eq_none_iff_isBalanced.2.1 _ _ rfl (by decide +kernel)
  · exact (unmatched_eq_none_iff_isBalanced.2.2 _ _ _ _ rfl rfl).2 (.inr (.inl rfl))

end Segment

end Css
