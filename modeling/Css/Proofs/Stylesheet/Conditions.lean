import Css.Proofs.Media.Nesting
import Css.Proofs.Shift
import Css.Proofs.Stylesheet.Diagnostics
import Css.Proofs.Stylesheet.Parts
import Css.Proofs.Stylesheet.Segment
import Css.Proofs.Token.Tiles

/-!
# The nesting limit and media conditions

Brackets of an at-rule are counted while its lexemes are collected, by shape, and once more when its
prelude is read, without a look at their shape. Where every bracket is closed by its own shape the
two agree, and the limit bounds how deep the conditions of a prelude nest. A bracket that closes
others along with it makes the first count fall behind the second.
-/

namespace Css

/-! ### Segments -/

namespace Lexeme

def depthBehindAll (depth : Nat) (lexemes : List Lexeme) : Nat :=
  lexemes.foldl (fun depth lexeme => lexeme.depthBehind depth) depth

theorem deepest_append_singleton (depth : Nat) (lexemes : List Lexeme) (last : Lexeme) :
    deepest depth (lexemes ++ [last]) =
      max (deepest depth lexemes) (last.depthBehind (depthBehindAll depth lexemes)) := by
  induction lexemes generalizing depth with
  | nil => rfl
  | cons lexeme lexemes ih =>
    simp only [List.cons_append, deepest, ih, Nat.max_assoc]
    rfl

theorem depthBehindAll_append_singleton (depth : Nat) (lexemes : List Lexeme) (last : Lexeme) :
    depthBehindAll depth (lexemes ++ [last]) = last.depthBehind (depthBehindAll depth lexemes) := by
  rw [depthBehindAll, List.foldl_append]
  rfl

theorem depthBehindAll_le_deepest (depth : Nat) (lexemes : List Lexeme) :
    depthBehindAll depth lexemes ≤ deepest depth lexemes := by
  induction lexemes generalizing depth with
  | nil => exact Nat.le_refl _
  | cons lexeme lexemes ih => exact Nat.le_trans (ih _) (deepest_depthBehind_le ..)

end Lexeme

namespace Segment

open Lexeme

/-- Whether a segment nests at most `room` brackets deep, and as many are open behind it by shape
as there are without a look at the shapes. -/
structure Counts (room : Nat) (segment : Segment) : Prop where
  behind : depthBehindAll 0 segment.lexemes.toList = segment.stack.length
  deepest : deepest 0 segment.lexemes.toList ≤ room

theorem counts_empty (room : Nat) : empty.Counts room := ⟨rfl, Nat.zero_le _⟩

theorem depthBehind_push {segment : Segment} {lexeme : Lexeme}
    (h : (segment.push lexeme).unmatched = none) :
    lexeme.depthBehind segment.stack.length = (segment.push lexeme).stack.length := by
  unfold depthBehind
  cases hopens : lexeme.token.opens? with
  | some bracket => simp [push_of_opens? hopens]
  | none =>
    cases hcloses : lexeme.token.closes? with
    | none => simp [push_of_no_bracket hopens hcloses]
    | some bracket =>
      rw [push_eq_close hcloses] at h ⊢
      have hhead := (head?_of_close h).2
      have hclose : ({ segment with lexemes := segment.lexemes.push lexeme }.close bracket).stack =
          segment.stack.tail := by
        rw [close, if_pos hhead]
      simp [hclose]

/-- Taking a lexeme keeps the counts together, if it leaves every bracket in order. -/
theorem Counts.push {segment : Segment} {lexeme : Lexeme} {room : Nat} (h : segment.Counts room)
    (hroom : lexeme.token.opens?.isSome = true → segment.stack.length < room)
    (hunmatched : (segment.push lexeme).unmatched = none) : (segment.push lexeme).Counts room := by
  have hbehind := depthBehind_push hunmatched
  have hlexemes : (segment.push lexeme).lexemes.toList = segment.lexemes.toList ++ [lexeme] := by
    rw [lexemes_push, Array.toList_push]
  refine ⟨?_, ?_⟩
  · rw [hlexemes, depthBehindAll_append_singleton, h.behind, hbehind]
  · rw [hlexemes, deepest_append_singleton, h.behind]
    refine Nat.max_le.2 ⟨h.deepest, ?_⟩
    have hstack : segment.stack.length ≤ room := by
      rw [← h.behind]
      exact Nat.le_trans (depthBehindAll_le_deepest ..) h.deepest
    unfold depthBehind
    split
    · exact hroom ‹_›
    · split <;> omega

end Segment

/-! ### What the limit bounds -/

/-- Whether the conditions of a part that stands inside `depth` blocks nest no deeper than the limit
leaves. -/
def Part.ConditionsWithin (limit depth : Nat) : Part → Prop
  | .prelude (.media queries) => ∀ query ∈ queries, ∀ condition ∈ query.condition,
      condition.nesting + depth ≤ limit
  | _ => True

instance (limit depth : Nat) : (part : Part) → Decidable (part.ConditionsWithin limit depth)
  | .prelude (.media queries) =>
    inferInstanceAs (Decidable (∀ query ∈ queries, ∀ condition ∈ query.condition,
      condition.nesting + depth ≤ limit))
  | .prelude (.tokens _) => inferInstanceAs (Decidable True)
  | .selectors _ => inferInstanceAs (Decidable True)
  | .declaration _ => inferInstanceAs (Decidable True)

open Css.Parser (State)

/-- Whether a part is the prelude of an at-rule of a source that has brackets out of order, as one
of some diagnostics says. -/
inductive Part.IsOutOfOrder (source : List Lexeme) (noted : List Diagnostic) : Part → Prop
  | prelude {front lexemes back : List Lexeme} {keyword : Lexeme} {name : Text} {stop : Span}
      {bracket : Bracket} :
    source = front ++ keyword :: (lexemes ++ back) → keyword.token = .atKeyword name →
      Lexeme.isBalanced lexemes = false →
        ⟨keyword.span.join stop, .unbalancedBlock bracket.closing⟩ ∈ noted →
          Part.IsOutOfOrder source noted (.prelude (State.readPrelude name lexemes))

def Part.IsBounded (source : List Lexeme) (noted : List Diagnostic) (limit depth : Nat)
    (part : Part) : Prop :=
  part.ConditionsWithin limit depth ∨ part.IsOutOfOrder source noted

namespace Parser

def State.IsNotedIn (noted : List Diagnostic) (state : State) : Prop :=
  ∀ diagnostic ∈ state.diagnostics, diagnostic ∈ noted

namespace State

variable {source passed : List Lexeme} {noted : List Diagnostic} {state : State}

theorem Keeps.isNotedIn {before after : State} (h : Keeps before after)
    (hnoted : after.IsNotedIn noted) : before.IsNotedIn noted :=
  fun diagnostic hmem => hnoted diagnostic (h.mem hmem)

/-- An at-rule whose brackets are out of order is noted where it stands. -/
theorem mem_of_reportUnmatched {start stop : Span} {segment : Segment} {bracket : Bracket}
    (hunmatched : segment.unmatched = some bracket)
    (hnoted : (state.reportUnmatched start segment stop).IsNotedIn noted) :
    ⟨start.join (segment.span stop), .unbalancedBlock bracket.closing⟩ ∈ noted :=
  hnoted _ (by simp [reportUnmatched, hunmatched, report])

/-- What is known of a segment behind some lexemes of the source: it has taken all of them from
some place on, in an at-rule those behind the keyword, and while every bracket is closed in order it
has counted them. -/
structure SegmentBounds (passed : List Lexeme) (state : State) (purpose : Purpose)
    (segment : Segment) : Prop where
  taken : segment.lexemes.toList.foldl Segment.push .empty = segment
  keyword : ∀ start name, purpose = .atRule start name → ∃ front keyword,
    passed = front ++ keyword :: segment.lexemes.toList ∧ keyword.token = .atKeyword name ∧
      keyword.span = start
  counts : segment.unmatched = none → segment.Counts (state.limit - state.frames.length)

structure Bounds (source : List Lexeme) (noted : List Diagnostic) (passed : List Lexeme)
    (state : State) : Prop where
  parts : state.EachPart (Part.IsBounded source noted state.limit)
  frames : state.frames.length ≤ state.limit
  segment : ∀ purpose segment, state.segment = some (purpose, segment) →
    state.SegmentBounds passed purpose segment

theorem conditionsWithin_readPrelude {limit depth : Nat} (name : Text) {lexemes : List Lexeme}
    (h : Lexeme.deepest 0 lexemes + depth ≤ limit) :
    (Part.prelude (readPrelude name lexemes)).ConditionsWithin limit depth := by
  unfold readPrelude
  cases hqueries : if name.isKeyword "media" then MediaList.parse? lexemes else none with
  | none => trivial
  | some queries =>
    intro query hquery condition hcondition
    split at hqueries
    · have := MediaList.nesting_of_parse? hqueries query hquery condition hcondition
      omega
    · contradiction

/-- A segment that noted something has brackets out of order. -/
theorem SegmentBounds.isBalanced_eq_false {purpose : Purpose} {segment : Segment}
    (h : state.SegmentBounds passed purpose segment)
    (hunmatched : segment.finish.unmatched ≠ none) :
    Lexeme.isBalanced segment.lexemes.toList = false := by
  rw [Bool.eq_false_iff]
  intro hbalanced
  have hnone := (Segment.unmatched_foldl_push_eq_none_iff .empty segment.lexemes.toList).2
    ⟨rfl, hbalanced⟩
  rw [h.taken] at hnone
  exact hunmatched hnone

/-- What a segment gives, if its brackets are noted where they are out of order. The segment may
have been ended, which takes nothing more. -/
theorem SegmentBounds.gives {purpose : Purpose} {segment ended : Segment}
    (h : state.SegmentBounds passed purpose segment) (hsource : passed <+: source)
    (hframes : state.frames.length ≤ state.limit)
    (hended : ended = segment ∨ ended = segment.finish)
    (hnoted : ∀ start name, purpose = .atRule start name → ∃ before : State, ∃ stop,
      (before.reportUnmatched start ended stop).IsNotedIn noted) :
    purpose.Gives (Part.IsBounded source noted state.limit) state.frames.length ended := by
  have hlexemes : ended.lexemes = segment.lexemes := by
    obtain rfl | rfl := hended <;> rfl
  cases purpose with
  | selector => exact fun _ _ _ => .inl trivial
  | declaration => exact fun _ _ => .inl trivial
  | atRule start name =>
    rw [Purpose.Gives, hlexemes]
    cases hunmatched : ended.unmatched with
    | none =>
      have hnone : segment.unmatched = none := by
        obtain rfl | rfl := hended
        · exact hunmatched
        · exact (Segment.noteUnmatched_eq_none hunmatched).1
      have hdeepest := (h.counts hnone).deepest
      exact .inl (conditionsWithin_readPrelude name (by omega))
    | some bracket =>
      have hsome : segment.finish.unmatched ≠ none := by
        obtain rfl | rfl := hended
        · intro hnone
          rw [(Segment.noteUnmatched_eq_none hnone).1] at hunmatched
          contradiction
        · rw [hunmatched]
          exact Option.some_ne_none bracket
      obtain ⟨front, keyword, hpassed, htoken, rfl⟩ := h.keyword start name rfl
      obtain ⟨back, hback⟩ := hsource
      obtain ⟨before, stop, hbefore⟩ := hnoted _ _ rfl
      have hstands : source = front ++ keyword :: (segment.lexemes.toList ++ back) := by
        rw [← hback, hpassed, List.append_assoc, List.cons_append]
      exact .inr (.prelude hstands htoken (h.isBalanced_eq_false hsome)
        (mem_of_reportUnmatched hunmatched hbefore))

/-- A state whose segment has ended. -/
theorem bounds_of_segment_none {limit : Nat} (hlimit : state.limit = limit)
    (hparts : state.EachPart (Part.IsBounded source noted limit))
    (hframes : state.frames.length ≤ limit) (hsegment : state.segment = none) :
    state.Bounds source noted passed := by
  subst hlimit
  exact ⟨hparts, hframes, by simp [hsegment]⟩

namespace Bounds

variable (h : state.Bounds source noted passed)
include h

theorem closeCurly (hsegment : state.segment = none) (span : Span) :
    (state.closeCurly span).Bounds source noted passed := by
  refine bounds_of_segment_none (limit_closeCurly ..) (h.parts.closeCurly span) ?_ ?_
  · have := h.frames
    unfold State.closeCurly
    split
    · exact this
    · rw [length_frames_closeFrame]
      omega
  · unfold State.closeCurly
    split
    · exact hsegment
    · rw [segment_closeFrame]
      exact hsegment

section Segment

variable (hsource : passed <+: source) {purpose : Purpose} {segment : Segment}
  (hsegment : state.SegmentBounds passed purpose segment) {stop : Span} {behind : List Lexeme}
include hsource hsegment

theorem endSegment (hnoted : (state.endSegment purpose segment stop).IsNotedIn noted) :
    (state.endSegment purpose segment stop).Bounds source noted behind := by
  have hgives : purpose.Gives (Part.IsBounded source noted state.limit) state.frames.length
      segment.finish := by
    refine hsegment.gives hsource h.frames (.inr rfl) ?_
    rintro start name rfl
    have hreport : Keeps (reportUnmatched { state with segment := none } start segment.finish stop)
        (state.endSegment (.atRule start name) segment stop) := (Reports.addAtRule ..).keeps
    exact ⟨_, stop, hreport.isNotedIn hnoted⟩
  refine bounds_of_segment_none (limit_endSegment ..) (h.parts.endSegment hgives stop) ?_
    (segment_endSegment ..)
  rw [length_frames_endSegment]
  exact h.frames

theorem openBlock (hnoted : (state.openBlock purpose segment stop).IsNotedIn noted) :
    (state.openBlock purpose segment stop).Bounds source noted behind := by
  have hgives : purpose.Gives (Part.IsBounded source noted state.limit) state.frames.length
      segment := by
    refine hsegment.gives hsource h.frames (.inl rfl) ?_
    rintro start name rfl
    exact ⟨_, stop, (Keeps.openBlock state _ segment stop).isNotedIn hnoted⟩
  have hparts := h.parts.openBlock hgives stop
  rw [openBlock_eq] at hparts ⊢
  split at hparts
  · rename_i hdeep
    rw [if_pos hdeep]
    refine bounds_of_segment_none (by simp) hparts ?_ (by simp [State.abort])
    refine Nat.le_trans (length_frames_closeFrames_le ..) ?_
    simpa [State.abort] using h.frames
  · rename_i hdeep
    rw [if_neg hdeep]
    refine bounds_of_segment_none (limit_atBlock ..) hparts ?_ (segment_atBlock ..)
    have hroom : state.frames.length + 1 ≤ state.limit := by simpa [isTooDeep] using hdeep
    cases hframe : frame? purpose segment stop with
    | none => exact h.frames
    | some frame => exact hroom

theorem abortSegment (hnoted : (state.abortSegment purpose segment stop).IsNotedIn noted) :
    (state.abortSegment purpose segment stop).Bounds source noted behind := by
  have hgives : purpose.Gives (Part.IsBounded source noted state.limit) state.frames.length
      segment := by
    refine hsegment.gives hsource h.frames (.inl rfl) ?_
    rintro start name rfl
    have hreport : Keeps ((state.abort stop).reportUnmatched start segment stop)
        (state.abortSegment (.atRule start name) segment stop) :=
      ((Reports.addAtRule ..).trans (Reports.closeFrames ..)).keeps
    exact ⟨_, stop, hreport.isNotedIn hnoted⟩
  exact bounds_of_segment_none (limit_abortSegment ..) (h.parts.abortSegment hgives stop)
    (Nat.le_trans (length_frames_abortSegment_le ..) h.frames) (segment_abortSegment ..)

theorem collect {lexeme : Lexeme}
    (hnoted : (state.collect purpose segment lexeme).IsNotedIn noted) :
    (state.collect purpose segment lexeme).Bounds source noted (passed ++ [lexeme]) := by
  unfold State.collect at hnoted ⊢
  split at hnoted
  · rename_i hopens
    rw [if_pos hopens]
    exact h.openBlock hsource hsegment hnoted
  rename_i hopens
  rw [if_neg hopens]
  split at hnoted
  · rename_i hends
    rw [if_pos hends]
    exact h.endSegment hsource hsegment hnoted
  rename_i hends
  rw [if_neg hends]
  unfold extend at hnoted ⊢
  split at hnoted
  · rename_i hdeep
    rw [if_pos hdeep]
    exact h.abortSegment hsource hsegment hnoted
  rename_i hdeep
  rw [if_neg hdeep]
  refine ⟨h.parts.of_eq rfl rfl, h.frames, ?_⟩
  rintro purpose' segment' heq
  obtain ⟨rfl, rfl⟩ := Prod.mk.inj (Option.some.inj heq)
  have hlexemes : (segment.push lexeme).lexemes.toList = segment.lexemes.toList ++ [lexeme] := by
    rw [Segment.lexemes_push, Array.toList_push]
  refine ⟨?_, ?_, fun hunmatched => ?_⟩
  · rw [hlexemes, List.foldl_concat, hsegment.taken]
  · intro start name hpurpose
    obtain ⟨front, keyword, hpassed, hkeyword⟩ := hsegment.keyword start name hpurpose
    exact ⟨front, keyword, by rw [hlexemes, hpassed, List.append_assoc, List.cons_append], hkeyword⟩
  · refine (hsegment.counts (Segment.unmatched_of_push hunmatched)).push ?_ hunmatched
    intro hbracket
    simp only [hbracket, Bool.true_and, isTooDeep, decide_eq_true_eq] at hdeep
    omega

end Segment

theorem begin (hsource : passed <+: source) (hsegment : state.segment = none) {lexeme : Lexeme}
    (hnoted : (state.begin lexeme).IsNotedIn noted) :
    (state.begin lexeme).Bounds source noted (passed ++ [lexeme]) := by
  unfold State.begin at hnoted ⊢
  split at hnoted
  · rename_i hidle
    rw [if_pos hidle]
    exact bounds_of_segment_none rfl h.parts h.frames hsegment
  rename_i hidle
  rw [if_neg hidle]
  split at hnoted
  · have hclear : state.Bounds source noted (passed ++ [lexeme]) :=
      bounds_of_segment_none rfl h.parts h.frames hsegment
    exact hclear.closeCurly hsegment _
  · rename_i name htoken
    refine ⟨h.parts.of_eq rfl rfl, h.frames, ?_⟩
    rintro purpose segment heq
    obtain ⟨rfl, rfl⟩ := Prod.mk.inj (Option.some.inj heq)
    refine ⟨rfl, fun start name' hpurpose => ?_, fun _ => Segment.counts_empty _⟩
    obtain ⟨rfl, rfl⟩ := Purpose.atRule.inj hpurpose
    exact ⟨passed, lexeme, rfl, htoken, rfl⟩
  · refine h.collect hsource ⟨rfl, fun start name hpurpose => ?_, fun _ =>
      Segment.counts_empty _⟩ hnoted
    split at hpurpose <;> contradiction

/-- One lexeme keeps the bounds. -/
theorem step (hsource : passed <+: source) (hgoes : state.aborted = false) {reading : Reading}
    (hnoted : (state.step reading).IsNotedIn noted) :
    (state.step reading).Bounds source noted (passed ++ [reading.lexeme]) := by
  have hnoting : (state.noting reading).Bounds source noted passed := by
    refine ⟨h.parts.of_eq rfl rfl, h.frames, fun purpose segment hsegment => ?_⟩
    obtain ⟨htaken, hkeyword, hcounts⟩ := h.segment purpose segment hsegment
    exact ⟨htaken, hkeyword, hcounts⟩
  cases hsegment : state.segment with
  | none =>
    rw [step_of_segment_none reading hgoes hsegment] at hnoted ⊢
    exact hnoting.begin hsource hsegment hnoted
  | some collected =>
    obtain ⟨purpose, segment⟩ := collected
    have hbounds := hnoting.segment purpose segment hsegment
    rw [step_of_segment_some reading hgoes hsegment] at hnoted ⊢
    split at hnoted
    · rename_i hcloses
      rw [if_pos hcloses]
      have hended := (Reports.closeCurly ..).keeps.isNotedIn hnoted
      exact (hnoting.endSegment hsource hbounds hended).closeCurly (segment_endSegment ..) _
    · rename_i hcloses
      rw [if_neg hcloses]
      exact hnoting.collect hsource hbounds hnoted

theorem foldl {readings : List Reading} (hsource : passed ++ readings.map (·.lexeme) = source)
    (hnoted : (readings.foldl State.step state).IsNotedIn noted) :
    ∃ behind, behind <+: source ∧ (readings.foldl State.step state).Bounds source noted behind := by
  induction readings generalizing state passed with
  | nil => exact ⟨passed, ⟨_, hsource⟩, h⟩
  | cons reading readings ih =>
    have hprefix : passed <+: source := ⟨_, hsource⟩
    cases hgoes : state.aborted with
    | true =>
      rw [foldl_step_of_aborted _ hgoes]
      exact ⟨passed, hprefix, h⟩
    | false =>
      have hstep := (Keeps.foldl (state.step reading) readings).isNotedIn hnoted
      refine ih (h.step hprefix hgoes hstep) ?_ hnoted
      rw [List.append_assoc]
      exact hsource

theorem finish (hsource : passed <+: source) {place : Pos}
    (hnoted : (state.finish place).IsNotedIn noted) :
    (state.finish place).EachPart (Part.IsBounded source noted state.limit) := by
  unfold State.finish at hnoted ⊢
  split at hnoted
  · rename_i haborted
    rw [if_pos haborted]
    exact h.parts
  rename_i haborted
  rw [if_neg haborted]
  cases hsegment : state.segment with
  | none => exact h.parts.closeFrames ..
  | some collected =>
    obtain ⟨purpose, segment⟩ := collected
    simp only [hsegment] at hnoted
    have hended := (Reports.closeFrames ..).keeps.isNotedIn hnoted
    have hbounds : Bounds source noted passed _ :=
      h.endSegment hsource (h.segment purpose segment hsegment) hended
    have hparts := hbounds.parts
    rw [limit_endSegment] at hparts
    exact hparts.closeFrames ..

end Bounds

theorem bounds_initial (source : List Lexeme) (noted : List Diagnostic) (limit : Nat) :
    (initial limit).Bounds source noted [] :=
  bounds_of_segment_none rfl ⟨trivial, trivial⟩ (Nat.zero_le _) rfl

end State

end Parser

/-- The nesting limit bounds the conditions of every media query whose at-rule has its brackets in
order. -/
theorem Stylesheet.eachPart_conditionsWithin (options : ParseOptions) (text : Text) :
    EachPart (Part.IsBounded ((Reading.all options.lineComments 0 text).map (·.lexeme))
      (parse options text).diagnostics options.maxDepth) 0 (parse options text).sheet := by
  have hnoted : ((stateBehind options text).finish (.ofPlace text.byteLength)).IsNotedIn
      (parse options text).diagnostics := fun diagnostic hmem =>
    Diagnostic.mem_sort.2 (Array.mem_toList_iff.2 hmem)
  obtain ⟨passed, hpassed, hbounds⟩ := (State.bounds_initial _ _ options.maxDepth).foldl
    (List.nil_append _) ((State.Reports.finish ..).keeps.isNotedIn hnoted)
  have hparts := (hbounds.finish hpassed hnoted).rules
  rwa [State.limit_foldl] at hparts

/-- Two conditions in one, where two brackets may be open and nothing is out of order. -/
theorem Stylesheet.eachPart_conditionsWithin_two :
    EachPart (fun depth part => part.ConditionsWithin 2 depth) 0
      (parse { maxDepth := 2 } "@media (a) and ((b) or (c))\x7b\x7d".toList).sheet := by
  have hnone : (parse { maxDepth := 2 } "@media (a) and ((b) or (c))\x7b\x7d".toList).diagnostics =
      [] := by decide +kernel
  refine (eachPart_conditionsWithin { maxDepth := 2 }
    "@media (a) and ((b) or (c))\x7b\x7d".toList).imp fun depth part h => h.resolve_right ?_
  rw [hnone]
  rintro ⟨-, -, -, hmem⟩
  contradiction

/-- Round brackets that close square ones along with them hide four conditions in one another from
a limit of three. -/
theorem Stylesheet.not_eachPart_conditionsWithin :
    ¬ EachPart (fun depth part => part.ConditionsWithin 3 depth) 0
      (parse { maxDepth := 3 }
        "@media (a:[)) and ((a:[)) and ((a:[)) and ((a:[)) and (b))))\x7b\x7d".toList).sheet := by
  decide +kernel

end Css
