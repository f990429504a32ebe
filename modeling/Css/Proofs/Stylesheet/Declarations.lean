import Css.Proofs.Stylesheet.Clean
import Css.Proofs.Stylesheet.Blocks
import Css.Proofs.Token.Marks

/-!
# Declarations and their lexemes

A declaration goes on up to a semicolon or a closing curly bracket that stands outside its own curly
brackets (`Lexeme.behind?`). Every declaration of a style sheet was read from lexemes of the source
that go on in this way (`Stylesheet.standsIn_of_mem`), and lexemes that do are collected wherever a
block of declarations leaves room for their brackets (`State.exists_foldl_segment`).
-/

namespace Css

open Lexeme

/-! ### Lexemes that go on -/

/-- A lexeme goes on if it ends nothing, there is room for the bracket that it opens, and it closes
no bracket out of order. -/
theorem Lexeme.behind?_singleton_iff {atBlock atSemicolon : Bool} {room : Nat}
    {stack behind : List Bracket} {lexeme : Lexeme} :
    behind? atBlock atSemicolon room stack [lexeme] = some behind ↔
      ¬(lexeme.token = .opening .curly ∧ stack = [] ∧ atBlock = true) ∧
        (atSemicolon = true → lexeme.token = .semicolon → .curly ∈ stack) ∧
        (lexeme.token.opens?.isSome = true → stack.length < room) ∧
        lexeme.token.follow? stack = some behind := by
  cases hopens : lexeme.token.opens? with
  | some bracket =>
    have hsemicolon : lexeme.token ≠ .semicolon := by
      intro htoken
      rw [htoken] at hopens
      contradiction
    have hcurly : bracket = .curly ↔ lexeme.token = .opening .curly := by
      rw [← Token.opens?_eq_curly, hopens, Option.some.injEq]
    rw [behind?_of_opens? hopens, hcurly]
    simp only [Token.follow?, hopens, Option.some.injEq, Option.isSome_some, forall_const]
    constructor
    · rintro ⟨heq, hroom, hblock⟩
      exact ⟨hblock, fun _ h => absurd h hsemicolon, hroom, heq.symm⟩
    · rintro ⟨hblock, -, hroom, heq⟩
      exact ⟨heq.symm, hroom, hblock⟩
  | none =>
    have hcurly : lexeme.token ≠ .opening .curly := by
      intro htoken
      rw [htoken] at hopens
      contradiction
    simp only [hcurly, false_and, not_false_eq_true, Option.isSome_none, Bool.false_eq_true,
      false_implies, true_and]
    cases hcloses : lexeme.token.closes? with
    | some bracket =>
      have hsemicolon : lexeme.token ≠ .semicolon := by
        intro htoken
        rw [htoken] at hcloses
        contradiction
      rw [behind?_of_closes? hcloses, Token.closes?_eq_some.1 hcloses, Token.follow?_closing]
      simp only [reduceCtorEq, false_implies, implies_true, true_and]
    | none =>
      simp only [Token.follow?, hopens, hcloses, Option.some.injEq]
      by_cases hsemicolon : lexeme.token = .semicolon
      · rw [behind?_of_semicolon hsemicolon]
        constructor
        · rintro ⟨heq, h⟩
          exact ⟨fun hat _ => h hat, heq.symm⟩
        · rintro ⟨h, heq⟩
          exact ⟨heq.symm, fun hat => h hat hsemicolon⟩
      · rw [behind?_singleton, Token.mark?_eq_none.2 ⟨hopens, hcloses, hsemicolon⟩,
          Option.some.injEq]
        exact ⟨fun heq => ⟨fun _ h => absurd h hsemicolon, heq⟩, fun h => h.2⟩

/-- A lexeme that closes no bracket out of order leaves open what it says. -/
theorem Segment.push_of_follow? {segment : Segment} {lexeme : Lexeme} {behind : List Bracket}
    (h : lexeme.token.follow? segment.stack = some behind) :
    (segment.push lexeme).stack = behind ∧
      (segment.push lexeme).unmatched = segment.unmatched := by
  unfold Token.follow? at h
  cases hopens : lexeme.token.opens? with
  | some bracket =>
    simp only [hopens, Option.some.injEq] at h
    simp only [push, hopens, and_true]
    exact h
  | none =>
    cases hcloses : lexeme.token.closes? with
    | none =>
      simp only [hopens, hcloses, Option.some.injEq] at h
      simp only [push, hopens, hcloses, and_true]
      exact h
    | some bracket =>
      simp only [hopens, hcloses, Option.ite_none_right_eq_some, Option.some.injEq] at h
      rw [push_eq_close hcloses, close, if_pos h.1]
      exact ⟨h.2, rfl⟩

/-- A lexeme that closes no bracket out of order is one behind which nothing new is noted. -/
theorem Segment.unmatched_push_eq_none_iff {segment : Segment} {lexeme : Lexeme} :
    (segment.push lexeme).unmatched = none ↔
      segment.unmatched = none ∧
        lexeme.token.follow? segment.stack = some (segment.push lexeme).stack := by
  constructor
  · intro h
    have hfollow := Parser.State.follow?_push_of_unmatched [] h
    rw [List.append_nil, List.append_nil] at hfollow
    exact ⟨unmatched_of_push h, hfollow⟩
  · rintro ⟨h, hfollow⟩
    rw [(push_of_follow? hfollow).2, h]

namespace Parser.State

variable {state : State}

/-! ### Collecting -/

variable {purpose : Purpose}

/-- A lexeme with which a segment goes on is taken up. -/
theorem collect_of_behind? {segment : Segment} {lexeme : Lexeme} {behind : List Bracket}
    (h : behind? purpose.endsAtBlock purpose.endsAtSemicolon (state.limit - state.frames.length)
      segment.stack [lexeme] = some behind) :
    state.collect purpose segment lexeme =
      { state with segment := some (purpose, segment.push lexeme) } := by
  obtain ⟨hblock, hsemicolon, hopens, -⟩ := behind?_singleton_iff.1 h
  have hends : ¬(lexeme.token = .semicolon ∧ (!segment.inCurly) = true ∧
      purpose.endsAtSemicolon = true) := by
    rintro ⟨htoken, hcurly, hat⟩
    have hmem := hsemicolon hat htoken
    simp [Segment.inCurly, hmem] at hcurly
  have hshallow : ¬(lexeme.token.opens?.isSome && state.isTooDeep segment.stack.length) = true := by
    intro hdeep
    simp only [Bool.and_eq_true, isTooDeep, decide_eq_true_eq] at hdeep
    have := hopens hdeep.1
    omega
  rw [collect, if_neg hblock, if_neg hends, extend, if_neg hshallow]

/-- A lexeme with which a segment goes on is no curly bracket that ends it. -/
theorem step_of_behind? {segment : Segment} {reading : Reading} {behind : List Bracket}
    (hgoes : state.aborted = false) (hsegment : state.segment = some (purpose, segment))
    (hproblem : reading.problem = none)
    (h : behind? purpose.endsAtBlock purpose.endsAtSemicolon (state.limit - state.frames.length)
      segment.stack [reading.lexeme] = some behind) :
    state.step reading =
      { state with segment := some (purpose, segment.push reading.lexeme) } := by
  have hcurly : ¬(reading.lexeme.token = .closing .curly ∧ (!segment.inCurly) = true) := by
    rintro ⟨htoken, hcurly⟩
    have hfollow := (behind?_singleton_iff.1 h).2.2.2
    rw [htoken, Token.follow?_closing] at hfollow
    simp [Segment.inCurly, hfollow] at hcurly
  rw [step_of_segment_some reading hgoes hsegment, if_neg hcurly,
    noting_of_problem_none hproblem, collect_of_behind? h]

/-- Lexemes with which a segment goes on are taken up by it. -/
theorem exists_foldl_segment (state : State) {segment : Segment} {readings : List Reading}
    {behind : List Bracket} (hgoes : state.aborted = false)
    (hsegment : state.segment = some (purpose, segment))
    (hproblems : ∀ reading ∈ readings, reading.problem = none)
    (h : behind? purpose.endsAtBlock purpose.endsAtSemicolon (state.limit - state.frames.length)
      segment.stack (readings.map (·.lexeme)) = some behind) :
    ∃ after : Segment, readings.foldl step state =
        { state with segment := some (purpose, after) } ∧
      after.lexemes.toList = segment.lexemes.toList ++ readings.map (·.lexeme) ∧
      after.stack = behind ∧ after.unmatched = segment.unmatched := by
  induction readings generalizing state segment with
  | nil =>
    obtain rfl := Option.some.inj h
    exact ⟨segment, by rw [← hsegment]; rfl, by simp, rfl, rfl⟩
  | cons reading readings ih =>
    obtain ⟨hproblem, hproblems⟩ := List.forall_mem_cons.1 hproblems
    obtain ⟨stack, hstack, hrest⟩ := behind?_cons_eq_some.1 h
    obtain ⟨hpush, hunmatched⟩ := Segment.push_of_follow? (behind?_singleton_iff.1 hstack).2.2.2
    rw [← hpush] at hrest
    obtain ⟨after, hfold, hlexemes, hbehind, hafter⟩ :=
      ih { state with segment := some (purpose, segment.push reading.lexeme) } hgoes rfl
        hproblems hrest
    refine ⟨after, ?_, ?_, hbehind, hafter.trans hunmatched⟩
    · rw [List.foldl_cons, step_of_behind? hgoes hsegment hproblem hstack, hfold]
    · rw [hlexemes, Segment.lexemes_push, Array.toList_push, List.map_cons, List.append_assoc]
      rfl

end Parser.State

/-! ### What a declaration is read from -/

/-- Whether a declaration was read from lexemes of a source, with another one behind them, that open
no more brackets than there is room for. -/
def Declaration.StandsIn (source : List Lexeme) (room : Nat) (declaration : Declaration) : Prop :=
  ∃ lexemes next, lexemes ++ [next] <:+: source ∧ parse true lexemes = .ok declaration ∧
    behind? false true room [] lexemes = some []

/-- Whether a part that stands inside `depth` blocks was read from lexemes of a source, if it is a
declaration. -/
def Part.StandsIn (source : List Lexeme) (limit depth : Nat) : Part → Prop
  | .declaration read => read.StandsIn source (limit - depth)
  | _ => True

namespace Parser.State

variable {state : State} {source : List Lexeme}

def Tallies (room : Nat) (segment : Segment) : Prop :=
  segment.unmatched = none →
    behind? false true room [] segment.lexemes.toList = some segment.stack

theorem Tallies.push {segment : Segment} {lexeme : Lexeme} {room : Nat} (h : Tallies room segment)
    (hsemicolon : lexeme.token = .semicolon → .curly ∈ segment.stack)
    (hroom : lexeme.token.opens?.isSome = true → segment.stack.length < room) :
    Tallies room (segment.push lexeme) := by
  intro hunmatched
  obtain ⟨hbefore, hfollow⟩ := Segment.unmatched_push_eq_none_iff.1 hunmatched
  rw [Segment.lexemes_push, Array.toList_push, behind?_append, h hbefore, Option.bind_some]
  exact behind?_singleton_iff.2
    ⟨fun hblock => Bool.false_ne_true hblock.2.2, fun _ => hsemicolon, hroom, hfollow⟩

structure Gathers (source : List Lexeme) (state : State) : Prop where
  parts : state.EachPart fun depth part => part.StandsIn source state.limit depth
  tallies : ∀ segment, state.segment = some (.declaration, segment) →
    Tallies (state.limit - state.frames.length) segment

theorem gives_of_endsAtBlock {limit depth : Nat} {purpose : Purpose}
    (hpurpose : purpose.endsAtBlock = true) (segment : Segment) :
    purpose.Gives (fun depth part => part.StandsIn source limit depth) depth segment := by
  cases purpose with
  | selector => exact fun _ _ _ => trivial
  | atRule start name => trivial
  | declaration => contradiction

theorem gives_of_tallies {limit depth : Nat} {purpose : Purpose} {segment : Segment} {next : Lexeme}
    (hsource : segment.lexemes.toList ++ [next] <:+: source)
    (h : purpose = .declaration → Tallies (limit - depth) segment) :
    purpose.Gives (fun depth part => part.StandsIn source limit depth) depth segment.finish := by
  cases purpose with
  | selector => exact fun _ _ _ => trivial
  | atRule start name => trivial
  | declaration =>
    intro declaration hparse
    have hclosed := Declaration.isClosed_of_parse hparse
    obtain ⟨hunmatched, hhead⟩ :=
      Segment.noteUnmatched_eq_none (Option.isNone_iff_eq_none.1 hclosed)
    rw [hclosed] at hparse
    refine ⟨segment.lexemes.toList, next, hsource, hparse, ?_⟩
    rw [h rfl hunmatched, List.head?_eq_none_iff.1 hhead]

namespace Gathers

theorem of_segment_none {limit : Nat} (hlimit : state.limit = limit)
    (hparts : state.EachPart fun depth part => part.StandsIn source limit depth)
    (hsegment : state.segment = none) : state.Gathers source := by
  subst hlimit
  exact ⟨hparts, by simp [hsegment]⟩

theorem closeCurly (h : state.Gathers source) (hsegment : state.segment = none) (span : Span) :
    (state.closeCurly span).Gathers source :=
  of_segment_none (limit_closeCurly ..) (h.parts.closeCurly span)
    ((segment_closeCurly ..).trans hsegment)

theorem noting (h : state.Gathers source) (reading : Reading) :
    (state.noting reading).Gathers source :=
  ⟨h.parts.of_eq rfl rfl, h.tallies⟩

variable {purpose : Purpose} {segment : Segment} {lexeme : Lexeme}

theorem endSegment (h : state.Gathers source)
    (hsource : segment.lexemes.toList ++ [lexeme] <:+: source)
    (htallies : purpose = .declaration → Tallies (state.limit - state.frames.length) segment)
    (stop : Span) : (state.endSegment purpose segment stop).Gathers source :=
  of_segment_none (limit_endSegment ..)
    (h.parts.endSegment (gives_of_tallies hsource htallies) stop) (segment_endSegment ..)

theorem collect (h : state.Gathers source)
    (hsource : segment.lexemes.toList ++ [lexeme] <:+: source)
    (htallies : purpose = .declaration → Tallies (state.limit - state.frames.length) segment)
    (hgoes : (state.collect purpose segment lexeme).aborted = false) :
    (state.collect purpose segment lexeme).Gathers source := by
  have hlimit := limit_collect state purpose segment lexeme
  unfold State.collect at hgoes hlimit ⊢
  split
  · rename_i hopens
    rw [if_pos hopens] at hlimit
    exact of_segment_none hlimit (h.parts.openBlock (gives_of_endsAtBlock hopens.2.2 segment) _)
      (segment_openBlock ..)
  rename_i hopens
  rw [if_neg hopens] at hgoes
  split
  · exact h.endSegment hsource htallies _
  rename_i hends
  rw [if_neg hends] at hgoes
  rw [extend_of_aborted_eq_false state hgoes]
  refine ⟨h.parts.of_eq rfl rfl, ?_⟩
  rintro segment' heq
  obtain ⟨rfl, rfl⟩ := Prod.mk.inj (Option.some.inj heq)
  refine (htallies rfl).push (fun htoken => ?_) fun hbracket => ?_
  · simpa [htoken, Purpose.endsAtSemicolon, Segment.inCurly] using hends
  · unfold extend at hgoes
    split at hgoes
    · rw [aborted_abortSegment] at hgoes
      contradiction
    · rename_i hshallow
      simp only [hbracket, Bool.true_and, isTooDeep, decide_eq_true_eq] at hshallow
      omega

theorem begin (h : state.Gathers source) (hsegment : state.segment = none)
    (hsource : [lexeme] <:+: source) (hgoes : (state.begin lexeme).aborted = false) :
    (state.begin lexeme).Gathers source := by
  unfold State.begin at hgoes ⊢
  split
  · exact h
  rename_i hidle
  rw [if_neg hidle] at hgoes
  split at hgoes
  · exact h.closeCurly hsegment _
  · refine ⟨h.parts.of_eq rfl rfl, ?_⟩
    rintro segment heq
    cases heq
  · exact h.collect hsource (fun _ _ => rfl) hgoes

/-- A step goes on gathering, as long as the lexemes belong to the source. -/
theorem step (h : state.Gathers source) {reading : Reading}
    (hsource : state.pending ++ [reading.lexeme] <:+: source)
    (hgoes : (state.step reading).aborted = false) : (state.step reading).Gathers source := by
  have hstate := aborted_eq_false_of_step hgoes
  cases hsegment : state.segment with
  | none =>
    rw [pending_of_segment_none hsegment] at hsource
    rw [step_of_segment_none reading hstate hsegment] at hgoes ⊢
    exact (h.noting reading).begin hsegment hsource hgoes
  | some collected =>
    obtain ⟨purpose, segment⟩ := collected
    have htallies : purpose = .declaration →
        Tallies (state.limit - state.frames.length) segment := by
      rintro rfl
      exact h.tallies segment hsegment
    rw [pending_of_segment_some hsegment] at hsource
    rw [step_of_segment_some reading hstate hsegment] at hgoes ⊢
    split
    · exact ((h.noting reading).endSegment hsource htallies _).closeCurly (segment_endSegment ..) _
    · rename_i hcloses
      rw [if_neg hcloses] at hgoes
      exact (h.noting reading).collect hsource htallies hgoes

/-- A run that is not given up gathers what it has read. -/
theorem foldl (h : state.Gathers source) {readings : List Reading}
    (hsource : state.pending ++ readings.map (·.lexeme) <:+: source)
    (hgoes : (readings.foldl State.step state).aborted = false) :
    (readings.foldl State.step state).Gathers source := by
  induction readings generalizing state with
  | nil => exact h
  | cons reading readings ih =>
    have hstep : (state.step reading).aborted = false := aborted_eq_false_of_foldl hgoes
    have hfirst : state.pending ++ [reading.lexeme] <:+: source :=
      List.IsInfix.trans ⟨[], readings.map (·.lexeme), by simp⟩ hsource
    refine ih (h.step hfirst hstep) ?_ hgoes
    refine List.IsInfix.trans ?_ hsource
    obtain hpending | hpending := pending_step reading (aborted_eq_false_of_step hstep)
    · exact ⟨state.pending ++ [reading.lexeme], [], by simp [hpending]⟩
    · exact ⟨[], [], by simp [hpending]⟩

theorem initial (source : List Lexeme) (limit : Nat) : (State.initial limit).Gathers source :=
  of_segment_none rfl ⟨trivial, trivial⟩ rfl

/-- What is left at the end of a source gives no declaration outside all blocks. -/
theorem finish (h : state.Gathers source) (hframes : state.frames = []) (place : Pos) :
    (state.finish place).EachPart fun depth part => part.StandsIn source state.limit depth := by
  unfold State.finish
  split
  · exact h.parts
  cases hsegment : state.segment with
  | none => exact h.parts.closeFrames ..
  | some collected =>
    obtain ⟨purpose, segment⟩ := collected
    refine EachPart.closeFrames ?_ ..
    cases purpose with
    | declaration =>
      refine h.parts.of_eq ?_ ?_ <;>
        (unfold State.endSegment; simp only; split <;> simp [addDeclaration, report, hframes])
    | _ => exact h.parts.endSegment (gives_of_endsAtBlock rfl _) _

end Gathers

end Parser.State

/-! ### The declarations of a style sheet -/

mutual

def Rule.declarations : Rule → List Declaration
  | .style _ declarations => declarations
  | .statement _ _ => []
  | .group _ _ rules => Stylesheet.declarations rules
  | .descriptors _ _ declarations => declarations

def Stylesheet.declarations : List Rule → List Declaration
  | [] => []
  | rule :: rules => rule.declarations ++ Stylesheet.declarations rules

end

section EachPart

variable {holds : Nat → Part → Prop} {declaration : Declaration}

mutual

/-- A declaration is a part that stands inside one block at least. -/
theorem Rule.EachPart.of_mem {depth : Nat} {rule : Rule} (h : rule.EachPart holds depth)
    (hmem : declaration ∈ rule.declarations) :
    ∃ inside, depth < inside ∧ inside ≤ depth + rule.blockDepth ∧
      holds inside (.declaration declaration) := by
  cases rule with
  | style selectors declarations => exact ⟨depth + 1, by simp, Nat.le_refl _, h.2 _ hmem⟩
  | statement name prelude => contradiction
  | group name prelude rules =>
    obtain ⟨inside, hlt, hle, hholds⟩ := Stylesheet.EachPart.of_mem h.2 hmem
    exact ⟨inside, by omega, by rw [Rule.blockDepth]; omega, hholds⟩
  | descriptors name prelude declarations =>
    exact ⟨depth + 1, by simp, Nat.le_refl _, h.2 _ hmem⟩

theorem Stylesheet.EachPart.of_mem {depth : Nat} {rules : List Rule}
    (h : Stylesheet.EachPart holds depth rules)
    (hmem : declaration ∈ Stylesheet.declarations rules) :
    ∃ inside, depth < inside ∧ inside ≤ depth + Stylesheet.blockDepth rules ∧
      holds inside (.declaration declaration) := by
  cases rules with
  | nil => contradiction
  | cons rule rules =>
    rw [Stylesheet.declarations, List.mem_append] at hmem
    rw [Stylesheet.blockDepth]
    obtain hmem | hmem := hmem
    · obtain ⟨inside, hlt, hle, hholds⟩ := Rule.EachPart.of_mem h.1 hmem
      exact ⟨inside, hlt, by omega, hholds⟩
    · obtain ⟨inside, hlt, hle, hholds⟩ := Stylesheet.EachPart.of_mem h.2 hmem
      exact ⟨inside, hlt, by omega, hholds⟩

end

end EachPart

namespace Stylesheet

open Css.Parser (State)

variable {options : ParseOptions} {text : Text}

theorem clean_stateBehind (h : (parse options text).diagnostics = []) :
    (stateBehind options text).Clean ∧ (stateBehind options text).openBrackets = [] := by
  have hgoes : (stateBehind options text).aborted = false :=
    aborted_stateBehind (by rw [h]; simp)
  have hdiagnostics :
      ((stateBehind options text).finish (.ofPlace text.byteLength)).diagnostics = #[] := by
    rw [parse_eq] at h
    simpa [Diagnostic.sort] using congrArg List.length h
  exact State.Clean.of_finish hgoes hdiagnostics

end Stylesheet

end Css
