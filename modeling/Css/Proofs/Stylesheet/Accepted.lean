import Css.Proofs.Stylesheet.Grammar
import Css.Proofs.Stylesheet.Recast

/-!
# Reading what the grammar derives

Lexemes that derive rules are read as these rules, and nothing is noted (`AreRules.parse_eq`). The
parser collects each part up to what ends it, and opens and closes a block where the derivation has
one. At the end of a block or of the source the last part may still be in the making
(`State.Settles`).
-/

namespace Css

open Lexeme

/-- A segment in which every bracket was closed in order has nothing to note. -/
theorem Segment.finish_eq_self {segment : Segment} (hstack : segment.stack = [])
    (hunmatched : segment.unmatched = none) : segment.finish = segment := by
  rw [finish, hstack, noteUnmatched, hunmatched]
  obtain ⟨lexemes, stack, unmatched⟩ := segment
  obtain rfl : unmatched = none := hunmatched
  rfl

namespace Parser.State

variable {state target : State}

/-! ### States that differ in their segment -/

theorem inDeclarations_addDeclaration (state : State) (declaration : Declaration) :
    (state.addDeclaration declaration).inDeclarations = state.inDeclarations := by
  unfold addDeclaration
  split <;> simp [inDeclarations, Frame.holdsDeclarations, *]

theorem inDeclarations_addRule (state : State) (rule : Rule) :
    (state.addRule rule).inDeclarations = state.inDeclarations := by
  unfold addRule
  split <;> simp [inDeclarations, Frame.holdsDeclarations, *]

theorem addAtRule_eq (h : state.inDeclarations = false) (start : Span) (rule : Rule) :
    state.addAtRule start rule = state.addRule rule := by
  rw [addAtRule, h, if_neg Bool.false_ne_true]

theorem isIdle_eq_isIdleAt (h : state.inDeclarations = false) (token : Token) :
    state.isIdle token = token.isIdleAt state.frames.length := by
  rw [isIdle, h, Token.isIdleAt, Bool.false_and, Bool.or_false]
  cases state.frames <;> rfl

theorem isIdle_of_inDeclarations (h : state.inDeclarations = true) (token : Token) :
    state.isIdle token = (token.isTrivia || token == .semicolon) := by
  have hframes : state.frames.isEmpty = false :=
    List.isEmpty_eq_false_iff.2 (frames_ne_nil_of_inDeclarations h)
  rw [isIdle, h, hframes, Bool.true_and, Bool.false_and, Bool.or_false]

/-! ### Between parts -/

/-- Whether nothing is being collected inside `depth` blocks. -/
structure AtRest (limit depth : Nat) (state : State) : Prop where
  limit : state.limit = limit
  depth : state.frames.length = depth
  aborted : state.aborted = false
  segment : state.segment = none

namespace AtRest

variable {limit depth : Nat}

theorem addDeclaration (h : state.AtRest limit depth) (declaration : Declaration) :
    (state.addDeclaration declaration).AtRest limit depth where
  limit := (limit_addDeclaration ..).trans h.limit
  depth := (length_frames_addDeclaration ..).trans h.depth
  aborted := (aborted_addDeclaration ..).trans h.aborted
  segment := (segment_addDeclaration ..).trans h.segment

theorem addRule (h : state.AtRest limit depth) (rule : Rule) :
    (state.addRule rule).AtRest limit depth where
  limit := (limit_addRule ..).trans h.limit
  depth := (length_frames_addRule ..).trans h.depth
  aborted := (aborted_addRule ..).trans h.aborted
  segment := (segment_addRule ..).trans h.segment

theorem openFrame (h : state.AtRest limit depth) (frame : Frame) :
    AtRest limit (depth + 1) { state with frames := frame :: state.frames } where
  limit := h.limit
  depth := congrArg (· + 1) h.depth
  aborted := h.aborted
  segment := h.segment

theorem foldl {α : Type} {add : State → α → State}
    (hadd : ∀ state item, AtRest limit depth state → AtRest limit depth (add state item))
    (items : List α) (h : state.AtRest limit depth) :
    (items.foldl add state).AtRest limit depth := by
  induction items generalizing state with
  | nil => exact h
  | cons item items ih => exact ih (hadd state item h)

end AtRest

/-! ### Steps between parts -/

theorem stepLexeme_none {lexeme : Lexeme} (hgoes : state.aborted = false)
    (hsegment : state.segment = none) : state.stepLexeme lexeme = state.begin lexeme := by
  rw [stepLexeme, step_of_segment_none _ hgoes hsegment, noting_of_problem_none rfl]

theorem stepLexeme_some {lexeme : Lexeme} {purpose : Purpose} {segment : Segment}
    (hgoes : state.aborted = false) (hsegment : state.segment = some (purpose, segment)) :
    state.stepLexeme lexeme =
      if lexeme.token = .closing .curly ∧ !segment.inCurly then
        (state.endSegment purpose segment lexeme.span).closeCurly lexeme.span
      else state.collect purpose segment lexeme := by
  rw [stepLexeme, step_of_segment_some _ hgoes hsegment, noting_of_problem_none rfl]

theorem stepLexeme_idle {lexeme : Lexeme} (hgoes : state.aborted = false)
    (hsegment : state.segment = none) (hidle : state.isIdle lexeme.token = true) :
    state.stepLexeme lexeme = state := by
  rw [stepLexeme_none hgoes hsegment, begin, if_pos hidle]

theorem stepLexeme_closing {closer : Lexeme} (hgoes : state.aborted = false)
    (hsegment : state.segment = none) (hcloser : closer.token = .closing .curly) :
    state.stepLexeme closer = state.closeCurly closer.span := by
  have hidle : state.isIdle closer.token = false := by
    simp [hcloser, isIdle, Token.isTrivia]
  rw [stepLexeme_none hgoes hsegment, begin, hidle, if_neg Bool.false_ne_true]
  simp only [hcloser]

theorem stepLexeme_atKeyword {keyword : Lexeme} {name : Text} (hgoes : state.aborted = false)
    (hsegment : state.segment = none) (hkeyword : keyword.token = .atKeyword name) :
    state.stepLexeme keyword =
      { state with segment := some (.atRule keyword.span name, .empty) } := by
  have hidle : state.isIdle keyword.token = false := by
    simp [hkeyword, isIdle, Token.isTrivia]
  rw [stepLexeme_none hgoes hsegment, begin, hidle, if_neg Bool.false_ne_true]
  simp only [hkeyword]

/-! ### Collecting a part -/

section Collecting

variable {purpose : Purpose} {lexemes : List Lexeme}

/-- A part starts with its first lexeme, as if its segment had been started before. -/
theorem stepLexeme_start {first : Lexeme} {behind : List Bracket} (hgoes : state.aborted = false)
    (hsegment : state.segment = none)
    (hpurpose : (if state.inDeclarations then .declaration else .selector) = purpose)
    (hidle : state.isIdle first.token = false) (hkeyword : ∀ name, first.token ≠ .atKeyword name)
    (h : behind? purpose.endsAtBlock purpose.endsAtSemicolon (state.limit - state.frames.length)
      [] [first] = some behind) :
    state.stepLexeme first =
      ({ state with segment := some (purpose, .empty) } : State).stepLexeme first := by
  have hcloses : first.token ≠ .closing .curly := by
    intro htoken
    have hfollow := (behind?_singleton_iff.1 h).2.2.2
    rw [htoken, Token.follow?_closing] at hfollow
    contradiction
  have hbegin : state.begin first = state.collect purpose .empty first := by
    rw [begin, hidle, if_neg Bool.false_ne_true, hpurpose]
    split
    · exact absurd ‹_› hcloses
    · exact absurd ‹_› (hkeyword _)
    · rfl
  have hafter := @step_of_behind? { state with segment := some (purpose, .empty) } purpose .empty
    ⟨first, none⟩ _ hgoes rfl rfl h
  rw [stepLexeme_none hgoes hsegment, hbegin, collect_of_behind? h]
  exact hafter.symm

/-- A part is collected up to its last lexeme. -/
theorem exists_foldl_part (hgoes : state.aborted = false)
    (hsegment : state.segment = some (purpose, .empty))
    (h : behind? purpose.endsAtBlock purpose.endsAtSemicolon (state.limit - state.frames.length)
      [] lexemes = some []) :
    ∃ segment : Segment, lexemes.foldl stepLexeme state =
        { state with segment := some (purpose, segment) } ∧
      segment.lexemes.toList = lexemes ∧ segment.stack = [] ∧ segment.unmatched = none := by
  have hlexemes : (lexemes.map (⟨·, none⟩ : Lexeme → Reading)).map (·.lexeme) = lexemes := by
    rw [List.map_map]
    exact List.map_id _
  obtain ⟨segment, hfold, hcollected, hstack, hunmatched⟩ :=
    @exists_foldl_segment purpose state .empty (lexemes.map (⟨·, none⟩)) [] hgoes hsegment
      (by simp) (by rwa [hlexemes])
  rw [List.foldl_map] at hfold
  rw [hlexemes] at hcollected
  exact ⟨segment, hfold, by simpa [Segment.empty] using hcollected, hstack, hunmatched⟩

/-- A declaration or the selectors of a rule are collected from their first lexeme on. -/
theorem exists_foldl_start {first : Lexeme} {rest : List Lexeme} (hgoes : state.aborted = false)
    (hsegment : state.segment = none)
    (hpurpose : (if state.inDeclarations then .declaration else .selector) = purpose)
    (hidle : state.isIdle first.token = false) (hkeyword : ∀ name, first.token ≠ .atKeyword name)
    (h : behind? purpose.endsAtBlock purpose.endsAtSemicolon (state.limit - state.frames.length)
      [] (first :: rest) = some []) :
    ∃ segment : Segment, (first :: rest).foldl stepLexeme state =
        { state with segment := some (purpose, segment) } ∧
      segment.lexemes.toList = first :: rest ∧ segment.stack = [] ∧ segment.unmatched = none := by
  obtain ⟨behind, hbehind, -⟩ := behind?_cons_eq_some.1 h
  obtain ⟨segment, hfold, hparts⟩ :=
    @exists_foldl_part { state with segment := some (purpose, .empty) } purpose _ hgoes rfl h
  refine ⟨segment, ?_, hparts⟩
  rw [List.foldl_cons, stepLexeme_start hgoes hsegment hpurpose hidle hkeyword hbehind,
    ← List.foldl_cons, hfold]

/-- A curly bracket opens the block of what was collected. -/
theorem stepLexeme_opening {segment : Segment} {opener : Lexeme} (hgoes : state.aborted = false)
    (hsegment : state.segment = some (purpose, segment)) (hstack : segment.stack = [])
    (hunmatched : segment.unmatched = none) (hends : purpose.endsAtBlock = true)
    (hdepth : state.frames.length < state.limit) (hopener : opener.token = .opening .curly) :
    state.stepLexeme opener =
      { state with
        segment := none
        frames := (frame? purpose segment opener.span).toList ++ state.frames } := by
  have hdeep : state.isTooDeep 0 = false := by
    rw [isTooDeep, decide_eq_false_iff_not]
    omega
  have hblock : state.atBlock purpose segment opener.span = { state with segment := none } := by
    cases purpose with
    | atRule start name => rw [atBlock, reportUnmatched, hunmatched]
    | selector => rfl
    | declaration => rfl
  rw [stepLexeme_some hgoes hsegment, if_neg (by simp [hopener]), collect,
    if_pos ⟨hopener, hstack, hends⟩, openBlock_eq, hdeep, if_neg Bool.false_ne_true, hblock]

end Collecting

/-! ### Closing blocks -/

/-- A style rule with its declarations is added where its block closes. -/
theorem closeFrame_style (state : State) (selectors : SelectorList) (span : Span)
    (before : Array Declaration) (declarations : List Declaration) :
    (declarations.foldl addDeclaration
      { state with frames := .style (.ok selectors) span before :: state.frames }).closeFrame =
      state.addRule (.style selectors (before.toList ++ declarations)) := by
  induction declarations generalizing before with
  | nil =>
    rw [List.append_nil]
    rfl
  | cons declaration declarations ih =>
    have hrest := ih (before.push declaration)
    rw [Array.toList_push, List.append_assoc] at hrest
    exact hrest

theorem closeFrame_descriptors (hout : state.inDeclarations = false) (start : Span) (name : Text)
    (prelude : Prelude) (before : Array Declaration) (declarations : List Declaration) :
    (declarations.foldl addDeclaration
      { state with frames := .descriptors start name prelude before :: state.frames }).closeFrame =
      state.addRule (.descriptors name prelude (before.toList ++ declarations)) := by
  induction declarations generalizing before with
  | nil =>
    rw [List.append_nil]
    exact addAtRule_eq hout start _
  | cons declaration declarations ih =>
    have hrest := ih (before.push declaration)
    rw [Array.toList_push, List.append_assoc] at hrest
    exact hrest

theorem closeFrame_group (hout : state.inDeclarations = false) (start : Span) (name : Text)
    (prelude : Prelude) (before : Array Rule) (rules : List Rule) :
    (rules.foldl addRule
      { state with frames := .group start name prelude before :: state.frames }).closeFrame =
      state.addRule (.group name prelude (before.toList ++ rules)) := by
  induction rules generalizing before with
  | nil =>
    rw [List.append_nil]
    exact addAtRule_eq hout start _
  | cons rule rules ih =>
    have hrest := ih (before.push rule)
    rw [Array.toList_push, List.append_assoc] at hrest
    exact hrest

/-- Outside all blocks the rules of the sheet are what is added. -/
theorem foldl_addRule (rules : List Rule) (hframes : state.frames = []) :
    (rules.foldl addRule state).frames = [] ∧
      (rules.foldl addRule state).rules.toList = state.rules.toList ++ rules ∧
      (rules.foldl addRule state).diagnostics = state.diagnostics := by
  induction rules generalizing state with
  | nil => exact ⟨hframes, (List.append_nil _).symm, rfl⟩
  | cons rule rules ih =>
    have hadd : state.addRule rule = { state with rules := state.rules.push rule } := by
      rw [addRule, hframes]
    obtain ⟨hfold, hrules, hdiagnostics⟩ := @ih (state.addRule rule) (by rw [hadd]; exact hframes)
    rw [hadd] at hrules hdiagnostics
    refine ⟨hfold, ?_, ?_⟩
    · rw [List.foldl_cons, hadd, hrules, Array.toList_push, List.append_assoc]
      rfl
    · rw [List.foldl_cons, hadd, hdiagnostics]

/-! ### Settled states -/

/-- Whether a state becomes another one as soon as the part ends that it may be collecting. -/
inductive Settles (target : State) : State → Prop
  | done : target.aborted = false → target.segment = none → Settles target target
  | pending {state : State} {purpose : Purpose} {segment : Segment} : state.aborted = false →
    state.segment = some (purpose, segment) → segment.stack = [] →
    (∀ stop, state.endSegment purpose segment stop = target) → Settles target state

namespace Settles

/-- A curly bracket ends the part. -/
theorem stepLexeme (h : Settles target state) {closer : Lexeme}
    (hcloser : closer.token = .closing .curly) :
    state.stepLexeme closer = target.closeCurly closer.span := by
  cases h with
  | done hgoes hsegment => exact stepLexeme_closing hgoes hsegment hcloser
  | pending hgoes hsegment hstack hends =>
    rw [stepLexeme_some hgoes hsegment, if_pos ⟨hcloser, by simp [Segment.inCurly, hstack]⟩, hends]

/-- The end of the source ends the part. -/
theorem finish (h : Settles target state) (place : Pos) :
    state.finish place = closeFrames (some (.point place)) target.frames target := by
  cases h with
  | done hgoes hsegment =>
    rw [State.finish, hgoes, if_neg Bool.false_ne_true]
    simp only [hsegment]
  | pending hgoes hsegment _ hends =>
    rw [State.finish, hgoes, if_neg Bool.false_ne_true]
    simp only [hsegment, hends]

end Settles

/-! ### Parts -/

/-- The lexemes of a declaration are collected, and where it ends it is added. -/
theorem exists_foldl_declaration {limit depth : Nat} {lexemes : List Lexeme}
    {declaration : Declaration} (h : IsDeclaration (limit - depth) lexemes declaration)
    (hrest : state.AtRest limit depth) (hin : state.inDeclarations = true) :
    ∃ segment : Segment, lexemes.foldl stepLexeme state =
        { state with segment := some (.declaration, segment) } ∧ segment.stack = [] ∧
      ∀ stop, State.endSegment { state with segment := some (.declaration, segment) } .declaration
        segment stop = state.addDeclaration declaration := by
  obtain ⟨rfl, rfl, hgoes, hsegment⟩ := hrest
  obtain ⟨first, hfirst, hsolid⟩ := h.solid
  obtain ⟨rest, rfl⟩ := List.head?_eq_some_iff.1 hfirst
  have hsemicolon : first.token ≠ .semicolon := by
    intro htoken
    obtain ⟨middle, hmiddle, -⟩ := behind?_cons_eq_some.1 h.goesOn
    exact List.not_mem_nil (((behind?_of_semicolon htoken).1 hmiddle).2 rfl)
  have hidle : state.isIdle first.token = false := by
    rw [isIdle_of_inDeclarations hin, beq_eq_false_iff_ne.2 hsemicolon, Bool.or_false]
    exact hsolid
  have hkeyword : ∀ name, first.token ≠ .atKeyword name := by
    intro name htoken
    have hparse := h.parse
    rw [Declaration.parse, Declaration.cutName, next?_of_not_isTrivia hsolid, htoken] at hparse
    contradiction
  obtain ⟨segment, hfold, hlexemes, hstack, hunmatched⟩ :=
    @exists_foldl_start state .declaration first rest hgoes hsegment (by rw [hin]; rfl) hidle
      hkeyword h.goesOn
  refine ⟨segment, hfold, hstack, fun stop => ?_⟩
  have hparse := h.parse
  rw [← hlexemes] at hparse
  rw [endSegment, Segment.finish_eq_self hstack hunmatched, hunmatched]
  simp only [Option.isNone_none, hparse]
  rw [← hsegment]

/-- A semicolon ends what was collected. -/
theorem stepLexeme_semicolon {purpose : Purpose} {segment : Segment} {semicolon : Lexeme}
    (hgoes : state.aborted = false) (hsegment : state.segment = some (purpose, segment))
    (hstack : segment.stack = []) (hends : purpose.endsAtSemicolon = true)
    (hsemicolon : semicolon.token = .semicolon) :
    state.stepLexeme semicolon = state.endSegment purpose segment semicolon.span := by
  rw [stepLexeme_some hgoes hsegment, if_neg (by simp [hsemicolon]), collect,
    if_neg (by simp [hsemicolon]), if_pos ⟨hsemicolon, by simp [Segment.inCurly, hstack], hends⟩]

/-- The declarations of a block are added one by one. -/
theorem settles_of_areDeclarations {room limit depth : Nat} {lexemes : List Lexeme}
    {declarations : List Declaration} (h : AreDeclarations room lexemes declarations)
    (hroom : room = limit - depth) (hrest : state.AtRest limit depth)
    (hin : state.inDeclarations = true) :
    Settles (declarations.foldl addDeclaration state) (lexemes.foldl stepLexeme state) := by
  induction h generalizing state with
  | nil => exact .done hrest.aborted hrest.segment
  | @idle lexeme lexemes declarations hidle _ ih =>
    have hstate : state.isIdle lexeme.token = true := by
      rw [isIdle_of_inDeclarations hin, Bool.or_eq_true, beq_iff_eq]
      exact hidle
    rw [List.foldl_cons, stepLexeme_idle hrest.aborted hrest.segment hstate]
    exact ih hrest hin
  | last hdeclaration =>
    subst hroom
    obtain ⟨segment, hfold, hstack, hends⟩ := exists_foldl_declaration hdeclaration hrest hin
    rw [hfold]
    exact .pending hrest.aborted rfl hstack hends
  | @more lexemes rest semicolon declaration declarations hdeclaration hsemicolon _ ih =>
    subst hroom
    obtain ⟨segment, hfold, hstack, hends⟩ := exists_foldl_declaration hdeclaration hrest hin
    have hstep := @stepLexeme_semicolon { state with segment := some (.declaration, segment) }
      _ _ semicolon hrest.aborted rfl hstack rfl hsemicolon
    have hread : (lexemes ++ semicolon :: rest).foldl stepLexeme state =
        rest.foldl stepLexeme (state.addDeclaration declaration) := by
      rw [List.foldl_append, hfold, List.foldl_cons, hstep, hends]
    rw [hread, List.foldl_cons]
    apply ih
    · exact hrest.addDeclaration declaration
    · rw [inDeclarations_addDeclaration, hin]

/-! ### Rules -/

section Rules

variable {limit depth : Nat} {head body rest : List Lexeme} {opener closer : Lexeme}

/-- Behind its selectors a style rule opens its block. -/
theorem exists_foldl_head {selectors : SelectorList} (h : IsHead limit depth head selectors)
    (hdepth : depth < limit) (hopener : opener.token = .opening .curly)
    (hrest : state.AtRest limit depth) (hout : state.inDeclarations = false) :
    ∃ span, (head ++ [opener]).foldl stepLexeme state =
      { state with frames := .style (.ok selectors) span #[] :: state.frames } := by
  obtain ⟨rfl, rfl, hgoes, hsegment⟩ := hrest
  obtain ⟨first, hfirst, hidle, hkeyword⟩ := h.starts
  obtain ⟨others, rfl⟩ := List.head?_eq_some_iff.1 hfirst
  obtain ⟨segment, hfold, hlexemes, hstack, hunmatched⟩ :=
    @exists_foldl_start state .selector first others hgoes hsegment (by rw [hout]; rfl)
      ((isIdle_eq_isIdleAt hout _).trans hidle) hkeyword h.goesOn
  have hopens := @stepLexeme_opening { state with segment := some (.selector, segment) } .selector
    segment opener hgoes rfl hstack hunmatched rfl hdepth hopener
  have hframe : frame? .selector segment opener.span =
      some (.style (.ok selectors) (segment.span opener.span) #[]) := by
    simp only [frame?, hunmatched, hlexemes, h.parse, Option.isSome_none, Bool.false_eq_true,
      if_false]
  refine ⟨segment.span opener.span, ?_⟩
  rw [List.foldl_append, hfold, List.foldl_cons, List.foldl_nil, hopens, hframe, ← hsegment]
  rfl

/-- An at-rule is collected with its name and its prelude. -/
theorem exists_foldl_atHead {name : Text} {prelude : Prelude}
    (h : IsAtHead limit depth head name prelude) (hrest : state.AtRest limit depth) :
    ∃ start segment, head.foldl stepLexeme state =
        { state with segment := some (.atRule start name, segment) } ∧
      segment.stack = [] ∧ segment.unmatched = none ∧
      readPrelude name segment.lexemes.toList = prelude := by
  obtain ⟨rfl, rfl, hgoes, hsegment⟩ := hrest
  cases h with
  | @intro keyword lexemes _ hkeyword hbehind =>
    obtain ⟨segment, hfold, hlexemes, hstack, hunmatched⟩ := @exists_foldl_part
      { state with segment := some (.atRule keyword.span name, .empty) }
      (.atRule keyword.span name) lexemes hgoes rfl hbehind
    refine ⟨keyword.span, segment, ?_, hstack, hunmatched, by rw [hlexemes]⟩
    rw [List.foldl_cons, stepLexeme_atKeyword hgoes hsegment hkeyword, hfold]

/-- Behind its prelude an at-rule opens its block. -/
theorem exists_foldl_atBlock {name : Text} {prelude : Prelude}
    (h : IsAtHead limit depth head name prelude) (hdepth : depth < limit)
    (hopener : opener.token = .opening .curly) (hrest : state.AtRest limit depth) :
    ∃ start, (head ++ [opener]).foldl stepLexeme state =
      { state with
        frames := (match BlockKind.ofAtRule name with
          | .rules => .group start name prelude #[]
          | .declarations => .descriptors start name prelude #[]) :: state.frames } := by
  obtain ⟨start, segment, hfold, hstack, hunmatched, rfl⟩ := exists_foldl_atHead h hrest
  obtain ⟨rfl, rfl, hgoes, hsegment⟩ := hrest
  have hopens := @stepLexeme_opening { state with segment := some (.atRule start name, segment) }
    (.atRule start name) segment opener hgoes rfl hstack hunmatched rfl hdepth hopener
  refine ⟨start, ?_⟩
  rw [List.foldl_append, hfold, List.foldl_cons, List.foldl_nil, hopens, ← hsegment]
  cases hkind : BlockKind.ofAtRule name <;> simp only [frame?, hkind] <;> rfl

/-- Where an at-rule without a block ends it is added. -/
theorem endSegment_statement {start : Span} {name : Text} {segment : Segment}
    (hsegment : state.segment = none) (hout : state.inDeclarations = false)
    (hstack : segment.stack = []) (hunmatched : segment.unmatched = none) (stop : Span) :
    State.endSegment { state with segment := some (.atRule start name, segment) }
        (.atRule start name) segment stop =
      state.addRule (.statement name (readPrelude name segment.lexemes.toList)) := by
  rw [endSegment, Segment.finish_eq_self hstack hunmatched]
  simp only [addStatement, reportUnmatched, hunmatched]
  rw [← hsegment, addAtRule_eq hout]

/-- A block is read from where it opens to where it closes. -/
theorem foldl_block {inner target : State} {rule : Rule}
    (hopens : (head ++ [opener]).foldl stepLexeme state = inner)
    (hbody : Settles target (body.foldl stepLexeme inner))
    (hcloser : closer.token = .closing .curly) (htarget : target.frames ≠ [])
    (hcloses : target.closeFrame = state.addRule rule) :
    (head ++ opener :: (body ++ closer :: rest)).foldl stepLexeme state =
      rest.foldl stepLexeme (state.addRule rule) := by
  have hclose : stepLexeme (body.foldl stepLexeme inner) closer = state.addRule rule := by
    rw [hbody.stepLexeme hcloser, closeCurly, if_neg (by simpa using htarget), hcloses]
  rw [List.append_cons, List.foldl_append, hopens, List.foldl_append, List.foldl_cons, hclose]

theorem frames_ne_nil_of_atRest (h : state.AtRest limit (depth + 1)) : state.frames ≠ [] :=
  List.ne_nil_of_length_eq_add_one h.depth

/-- The rules inside a block, or outside all blocks, are added one by one. -/
theorem settles_of_areRules {lexemes : List Lexeme} {rules : List Rule}
    (h : AreRules limit depth lexemes rules) (hrest : state.AtRest limit depth)
    (hout : state.inDeclarations = false) :
    Settles (rules.foldl addRule state) (lexemes.foldl stepLexeme state) := by
  induction h generalizing state with
  | nil => exact .done hrest.aborted hrest.segment
  | @idle depth lexeme lexemes rules hidle _ ih =>
    have hstate : state.isIdle lexeme.token = true := by
      rw [isIdle_eq_isIdleAt hout, hrest.depth, hidle]
    rw [List.foldl_cons, stepLexeme_idle hrest.aborted hrest.segment hstate]
    exact ih hrest hout
  | @style depth head body rest opener closer selectors declarations rules hdepth hhead hopener
      hbody hcloser _ ih =>
    obtain ⟨span, hopens⟩ := exists_foldl_head hhead hdepth hopener hrest hout
    have hinner := hrest.openFrame (.style (.ok selectors) span #[])
    have htarget := hinner.foldl (fun _ declaration h => h.addDeclaration declaration) declarations
    rw [foldl_block hopens (settles_of_areDeclarations hbody rfl hinner rfl) hcloser
      (frames_ne_nil_of_atRest htarget) (closeFrame_style ..)]
    apply ih
    · exact hrest.addRule _
    · rw [inDeclarations_addRule, hout]
  | @descriptors depth head body rest opener closer name prelude declarations rules hdepth hhead
      hkind hopener hbody hcloser _ ih =>
    obtain ⟨start, hopens⟩ := exists_foldl_atBlock hhead hdepth hopener hrest
    simp only [hkind] at hopens
    have hinner := hrest.openFrame (.descriptors start name prelude #[])
    have htarget := hinner.foldl (fun _ declaration h => h.addDeclaration declaration) declarations
    rw [foldl_block hopens (settles_of_areDeclarations hbody rfl hinner rfl) hcloser
      (frames_ne_nil_of_atRest htarget) (closeFrame_descriptors hout ..)]
    apply ih
    · exact hrest.addRule _
    · rw [inDeclarations_addRule, hout]
  | @group depth head body rest opener closer name prelude inner rules hdepth hhead hkind hopener _
      hcloser _ ihbody ih =>
    obtain ⟨start, hopens⟩ := exists_foldl_atBlock hhead hdepth hopener hrest
    simp only [hkind] at hopens
    have hinner := hrest.openFrame (.group start name prelude #[])
    have htarget := hinner.foldl (fun _ rule h => h.addRule rule) inner
    rw [foldl_block hopens (ihbody hinner rfl) hcloser (frames_ne_nil_of_atRest htarget)
      (closeFrame_group hout ..)]
    apply ih
    · exact hrest.addRule _
    · rw [inDeclarations_addRule, hout]
  | last hhead =>
    obtain ⟨start, segment, hfold, hstack, hunmatched, rfl⟩ := exists_foldl_atHead hhead hrest
    rw [hfold]
    exact .pending hrest.aborted rfl hstack
      (endSegment_statement hrest.segment hout hstack hunmatched)
  | @statement depth head rest semicolon name prelude rules hhead hsemicolon _ ih =>
    obtain ⟨start, segment, hfold, hstack, hunmatched, rfl⟩ := exists_foldl_atHead hhead hrest
    have hstep := @stepLexeme_semicolon { state with segment := some (.atRule start name, segment) }
      _ _ semicolon hrest.aborted rfl hstack rfl hsemicolon
    have hread : (head ++ semicolon :: rest).foldl stepLexeme state =
        rest.foldl stepLexeme
          (state.addRule (.statement name (readPrelude name segment.lexemes.toList))) := by
      rw [List.foldl_append, hfold, List.foldl_cons, hstep,
        endSegment_statement hrest.segment hout hstack hunmatched]
    rw [hread, List.foldl_cons]
    apply ih
    · exact hrest.addRule _
    · rw [inDeclarations_addRule, hout]

end Rules

end Parser.State

/-- A source whose lexemes derive rules is read as these rules, and nothing is wrong with it. -/
theorem AreRules.parse_eq {options : ParseOptions} {source : Text} {rules : List Rule}
    (hproblems : ∀ reading ∈ Reading.all options.lineComments 0 source, reading.problem = none)
    (h : AreRules options.maxDepth 0
      ((Reading.all options.lineComments 0 source).map (·.lexeme)) rules) :
    Stylesheet.parse options source = { sheet := rules, diagnostics := [] } := by
  have hstep : ∀ (state : Parser.State), ∀ reading ∈ Reading.all options.lineComments 0 source,
      state.step reading = state.stepLexeme reading.lexeme := by
    intro state reading hmem
    have hreading : reading = ⟨reading.lexeme, none⟩ := by
      rw [← hproblems reading hmem]
    rw [hreading]
    rfl
  have hinitial : Parser.State.AtRest options.maxDepth 0 (.initial options.maxDepth) :=
    ⟨rfl, rfl, rfl, rfl⟩
  have hsettles := Parser.State.settles_of_areRules h hinitial rfl
  obtain ⟨hframes, hrules, hdiagnostics⟩ :=
    @Parser.State.foldl_addRule (.initial options.maxDepth) rules rfl
  rw [List.foldl_map] at hsettles
  rw [Stylesheet.parse, List.foldl_ext _ _ _ hstep, hsettles.finish, hframes,
    Parser.State.closeFrames, hrules, hdiagnostics]
  simp [Parser.State.initial, Diagnostic.sort]

/-- Lexemes that are scanned as what they are and derive rules are read as these rules. -/
theorem AreRules.parse_text {options : ParseOptions} {lexemes : List Lexeme} {rules : List Rule}
    (hscanned : AreScanned options.lineComments lexemes [])
    (h : AreRules options.maxDepth 0 lexemes rules) :
    Stylesheet.parse options (text lexemes) = { sheet := rules, diagnostics := [] } := by
  have hall : Reading.all options.lineComments 0 (text lexemes) = placed 0 lexemes := by
    have hplaced := Reading.all_append hscanned 0
    rwa [List.append_nil, Reading.all, List.append_nil] at hplaced
  apply AreRules.parse_eq
  · rw [hall]
    exact problem_placed
  · rw [hall]
    exact h.congr (bare_placed 0 lexemes)

end Css
