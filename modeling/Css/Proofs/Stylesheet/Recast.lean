import Css.Proofs.Media.Reading
import Css.Proofs.Selector.Reading
import Css.Proofs.Stylesheet.Segment
import Css.Proofs.Stylesheet.Steps
import Css.Proofs.Value.Reading
import Mathlib.Data.List.Forall2

/-!
# Reading lexemes written anew

A style sheet is read from lexemes written anew (`Lexeme.Recast`) up to its raw texts. Two states
stay in step (`State.Recasts`): the segment of one holds the lexemes of the other written anew, and
trivia that are left out change neither.
-/

namespace Css

mutual

def Rule.mapRaw (f : Text → Text) : Rule → Rule
  | .style selectors declarations => .style selectors (declarations.map (Declaration.mapRaw f))
  | .statement name prelude => .statement name prelude
  | .group name prelude rules => .group name prelude (Stylesheet.mapRaw f rules)
  | .descriptors name prelude declarations =>
    .descriptors name prelude (declarations.map (Declaration.mapRaw f))

def Stylesheet.mapRaw (f : Text → Text) : List Rule → List Rule
  | [] => []
  | rule :: rules => rule.mapRaw f :: Stylesheet.mapRaw f rules

end

theorem Stylesheet.mapRaw_append (f : Text → Text) (rules rules' : List Rule) :
    mapRaw f (rules ++ rules') = mapRaw f rules ++ mapRaw f rules' := by
  induction rules with
  | nil => rfl
  | cons rule rules ih => rw [List.cons_append, mapRaw, ih, mapRaw, List.cons_append]

mutual

theorem Rule.mapRaw_id (rule : Rule) : rule.mapRaw id = rule := by
  cases rule with
  | style selectors declarations =>
    rw [Rule.mapRaw, List.map_congr_left fun declaration _ => declaration.mapRaw_id, List.map_id']
  | statement name prelude => rw [Rule.mapRaw]
  | group name prelude rules => rw [Rule.mapRaw, Stylesheet.mapRaw_id rules]
  | descriptors name prelude declarations =>
    rw [Rule.mapRaw, List.map_congr_left fun declaration _ => declaration.mapRaw_id, List.map_id']

theorem Stylesheet.mapRaw_id (rules : List Rule) : Stylesheet.mapRaw id rules = rules := by
  cases rules with
  | nil => rw [Stylesheet.mapRaw]
  | cons rule rules => rw [Stylesheet.mapRaw, Rule.mapRaw_id rule, Stylesheet.mapRaw_id rules]

end

open Lexeme (Recast)

variable {recast : Recast} {f : Text → Text}

structure Segment.Recasts (recast : Recast) (segment segment' : Segment) : Prop where
  lexemes : segment'.lexemes.toList = recast.map false segment.lexemes.toList
  stack : segment'.stack = segment.stack
  unmatched : segment'.unmatched = segment.unmatched

namespace Segment

variable {segment segment' : Segment}

theorem recasts_empty : empty.Recasts recast empty := ⟨rfl, rfl, rfl⟩

theorem Recasts.inCurly (h : segment.Recasts recast segment') :
    segment'.inCurly = segment.inCurly := by
  rw [Segment.inCurly, h.stack, Segment.inCurly]

theorem Recasts.finish (h : segment.Recasts recast segment') :
    segment.finish.Recasts recast segment'.finish where
  lexemes := h.lexemes
  stack := h.stack
  unmatched := by rw [Segment.finish, noteUnmatched, h.unmatched, h.stack]; rfl

theorem Recasts.push_eq (h : segment.Recasts recast segment') (lexeme : Lexeme) :
    (segment'.push (recast.move lexeme)).stack = (segment.push lexeme).stack ∧
      (segment'.push (recast.move lexeme)).unmatched = (segment.push lexeme).unmatched := by
  simp only [Segment.push, recast.opens?_move, recast.closes?_move]
  split
  · exact ⟨congrArg (List.cons _) h.stack, h.unmatched⟩
  · simp only [close, noteUnmatched, h.stack, h.unmatched]
    split
    · exact ⟨rfl, rfl⟩
    · split <;> exact ⟨rfl, rfl⟩
  · exact ⟨h.stack, h.unmatched⟩

theorem Recasts.push (h : segment.Recasts recast segment') {lexeme : Lexeme}
    (hkept : recast.map false (segment.lexemes.toList ++ [lexeme]) =
      recast.map false segment.lexemes.toList ++ [recast.move lexeme]) :
    (segment.push lexeme).Recasts recast (segment'.push (recast.move lexeme)) where
  lexemes := by
    rw [lexemes_push, lexemes_push, Array.toList_push, Array.toList_push, hkept, h.lexemes]
  stack := (h.push_eq lexeme).1
  unmatched := (h.push_eq lexeme).2

/-- Trivia that are left out change nothing. -/
theorem Recasts.push_left (h : segment.Recasts recast segment') {lexeme : Lexeme}
    (htrivia : lexeme.isTrivia = true)
    (hdropped : recast.map false (segment.lexemes.toList ++ [lexeme]) =
      recast.map false segment.lexemes.toList) :
    (segment.push lexeme).Recasts recast segment' := by
  have hpush : segment.push lexeme = { segment with lexemes := segment.lexemes.push lexeme } := by
    simp only [Segment.push, Token.opens?_of_isTrivia htrivia, Token.closes?_of_isTrivia htrivia]
  rw [hpush]
  exact ⟨by rw [h.lexemes, Array.toList_push, hdropped], h.stack, h.unmatched⟩

theorem Recasts.readPrelude (h : segment.Recasts recast segment') (name : Text) :
    Parser.State.readPrelude name segment'.lexemes.toList =
      Parser.State.readPrelude name segment.lexemes.toList := by
  simp only [Parser.State.readPrelude, h.lexemes, recast.media_map, recast.ofLexemes_map]

end Segment

namespace Parser

inductive Purpose.Agrees : Purpose → Purpose → Prop
  | selector : Agrees selector selector
  | atRule {start start' : Span} {name : Text} : Agrees (atRule start name) (atRule start' name)
  | declaration : Agrees declaration declaration

inductive Frame.Agrees (f : Text → Text) : Frame → Frame → Prop
  | style {selectors : Except SelectorError SelectorList} {span span' : Span}
      {declarations declarations' : Array Declaration} :
    declarations'.toList.map (Declaration.mapRaw f) =
        declarations.toList.map (Declaration.mapRaw f) →
      Agrees f (style selectors span declarations) (style selectors span' declarations')
  | group {start start' : Span} {name : Text} {prelude : Prelude} {rules rules' : Array Rule} :
    Stylesheet.mapRaw f rules'.toList = Stylesheet.mapRaw f rules.toList →
      Agrees f (group start name prelude rules) (group start' name prelude rules')
  | descriptors {start start' : Span} {name : Text} {prelude : Prelude}
      {declarations declarations' : Array Declaration} :
    declarations'.toList.map (Declaration.mapRaw f) =
        declarations.toList.map (Declaration.mapRaw f) →
      Agrees f (descriptors start name prelude declarations)
        (descriptors start' name prelude declarations')

/-- Whether the second state is that behind the lexemes of the first written anew, up to places,
raw texts and diagnostics. -/
structure State.Recasts (recast : Recast) (f : Text → Text) (state state' : State) : Prop where
  limit : state'.limit = state.limit
  rules : Stylesheet.mapRaw f state'.rules.toList = Stylesheet.mapRaw f state.rules.toList
  frames : List.Forall₂ (Frame.Agrees f) state.frames state'.frames
  segment : Option.Rel (fun (purpose, segment) (purpose', segment') =>
    Purpose.Agrees purpose purpose' ∧ segment.Recasts recast segment') state.segment state'.segment
  aborted : state'.aborted = state.aborted

namespace State

def stepLexeme (state : State) (lexeme : Lexeme) : State := state.step ⟨lexeme, none⟩

theorem foldl_stepLexeme_of_aborted {state : State} (lexemes : List Lexeme)
    (h : state.aborted = true) : lexemes.foldl stepLexeme state = state := by
  induction lexemes with
  | nil => rfl
  | cons lexeme lexemes ih => rw [List.foldl_cons, stepLexeme, step_of_aborted _ h, ih]

namespace Recasts

variable {state state' : State}

theorem report (h : state.Recasts recast f state') (span span' : Span)
    (problem problem' : Problem) :
    (state.report span problem).Recasts recast f (state'.report span' problem') :=
  ⟨h.limit, h.rules, h.frames, h.segment, h.aborted⟩

theorem clearSegment (h : state.Recasts recast f state') :
    Recasts recast f { state with segment := none } { state' with segment := none } :=
  ⟨h.limit, h.rules, h.frames, .none, h.aborted⟩

theorem inDeclarations (h : state.Recasts recast f state') :
    state'.inDeclarations = state.inDeclarations := by
  have hframes := h.frames
  unfold State.inDeclarations
  generalize state.frames = frames at hframes ⊢
  generalize state'.frames = frames' at hframes ⊢
  cases hframes with
  | nil => rfl
  | cons hframe hframes => cases hframe <;> rfl

theorem isEmpty_frames (h : state.Recasts recast f state') :
    state'.frames.isEmpty = state.frames.isEmpty := by
  have hlength := h.frames.length_eq
  cases hframes : state.frames <;> cases hframes' : state'.frames <;>
    simp_all

theorem isTooDeep (h : state.Recasts recast f state') (depth : Nat) :
    state'.isTooDeep depth = state.isTooDeep depth := by
  rw [State.isTooDeep, h.limit, ← h.frames.length_eq, State.isTooDeep]

theorem segment_eq_none (h : state.Recasts recast f state') (hsegment : state.segment = none) :
    state'.segment = none := by
  have hrel := h.segment
  rw [hsegment] at hrel
  generalize state'.segment = segment' at hrel ⊢
  cases hrel
  rfl

theorem exists_segment (h : state.Recasts recast f state') {purpose : Purpose} {segment : Segment}
    (hsegment : state.segment = some (purpose, segment)) :
    ∃ purpose' segment', state'.segment = some (purpose', segment') ∧
      Purpose.Agrees purpose purpose' ∧ segment.Recasts recast segment' := by
  have hrel := h.segment
  rw [hsegment] at hrel
  generalize state'.segment = collected at hrel ⊢
  cases hrel with
  | @some _ collected hrel => exact ⟨collected.1, collected.2, rfl, hrel⟩

/-! ### Adding what has been read -/

theorem addDeclaration (h : state.Recasts recast f state') {declaration declaration' : Declaration}
    (heq : declaration'.mapRaw f = declaration.mapRaw f) :
    (state.addDeclaration declaration).Recasts recast f (state'.addDeclaration declaration') := by
  rcases state with ⟨limit, rules, frames, segment, diagnostics, aborted⟩
  rcases state' with ⟨limit', rules', frames', segment', diagnostics', aborted'⟩
  obtain ⟨hlimit, hrules, hframes, hsegment, haborted⟩ := h
  have hpush : ∀ {declarations declarations' : Array Declaration},
      declarations'.toList.map (Declaration.mapRaw f) =
          declarations.toList.map (Declaration.mapRaw f) →
        (declarations'.push declaration').toList.map (Declaration.mapRaw f) =
          (declarations.push declaration).toList.map (Declaration.mapRaw f) := by
    intro declarations declarations' h
    rw [Array.toList_push, Array.toList_push, List.map_append, List.map_append, h,
      List.map_singleton, List.map_singleton, heq]
  cases hframes with
  | nil => exact ⟨hlimit, hrules, .nil, hsegment, haborted⟩
  | cons hframe hframes =>
    cases hframe with
    | style h => exact ⟨hlimit, hrules, .cons (.style (hpush h)) hframes, hsegment, haborted⟩
    | group h => exact ⟨hlimit, hrules, .cons (.group h) hframes, hsegment, haborted⟩
    | descriptors h =>
      exact ⟨hlimit, hrules, .cons (.descriptors (hpush h)) hframes, hsegment, haborted⟩

theorem addRule (h : state.Recasts recast f state') {rule rule' : Rule}
    (heq : rule'.mapRaw f = rule.mapRaw f) :
    (state.addRule rule).Recasts recast f (state'.addRule rule') := by
  rcases state with ⟨limit, rules, frames, segment, diagnostics, aborted⟩
  rcases state' with ⟨limit', rules', frames', segment', diagnostics', aborted'⟩
  obtain ⟨hlimit, hrules, hframes, hsegment, haborted⟩ := h
  have hpush : ∀ {rules rules' : Array Rule},
      Stylesheet.mapRaw f rules'.toList = Stylesheet.mapRaw f rules.toList →
        Stylesheet.mapRaw f (rules'.push rule').toList =
          Stylesheet.mapRaw f (rules.push rule).toList := by
    intro rules rules' h
    rw [Array.toList_push, Array.toList_push, Stylesheet.mapRaw_append, Stylesheet.mapRaw_append,
      h, Stylesheet.mapRaw, Stylesheet.mapRaw, heq]
    rfl
  cases hframes with
  | nil => exact ⟨hlimit, hpush hrules, .nil, hsegment, haborted⟩
  | cons hframe hframes =>
    cases hframe with
    | style h => exact ⟨hlimit, hrules, .cons (.style h) hframes, hsegment, haborted⟩
    | group h => exact ⟨hlimit, hrules, .cons (.group (hpush h)) hframes, hsegment, haborted⟩
    | descriptors h => exact ⟨hlimit, hrules, .cons (.descriptors h) hframes, hsegment, haborted⟩

theorem addAtRule (h : state.Recasts recast f state') (start start' : Span) {rule rule' : Rule}
    (heq : rule'.mapRaw f = rule.mapRaw f) :
    (state.addAtRule start rule).Recasts recast f (state'.addAtRule start' rule') := by
  unfold State.addAtRule
  rw [h.inDeclarations, h.aborted]
  split
  · split
    · exact h
    · exact h.report ..
  · exact h.addRule heq

/-! ### Closing blocks -/

theorem closeFrame (h : state.Recasts recast f state') :
    state.closeFrame.Recasts recast f state'.closeFrame := by
  rcases state with ⟨limit, rules, frames, segment, diagnostics, aborted⟩
  rcases state' with ⟨limit', rules', frames', segment', diagnostics', aborted'⟩
  obtain ⟨hlimit, hrules, hframes, hsegment, haborted⟩ := h
  cases hframes with
  | nil => exact ⟨hlimit, hrules, .nil, hsegment, haborted⟩
  | @cons frame frame' frames frames' hframe hframes =>
    have hbehind : Recasts recast f ⟨limit, rules, frames, segment, diagnostics, aborted⟩
        ⟨limit', rules', frames', segment', diagnostics', aborted'⟩ :=
      ⟨hlimit, hrules, hframes, hsegment, haborted⟩
    cases hframe with
    | @style selectors span span' declarations declarations' h =>
      cases selectors with
      | ok selectors =>
        exact hbehind.addRule (congrArg (Rule.style selectors) h)
      | error error => exact hbehind.report span span' _ _
    | @group start start' name prelude rules rules' h =>
      exact hbehind.addAtRule start start' (congrArg (Rule.group name prelude) h)
    | @descriptors start start' name prelude declarations declarations' h =>
      exact hbehind.addAtRule start start' (congrArg (Rule.descriptors name prelude) h)

theorem closeFrames (h : state.Recasts recast f state') (atEnd atEnd' : Option Span)
    (hend : atEnd'.isSome = atEnd.isSome) {frames frames' : List Frame}
    (hlength : frames.length = frames'.length) :
    (State.closeFrames atEnd frames state).Recasts recast f
      (State.closeFrames atEnd' frames' state') := by
  induction frames generalizing frames' state state' with
  | nil =>
    obtain rfl := List.length_eq_zero_iff.1 hlength.symm
    exact h
  | cons frame frames ih =>
    obtain ⟨frame', frames', rfl⟩ := List.exists_cons_of_length_eq_add_one hlength.symm
    have hrest : frames.length = frames'.length := Nat.succ.inj hlength
    cases atEnd <;> cases atEnd' <;> simp only [Option.isSome, reduceCtorEq] at hend
    · exact ih h.closeFrame hrest
    · exact ih (h.report ..).closeFrame hrest

/-! ### Ending segments -/

theorem reportUnmatched (h : state.Recasts recast f state') {segment segment' : Segment}
    (hsegment : segment.Recasts recast segment') (start start' stop stop' : Span) :
    (state.reportUnmatched start segment stop).Recasts recast f
      (state'.reportUnmatched start' segment' stop') := by
  unfold State.reportUnmatched
  rw [hsegment.unmatched]
  split
  · exact h.report ..
  · exact h

theorem addStatement (h : state.Recasts recast f state') {segment segment' : Segment}
    (hsegment : segment.Recasts recast segment') (start start' : Span) (name : Text)
    (stop stop' : Span) :
    (state.addStatement start name segment stop).Recasts recast f
      (state'.addStatement start' name segment' stop') := by
  unfold State.addStatement
  rw [hsegment.readPrelude]
  exact (h.reportUnmatched hsegment ..).addAtRule _ _ rfl

theorem endSegment (h : state.Recasts recast f state') {purpose purpose' : Purpose}
    {segment segment' : Segment} (hpurpose : Purpose.Agrees purpose purpose')
    (hsegment : segment.Recasts recast segment')
    (hides : recast.HidesSound f segment.lexemes.toList) (stop stop' : Span) :
    (state.endSegment purpose segment stop).Recasts recast f
      (state'.endSegment purpose' segment' stop') := by
  have hclear := h.clearSegment
  have hfinish := hsegment.finish
  unfold State.endSegment
  cases hpurpose with
  | selector => exact hclear.report ..
  | atRule => exact hclear.addStatement hfinish ..
  | declaration =>
    have hread := recast.declaration_map segment.finish.unmatched.isNone
      segment.finish.lexemes.toList hides
    simp only [hfinish.unmatched, hfinish.lexemes]
    obtain heq | ⟨read, read', hread, hread', heq⟩ := eq_or_exists_of_map_eq hread
    · rw [heq]
      split
      · exact hclear.addDeclaration rfl
      · exact hclear.report ..
    · rw [hread, hread']
      exact hclear.addDeclaration heq

/-! ### Opening blocks and giving up -/

theorem abort (h : state.Recasts recast f state') (span span' : Span) :
    (state.abort span).Recasts recast f (state'.abort span') :=
  ⟨h.limit, h.rules, h.frames, .none, rfl⟩

theorem abortSegment (h : state.Recasts recast f state') {purpose purpose' : Purpose}
    {segment segment' : Segment} (hpurpose : Purpose.Agrees purpose purpose')
    (hsegment : segment.Recasts recast segment') (stop stop' : Span) :
    (state.abortSegment purpose segment stop).Recasts recast f
      (state'.abortSegment purpose' segment' stop') := by
  have habort := h.abort stop stop'
  unfold State.abortSegment
  cases hpurpose with
  | selector => exact habort.closeFrames _ _ rfl habort.frames.length_eq
  | @atRule start start' name =>
    have hstatement := habort.addStatement hsegment start start' name stop stop'
    exact hstatement.closeFrames _ _ rfl hstatement.frames.length_eq
  | declaration => exact habort.closeFrames _ _ rfl habort.frames.length_eq

theorem agrees_frame? {purpose purpose' : Purpose} {segment segment' : Segment}
    (hpurpose : Purpose.Agrees purpose purpose') (hsegment : segment.Recasts recast segment')
    (stop stop' : Span) :
    List.Forall₂ (Frame.Agrees f) (frame? purpose segment stop).toList
      (frame? purpose' segment' stop').toList := by
  cases hpurpose with
  | selector =>
    simp only [frame?, hsegment.unmatched, hsegment.lexemes, recast.selectors_map]
    exact .cons (.style rfl) .nil
  | atRule =>
    simp only [frame?, hsegment.readPrelude]
    split
    · exact .cons (.group rfl) .nil
    · exact .cons (.descriptors rfl) .nil
  | declaration => exact .nil

theorem openBlock (h : state.Recasts recast f state') {purpose purpose' : Purpose}
    {segment segment' : Segment} (hpurpose : Purpose.Agrees purpose purpose')
    (hsegment : segment.Recasts recast segment') (stop stop' : Span) :
    (state.openBlock purpose segment stop).Recasts recast f
      (state'.openBlock purpose' segment' stop') := by
  have hblock : (state.atBlock purpose segment stop).Recasts recast f
      (state'.atBlock purpose' segment' stop') := by
    cases hpurpose with
    | selector => exact h.clearSegment
    | atRule => exact h.clearSegment.reportUnmatched hsegment ..
    | declaration => exact h.clearSegment
  rw [openBlock_eq, openBlock_eq, h.isTooDeep]
  split
  · exact (hblock.abort stop stop').closeFrames _ _ rfl h.frames.length_eq
  · refine ⟨hblock.limit, hblock.rules, ?_, hblock.segment, hblock.aborted⟩
    exact List.rel_append (agrees_frame? hpurpose hsegment stop stop') h.frames

theorem closeCurly (h : state.Recasts recast f state') (span span' : Span) :
    (state.closeCurly span).Recasts recast f (state'.closeCurly span') := by
  unfold State.closeCurly
  rw [h.isEmpty_frames]
  split
  · exact h.report ..
  · exact h.closeFrame

/-! ### Steps -/

theorem noting (h : state.Recasts recast f state') (reading reading' : Reading) :
    (state.noting reading).Recasts recast f (state'.noting reading') :=
  ⟨h.limit, h.rules, h.frames, h.segment, h.aborted⟩

theorem collect (h : state.Recasts recast f state') {purpose purpose' : Purpose}
    {segment segment' : Segment} (hpurpose : Purpose.Agrees purpose purpose')
    (hsegment : segment.Recasts recast segment') {lexeme lexeme' : Lexeme}
    (htrivia : lexeme.isTrivia = false) (hlexeme : lexeme' = recast.move lexeme)
    (hides : recast.HidesSound f segment.lexemes.toList) :
    (state.collect purpose segment lexeme).Recasts recast f
      (state'.collect purpose' segment' lexeme') := by
  have htoken : lexeme'.token = lexeme.token := by rw [hlexeme, recast.token_move lexeme htrivia]
  have hends : purpose'.endsAtBlock = purpose.endsAtBlock ∧
      purpose'.endsAtSemicolon = purpose.endsAtSemicolon := by
    cases hpurpose <;> exact ⟨rfl, rfl⟩
  simp only [State.collect, htoken, hsegment.stack, hsegment.inCurly, hends.1, hends.2]
  split
  · exact h.openBlock hpurpose hsegment ..
  split
  · exact h.endSegment hpurpose hsegment hides ..
  · simp only [extend, htoken, hsegment.stack, h.isTooDeep]
    split
    · exact h.abortSegment hpurpose hsegment ..
    · refine ⟨h.limit, h.rules, h.frames, .some ⟨hpurpose, ?_⟩, h.aborted⟩
      rw [hlexeme]
      exact hsegment.push (recast.map_append_token htrivia false _ [])

theorem begin (h : state.Recasts recast f state') {lexeme lexeme' : Lexeme}
    (htrivia : lexeme.isTrivia = false) (hlexeme : lexeme' = recast.move lexeme) :
    (state.begin lexeme).Recasts recast f (state'.begin lexeme') := by
  have htoken : lexeme'.token = lexeme.token := by rw [hlexeme, recast.token_move lexeme htrivia]
  have hidle : state'.isIdle lexeme.token = state.isIdle lexeme.token := by
    rw [isIdle, h.inDeclarations, h.isEmpty_frames, isIdle]
  have hempty : recast.HidesSound f Segment.empty.lexemes.toList := by
    intro part hpart _ _
    obtain rfl := List.infix_nil.1 hpart
    rfl
  simp only [State.begin, htoken, hidle, h.inDeclarations]
  split
  · exact h
  split
  · exact h.closeCurly ..
  · exact ⟨h.limit, h.rules, h.frames, .some ⟨.atRule, Segment.recasts_empty⟩, h.aborted⟩
  · refine h.collect ?_ Segment.recasts_empty htrivia hlexeme hempty
    split
    · exact .declaration
    · exact .selector

theorem step (h : state.Recasts recast f state') {reading reading' : Reading}
    (htrivia : reading.lexeme.isTrivia = false)
    (hlexeme : reading'.lexeme = recast.move reading.lexeme)
    (hides : recast.HidesSound f state.pending) :
    (state.step reading).Recasts recast f (state'.step reading') := by
  have htoken : reading'.lexeme.token = reading.lexeme.token := by
    rw [hlexeme, recast.token_move _ htrivia]
  have hnoting := h.noting reading reading'
  cases hgoes : state.aborted with
  | true =>
    rw [step_of_aborted reading hgoes, step_of_aborted reading' (h.aborted.trans hgoes)]
    exact h
  | false =>
    have hgoes' := h.aborted.trans hgoes
    cases hsegment : state.segment with
    | none =>
      rw [step_of_segment_none reading hgoes hsegment,
        step_of_segment_none reading' hgoes' (h.segment_eq_none hsegment)]
      exact hnoting.begin htrivia hlexeme
    | some collected =>
      obtain ⟨purpose, segment⟩ := collected
      obtain ⟨purpose', segment', hsegment', hpurpose, hrecasts⟩ := h.exists_segment hsegment
      rw [pending_of_segment_some hsegment] at hides
      rw [step_of_segment_some reading hgoes hsegment,
        step_of_segment_some reading' hgoes' hsegment', htoken, hrecasts.inCurly]
      split
      · exact (hnoting.endSegment hpurpose hrecasts hides ..).closeCurly ..
      · exact hnoting.collect hpurpose hrecasts htrivia hlexeme hides

/-- Trivia change nothing but the segment, and this as they are written anew. -/
theorem step_trivia (h : state.Recasts recast f state') {reading : Reading}
    (htrivia : reading.lexeme.isTrivia = true) {gap : Bool}
    (hgap : state.segment = none ∨ gap = Recast.gapBehind false state.pending) :
    (state.step reading).Recasts recast f
      ((recast.front gap reading.lexeme).foldl stepLexeme state') := by
  cases hgoes : state.aborted with
  | true =>
    rw [step_of_aborted reading hgoes, foldl_stepLexeme_of_aborted _ (h.aborted.trans hgoes)]
    exact h
  | false =>
    have hgoes' := h.aborted.trans hgoes
    have hmove := (recast.isTrivia_move reading.lexeme).trans htrivia
    have hfront : recast.front gap reading.lexeme = [] ∨
        recast.front gap reading.lexeme = [recast.move reading.lexeme] := by
      unfold Recast.front
      split
      · exact .inl rfl
      · exact .inr rfl
    rw [step_of_isTrivia hgoes htrivia]
    cases hsegment : state.segment with
    | none =>
      have hnone := h.segment_eq_none hsegment
      obtain hfront | hfront := hfront
      · rw [hfront, List.foldl_nil]
        exact ⟨h.limit, h.rules, h.frames, by rw [hnone]; exact .none, h.aborted⟩
      · rw [hfront, List.foldl_cons, stepLexeme, step_of_isTrivia hgoes' hmove, hnone]
        exact ⟨h.limit, h.rules, h.frames, .none, h.aborted⟩
    | some collected =>
      obtain ⟨purpose, segment⟩ := collected
      obtain ⟨purpose', segment', hsegment', hpurpose, hrecasts⟩ := h.exists_segment hsegment
      have hmap : recast.map false (segment.lexemes.toList ++ [reading.lexeme]) =
          recast.map false segment.lexemes.toList ++ recast.front gap reading.lexeme := by
        obtain hnone | rfl := hgap
        · rw [hsegment] at hnone
          contradiction
        · rw [Recast.map_append, Recast.map_cons, Recast.map_nil, List.append_nil,
            pending_of_segment_some hsegment]
      obtain hfront | hfront := hfront
      · rw [hfront, List.append_nil] at hmap
        rw [hfront, List.foldl_nil]
        refine ⟨h.limit, h.rules, h.frames, ?_, h.aborted⟩
        rw [hsegment']
        exact .some ⟨hpurpose, hrecasts.push_left htrivia hmap⟩
      · rw [hfront] at hmap
        rw [hfront, List.foldl_cons, stepLexeme, step_of_isTrivia hgoes' hmove, hsegment']
        refine ⟨h.limit, h.rules, h.frames, .some ⟨hpurpose, ?_⟩, h.aborted⟩
        exact hrecasts.push hmap

/-- Reading lexemes one by one keeps two states in step; `gap` says whether trivia are left out in
front of the first. -/
theorem foldl (h : state.Recasts recast f state') {gap : Bool} {readings : List Reading}
    (hgap : state.segment = none ∨ gap = Recast.gapBehind false state.pending)
    (hides : recast.HidesSound f (state.pending ++ readings.map (·.lexeme))) :
    (readings.foldl State.step state).Recasts recast f
      ((recast.map gap (readings.map (·.lexeme))).foldl stepLexeme state') := by
  induction readings generalizing gap state state' with
  | nil => exact h
  | cons reading readings ih =>
    cases hgoes : state.aborted with
    | true =>
      rw [foldl_step_of_aborted _ hgoes, foldl_stepLexeme_of_aborted _ (h.aborted.trans hgoes)]
      exact h
    | false =>
      have hpending := pending_step reading hgoes
      rw [List.foldl_cons, List.map_cons, Recast.map_cons, List.foldl_append]
      refine ih ?_ ?_ ?_
      · cases htrivia : reading.lexeme.isTrivia with
        | true => exact h.step_trivia htrivia hgap
        | false =>
          have hfront : recast.front gap reading.lexeme = [recast.move reading.lexeme] := by
            simp [Recast.front, htrivia]
          rw [hfront]
          exact h.step htrivia rfl (hides.of_isInfix (List.prefix_append ..).isInfix)
      · cases htrivia : reading.lexeme.isTrivia with
        | true =>
          rw [step_of_isTrivia hgoes htrivia]
          cases hsegment : state.segment with
          | none => exact .inl rfl
          | some collected =>
            refine .inr ?_
            simp [pending, Segment.lexemes_push, Recast.gapBehind, htrivia]
        | false =>
          refine .inr ?_
          obtain hpending | hpending := hpending
          · rw [hpending]
            rfl
          · rw [hpending, Recast.gapBehind, List.getLast?_concat]
            exact htrivia.symm
      · obtain hpending | hpending := hpending
        · rw [hpending]
          exact hides.of_isInfix ⟨state.pending ++ [reading.lexeme], [], by simp⟩
        · rw [hpending, List.append_assoc]
          exact hides

/-! ### The end of the source -/

theorem finish (h : state.Recasts recast f state') (hides : recast.HidesSound f state.pending)
    (place place' : Pos) :
    (state.finish place).Recasts recast f (state'.finish place') := by
  unfold State.finish
  rw [h.aborted]
  split
  · exact h
  cases hsegment : state.segment with
  | none =>
    rw [h.segment_eq_none hsegment]
    exact h.closeFrames (some (.point place)) (some (.point place')) rfl h.frames.length_eq
  | some collected =>
    obtain ⟨purpose, segment⟩ := collected
    obtain ⟨purpose', segment', hsegment', hpurpose, hrecasts⟩ := h.exists_segment hsegment
    rw [pending_of_segment_some hsegment] at hides
    rw [hsegment']
    have hend := h.endSegment hpurpose hrecasts hides (.point place) (.point place')
    exact hend.closeFrames (some (.point place)) (some (.point place')) rfl hend.frames.length_eq

end Recasts

end State

end Parser

open Css.Parser (State)

end Css
