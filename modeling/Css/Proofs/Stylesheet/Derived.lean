import Css.Proofs.Stylesheet.Accepted

/-!
# What a source without mistakes derives

The lexemes of a source in which nothing is wrong derive the rules that are read from them
(`Stylesheet.areRules_of_no_diagnostics`). While such a source is read, the lexemes behind each open
bracket hold the rules or the declarations that the block has so far, and more may follow
(`Parser.HoldFrames`); the part that is being collected goes on (`Parser.State.Gathering`).
-/

namespace Css

open Lexeme

open Parser.State (readPrelude)

/-- No selectors are read from nothing. -/
theorem SelectorList.parse_nil : SelectorList.parse [] = .error .empty := by
  rw [SelectorList.parse, splitCommas, splitCommasFrom]
  simp only [Selector.parseGroups, Selector.parseFrom, Selector.Place.error?, Groups.toList]
  rfl

/-- What ends a part that opens no block: a semicolon, or nothing if the part is the last one. -/
inductive EndsPart : Bool → List Lexeme → Prop
  | last : EndsPart true []
  | semicolon {lexeme : Lexeme} : lexeme.token = .semicolon → EndsPart false [lexeme]

def HoldDeclarations (room : Nat) (whole : Bool) (lexemes : List Lexeme)
    (declarations : List Declaration) : Prop :=
  ∀ rest more, (whole = true → rest = [] ∧ more = []) → AreDeclarations room rest more →
    AreDeclarations room (lexemes ++ rest) (declarations ++ more)

/-- Whether lexemes inside `depth` blocks hold rules and, unless these are the whole, more may
follow. -/
def HoldRules (limit depth : Nat) (whole : Bool) (lexemes : List Lexeme) (rules : List Rule) :
    Prop :=
  ∀ rest more, (whole = true → rest = [] ∧ more = []) → AreRules limit depth rest more →
    AreRules limit depth (lexemes ++ rest) (rules ++ more)

namespace HoldDeclarations

variable {room : Nat} {whole : Bool} {lexemes lexemes' : List Lexeme}
  {declarations declarations' : List Declaration} {declaration : Declaration}

theorem nil : HoldDeclarations room false [] [] := fun _ _ _ h => h

theorem append (h : HoldDeclarations room false lexemes declarations)
    (h' : HoldDeclarations room whole lexemes' declarations') :
    HoldDeclarations room whole (lexemes ++ lexemes') (declarations ++ declarations') := by
  intro rest more hwhole hrest
  rw [List.append_assoc, List.append_assoc]
  exact h _ _ (fun hfalse => absurd hfalse Bool.false_ne_true) (h' rest more hwhole hrest)

theorem areDeclarations (h : HoldDeclarations room whole lexemes declarations) :
    AreDeclarations room lexemes declarations := by
  have hall := h [] [] (fun _ => ⟨rfl, rfl⟩) .nil
  rwa [List.append_nil, List.append_nil] at hall

theorem idle {lexeme : Lexeme} (h : lexeme.isTrivia = true ∨ lexeme.token = .semicolon) :
    HoldDeclarations room false [lexeme] [] := fun _ _ _ hrest => .idle h hrest

theorem of_isDeclaration (h : IsDeclaration room lexemes declaration)
    (hends : EndsPart whole lexemes') :
    HoldDeclarations room whole (lexemes ++ lexemes') [declaration] := by
  intro rest more hwhole hrest
  cases hends with
  | last =>
    obtain ⟨rfl, rfl⟩ := hwhole rfl
    simp only [List.append_nil]
    exact .last h
  | semicolon hsemicolon =>
    rw [List.append_assoc]
    exact .more h hsemicolon hrest

end HoldDeclarations

namespace HoldRules

variable {limit depth : Nat} {whole : Bool} {lexemes lexemes' head body : List Lexeme}
  {opener closer : Lexeme} {name : Text} {prelude : Prelude} {rules rules' : List Rule}
  {declarations : List Declaration}

theorem nil : HoldRules limit depth false [] [] := fun _ _ _ h => h

theorem append (h : HoldRules limit depth false lexemes rules)
    (h' : HoldRules limit depth whole lexemes' rules') :
    HoldRules limit depth whole (lexemes ++ lexemes') (rules ++ rules') := by
  intro rest more hwhole hrest
  rw [List.append_assoc, List.append_assoc]
  exact h _ _ (fun hfalse => absurd hfalse Bool.false_ne_true) (h' rest more hwhole hrest)

theorem areRules (h : HoldRules limit depth whole lexemes rules) :
    AreRules limit depth lexemes rules := by
  have hall := h [] [] (fun _ => ⟨rfl, rfl⟩) .nil
  rwa [List.append_nil, List.append_nil] at hall

theorem idle {lexeme : Lexeme} (h : lexeme.token.isIdleAt depth = true) :
    HoldRules limit depth false [lexeme] [] := fun _ _ _ hrest => .idle h hrest

theorem style {selectors : SelectorList} (hdepth : depth < limit)
    (hhead : IsHead limit depth head selectors) (hopener : opener.token = .opening .curly)
    (hbody : AreDeclarations (limit - (depth + 1)) body declarations)
    (hcloser : closer.token = .closing .curly) :
    HoldRules limit depth false (head ++ opener :: body ++ [closer])
      [.style selectors declarations] := by
  intro rest more _ hrest
  simp only [List.append_assoc, List.cons_append, List.nil_append]
  exact .style hdepth hhead hopener hbody hcloser hrest

theorem descriptors (hdepth : depth < limit) (hhead : IsAtHead limit depth head name prelude)
    (hkind : BlockKind.ofAtRule name = .declarations) (hopener : opener.token = .opening .curly)
    (hbody : AreDeclarations (limit - (depth + 1)) body declarations)
    (hcloser : closer.token = .closing .curly) :
    HoldRules limit depth false (head ++ opener :: body ++ [closer])
      [.descriptors name prelude declarations] := by
  intro rest more _ hrest
  simp only [List.append_assoc, List.cons_append, List.nil_append]
  exact .descriptors hdepth hhead hkind hopener hbody hcloser hrest

theorem group (hdepth : depth < limit) (hhead : IsAtHead limit depth head name prelude)
    (hkind : BlockKind.ofAtRule name = .rules) (hopener : opener.token = .opening .curly)
    (hbody : AreRules limit (depth + 1) body rules) (hcloser : closer.token = .closing .curly) :
    HoldRules limit depth false (head ++ opener :: body ++ [closer])
      [.group name prelude rules] := by
  intro rest more _ hrest
  simp only [List.append_assoc, List.cons_append, List.nil_append]
  exact .group hdepth hhead hkind hopener hbody hcloser hrest

theorem statement (h : IsAtHead limit depth head name prelude) (hends : EndsPart whole lexemes) :
    HoldRules limit depth whole (head ++ lexemes) [.statement name prelude] := by
  intro rest more hwhole hrest
  cases hends with
  | last =>
    obtain ⟨rfl, rfl⟩ := hwhole rfl
    simp only [List.append_nil]
    exact .last h
  | semicolon hsemicolon =>
    rw [List.append_assoc]
    exact .statement h hsemicolon hrest

end HoldRules

namespace Parser

/-- Whether lexemes hold the rules outside all blocks and the open blocks behind them. What the
innermost block has so far may be the whole of it; more may follow in the others. -/
inductive HoldFrames (limit : Nat) (rules : List Rule) : Bool → List Frame → List Lexeme → Prop
  | nil {whole : Bool} {lexemes : List Lexeme} : HoldRules limit 0 whole lexemes rules →
    HoldFrames limit rules whole [] lexemes
  | style {whole : Bool} {frames : List Frame} {outer head body : List Lexeme} {opener : Lexeme}
    {selectors : SelectorList} {span : Span} {declarations : Array Declaration} :
    HoldFrames limit rules false frames outer → frames.length < limit →
    (frames.head?.map Frame.holdsDeclarations).getD false = false →
    IsHead limit frames.length head selectors → opener.token = .opening .curly →
    HoldDeclarations (limit - (frames.length + 1)) whole body declarations.toList →
    HoldFrames limit rules whole (.style (.ok selectors) span declarations :: frames)
      (outer ++ (head ++ opener :: body))
  | descriptors {whole : Bool} {frames : List Frame} {outer head body : List Lexeme}
    {opener : Lexeme} {start : Span} {name : Text} {prelude : Prelude}
    {declarations : Array Declaration} :
    HoldFrames limit rules false frames outer → frames.length < limit →
    IsAtHead limit frames.length head name prelude →
    BlockKind.ofAtRule name = .declarations → opener.token = .opening .curly →
    HoldDeclarations (limit - (frames.length + 1)) whole body declarations.toList →
    HoldFrames limit rules whole (.descriptors start name prelude declarations :: frames)
      (outer ++ (head ++ opener :: body))
  | group {whole : Bool} {frames : List Frame} {outer head body : List Lexeme}
    {opener : Lexeme} {start : Span} {name : Text} {prelude : Prelude} {inner : Array Rule} :
    HoldFrames limit rules false frames outer → frames.length < limit →
    IsAtHead limit frames.length head name prelude →
    BlockKind.ofAtRule name = .rules → opener.token = .opening .curly →
    HoldRules limit (frames.length + 1) whole body inner.toList →
    HoldFrames limit rules whole (.group start name prelude inner :: frames)
      (outer ++ (head ++ opener :: body))

namespace State

def HasRead (state : State) (whole : Bool) (lexemes : List Lexeme) : Prop :=
  HoldFrames state.limit state.rules.toList whole state.frames lexemes

/-- Among declarations an at-rule is a fault. -/
theorem inDeclarations_of_addAtRule {state : State} {start : Span} {rule : Rule}
    (h : (state.addAtRule start rule).Sound) : state.inDeclarations = false := by
  by_contra hin
  rw [Bool.not_eq_false] at hin
  have haborted : state.aborted = false := (aborted_addAtRule ..).symm.trans h.aborted
  rw [addAtRule, hin, if_pos rfl, haborted, if_neg Bool.false_ne_true] at h
  exact diagnostics_report_ne _ _ _ h.diagnostics

namespace HasRead

variable {state : State} {whole : Bool} {front lexemes : List Lexeme}

theorem addDeclaration (h : state.HasRead false front) (hin : state.inDeclarations = true)
    {declaration : Declaration}
    (hdeclaration : HoldDeclarations (state.limit - state.frames.length) whole lexemes
      [declaration]) :
    (state.addDeclaration declaration).HasRead whole (front ++ lexemes) := by
  obtain ⟨limit, rules, frames, segment, diagnostics, aborted⟩ := state
  unfold HasRead at h
  cases h with
  | nil => contradiction
  | group => contradiction
  | style houter hdepth hout hhead hopener hbody =>
    rw [List.append_assoc, List.append_assoc]
    apply HoldFrames.style houter hdepth hout hhead hopener
    rw [Array.toList_push]
    exact hbody.append hdeclaration
  | descriptors houter hdepth hhead hkind hopener hbody =>
    rw [List.append_assoc, List.append_assoc]
    apply HoldFrames.descriptors houter hdepth hhead hkind hopener
    rw [Array.toList_push]
    exact hbody.append hdeclaration

theorem addRule (h : state.HasRead false front) (hout : state.inDeclarations = false) {rule : Rule}
    (hrule : HoldRules state.limit state.frames.length whole lexemes [rule]) :
    (state.addRule rule).HasRead whole (front ++ lexemes) := by
  obtain ⟨limit, rules, frames, segment, diagnostics, aborted⟩ := state
  unfold HasRead at h
  cases h with
  | nil hrules =>
    apply HoldFrames.nil
    change HoldRules limit 0 whole (front ++ lexemes) (rules.push rule).toList
    rw [Array.toList_push]
    exact hrules.append hrule
  | group houter hdepth hhead hkind hopener hbody =>
    rw [List.append_assoc, List.append_assoc]
    apply HoldFrames.group houter hdepth hhead hkind hopener
    rw [Array.toList_push]
    exact hbody.append hrule
  | style => contradiction
  | descriptors => contradiction

/-- A lexeme between parts says nothing. -/
theorem idle (h : state.HasRead false front) {lexeme : Lexeme}
    (hidle : state.isIdle lexeme.token = true) : state.HasRead false (front ++ [lexeme]) := by
  have hin : state.inDeclarations = true → lexeme.isTrivia = true ∨ lexeme.token = .semicolon := by
    intro hin
    rw [isIdle_of_inDeclarations hin, Bool.or_eq_true, beq_iff_eq] at hidle
    exact hidle
  have hout : state.inDeclarations = false → lexeme.token.isIdleAt state.frames.length = true := by
    intro hout
    rw [← isIdle_eq_isIdleAt hout, hidle]
  obtain ⟨limit, rules, frames, segment, diagnostics, aborted⟩ := state
  unfold HasRead at h
  cases h with
  | nil hrules =>
    apply HoldFrames.nil
    have hall := hrules.append (.idle (hout rfl))
    rwa [List.append_nil] at hall
  | style houter hdepth hrest hhead hopener hbody =>
    rw [List.append_assoc, List.append_assoc]
    apply HoldFrames.style houter hdepth hrest hhead hopener
    have hall := hbody.append (.idle (hin rfl))
    rwa [List.append_nil] at hall
  | descriptors houter hdepth hhead hkind hopener hbody =>
    rw [List.append_assoc, List.append_assoc]
    apply HoldFrames.descriptors houter hdepth hhead hkind hopener
    have hall := hbody.append (.idle (hin rfl))
    rwa [List.append_nil] at hall
  | group houter hdepth hhead hkind hopener hbody =>
    rw [List.append_assoc, List.append_assoc]
    apply HoldFrames.group houter hdepth hhead hkind hopener
    have hall := hbody.append (.idle (hout rfl))
    rwa [List.append_nil] at hall

/-- A curly bracket closes the innermost block, where nothing is wrong with it. -/
theorem closeFrame (h : state.HasRead whole lexemes) {closer : Lexeme}
    (hcloser : closer.token = .closing .curly) (hopen : state.frames ≠ [])
    (hsound : state.closeFrame.Sound) : state.closeFrame.HasRead false (lexemes ++ [closer]) := by
  obtain ⟨limit, rules, frames, segment, diagnostics, aborted⟩ := state
  unfold HasRead at h
  cases h with
  | nil => exact absurd rfl hopen
  | @style _ frames outer head body opener selectors span declarations houter hdepth hout hhead
      hopener hbody =>
    have hclosed := @addRule ⟨limit, rules, frames, segment, diagnostics, aborted⟩ false outer _
      houter hout _ (.style hdepth hhead hopener hbody.areDeclarations hcloser)
    rwa [← List.append_assoc] at hclosed
  | @descriptors _ frames outer head body opener start name prelude declarations houter hdepth
      hhead hkind hopener hbody =>
    have hout := inDeclarations_of_addAtRule hsound
    have hclosed := @addRule ⟨limit, rules, frames, segment, diagnostics, aborted⟩ false outer _
      houter hout _ (.descriptors hdepth hhead hkind hopener hbody.areDeclarations hcloser)
    rw [← List.append_assoc, ← addAtRule_eq hout start] at hclosed
    exact hclosed
  | @group _ frames outer head body opener start name prelude inner houter hdepth hhead hkind
      hopener hbody =>
    have hout := inDeclarations_of_addAtRule hsound
    have hclosed := @addRule ⟨limit, rules, frames, segment, diagnostics, aborted⟩ false outer _
      houter hout _ (.group hdepth hhead hkind hopener hbody.areRules hcloser)
    rw [← List.append_assoc, ← addAtRule_eq hout start] at hclosed
    exact hclosed

end HasRead

/-! ### Parts in the making -/

inductive Gathering (state : State) : Purpose → List Lexeme → List Lexeme → Prop
  | declaration {lexemes : List Lexeme} : state.inDeclarations = true →
    (∃ first ∈ lexemes.head?, first.isTrivia = false) → Gathering state .declaration lexemes lexemes
  | selector {lexemes : List Lexeme} : state.inDeclarations = false →
    (∃ first ∈ lexemes.head?, first.token.isIdleAt state.frames.length = false ∧
      ∀ name, first.token ≠ .atKeyword name) → Gathering state .selector lexemes lexemes
  | atRule {keyword : Lexeme} {lexemes : List Lexeme} {name : Text} :
    keyword.token = .atKeyword name →
    Gathering state (.atRule keyword.span name) (keyword :: lexemes) lexemes

/-- Whether a state has read lexemes: what was read in front of the part that it is collecting, and
what it has collected. -/
inductive Derives (state : State) : List Lexeme → Prop
  | rest {lexemes : List Lexeme} : state.segment = none → state.HasRead false lexemes →
    Derives state lexemes
  | part {front lexemes : List Lexeme} {purpose : Purpose} {segment : Segment} :
    state.segment = some (purpose, segment) → state.HasRead false front →
    Gathering state purpose lexemes segment.lexemes.toList →
    behind? purpose.endsAtBlock purpose.endsAtSemicolon (state.limit - state.frames.length) []
      segment.lexemes.toList = some segment.stack →
    Derives state (front ++ lexemes)

section Parts

variable {state : State} {purpose : Purpose} {segment : Segment} {front lexemes : List Lexeme}
  {lexeme : Lexeme}

/-- A lexeme that a segment takes up is one with which it goes on. -/
theorem behind?_extend
    (h : behind? purpose.endsAtBlock purpose.endsAtSemicolon (state.limit - state.frames.length) []
      segment.lexemes.toList = some segment.stack)
    (hblock : ¬(lexeme.token = .opening .curly ∧ segment.stack = [] ∧ purpose.endsAtBlock = true))
    (hends : ¬(lexeme.token = .semicolon ∧ (!segment.inCurly) = true ∧
      purpose.endsAtSemicolon = true))
    (hclean : (state.extend purpose segment lexeme).Clean) :
    state.extend purpose segment lexeme =
        { state with segment := some (purpose, segment.push lexeme) } ∧
      behind? purpose.endsAtBlock purpose.endsAtSemicolon (state.limit - state.frames.length) []
        (segment.push lexeme).lexemes.toList = some (segment.push lexeme).stack := by
  have hextend := extend_of_aborted_eq_false state hclean.aborted
  have hunmatched := hclean.segment _ _ (congrArg State.segment hextend)
  obtain ⟨-, hfollow⟩ := Segment.unmatched_push_eq_none_iff.1 hunmatched
  refine ⟨hextend, ?_⟩
  rw [Segment.lexemes_push, Array.toList_push, behind?_append, h, Option.bind_some]
  refine behind?_singleton_iff.2 ⟨hblock, fun hat htoken => ?_, fun hopens => ?_, hfollow⟩
  · simpa [htoken, hat, Segment.inCurly] using hends
  · by_contra hroom
    have hdeep : (lexeme.token.opens?.isSome && state.isTooDeep segment.stack.length) = true := by
      rw [hopens, Bool.true_and, isTooDeep, decide_eq_true_eq]
      omega
    have haborted := hclean.aborted
    rw [extend, if_pos hdeep, aborted_abortSegment] at haborted
    contradiction

theorem exists_head?_append {holds : Lexeme → Prop} (h : ∃ first ∈ lexemes.head?, holds first) :
    ∃ first ∈ (lexemes ++ [lexeme]).head?, holds first := by
  obtain ⟨first, hfirst, hholds⟩ := h
  exact ⟨first, List.mem_head?_append_of_mem_head? hfirst, hholds⟩

theorem Gathering.push (h : Gathering state purpose lexemes segment.lexemes.toList) :
    Gathering { state with segment := some (purpose, segment.push lexeme) } purpose
      (lexemes ++ [lexeme]) (segment.push lexeme).lexemes.toList := by
  rw [Segment.lexemes_push, Array.toList_push]
  cases h with
  | declaration hin hstarts => exact .declaration hin (exists_head?_append hstarts)
  | selector hout hstarts => exact .selector hout (exists_head?_append hstarts)
  | atRule hkeyword => exact .atRule hkeyword

/-- A part that ends where nothing is wrong has been read. -/
theorem HasRead.endSegment {whole : Bool} {behind : List Lexeme} {stop : Span}
    (h : state.HasRead false front)
    (hgathering : Gathering state purpose lexemes segment.lexemes.toList)
    (hbehind : behind? purpose.endsAtBlock purpose.endsAtSemicolon
      (state.limit - state.frames.length) [] segment.lexemes.toList = some segment.stack)
    (hends : EndsPart whole behind) (hsound : (state.endSegment purpose segment stop).Sound) :
    (state.endSegment purpose segment stop).HasRead whole (front ++ (lexemes ++ behind)) := by
  obtain ⟨-, hunmatched, hstack⟩ := hsound.of_endSegment
  have hfinish := Segment.finish_eq_self hstack hunmatched
  rw [hstack] at hbehind
  cases hgathering with
  | selector => exact absurd hsound.diagnostics (diagnostics_report_ne _ _ _)
  | declaration hin hstarts =>
    rw [State.endSegment, hfinish, hunmatched] at hsound ⊢
    simp only [Option.isNone_none] at hsound ⊢
    cases hparse : Declaration.parse true segment.lexemes.toList with
    | error error =>
      rw [hparse] at hsound
      exact absurd hsound.diagnostics (diagnostics_report_ne _ _ _)
    | ok declaration =>
      have hread : { state with segment := none }.HasRead false front := h
      exact hread.addDeclaration hin (.of_isDeclaration ⟨hstarts, hbehind, hparse⟩ hends)
  | @atRule keyword _ name hkeyword =>
    have hreport : State.endSegment state (.atRule keyword.span name) segment stop =
        { state with segment := none }.addAtRule keyword.span
          (.statement name (readPrelude name segment.lexemes.toList)) := by
      rw [State.endSegment, hfinish]
      simp only [addStatement, reportUnmatched, hunmatched]
    rw [hreport] at hsound ⊢
    have hout := inDeclarations_of_addAtRule hsound
    have hread : { state with segment := none }.HasRead false front := h
    rw [addAtRule_eq hout]
    exact hread.addRule hout (.statement (.intro hkeyword hbehind) hends)

/-- A part that opens its block where nothing is wrong is the head of that block. -/
theorem HasRead.openBlock {opener : Lexeme} {stop : Span} (h : state.HasRead false front)
    (hgathering : Gathering state purpose lexemes segment.lexemes.toList)
    (hbehind : behind? purpose.endsAtBlock purpose.endsAtSemicolon
      (state.limit - state.frames.length) [] segment.lexemes.toList = some segment.stack)
    (hstack : segment.stack = []) (hblock : purpose.endsAtBlock = true)
    (hopener : opener.token = .opening .curly)
    (hsound : (state.openBlock purpose segment stop).Sound) :
    (state.openBlock purpose segment stop).HasRead false (front ++ (lexemes ++ [opener])) := by
  obtain ⟨-, hunmatched, -⟩ := hsound.of_openBlock hblock
  have hdepth : state.frames.length < state.limit := by
    by_contra hdeep
    have haborted : (state.openBlock purpose segment stop).aborted = true :=
      aborted_openBlock state (by rw [isTooDeep, decide_eq_true_eq]; omega)
    rw [hsound.aborted] at haborted
    contradiction
  have hopened := openBlock_of_aborted_eq_false state hsound.aborted
  rw [hopened] at hsound ⊢
  rw [hstack] at hbehind
  cases hgathering with
  | declaration => contradiction
  | selector hout hstarts =>
    cases hparse : SelectorList.parse segment.lexemes.toList with
    | error error =>
      have hframes := hsound.frames
      simp [frame?, hunmatched, hparse, Frame.isRead] at hframes
    | ok selectors =>
      simp only [frame?, hunmatched, hparse]
      exact .style h hdepth hout ⟨hstarts, hbehind, hparse⟩ hopener .nil
  | @atRule keyword _ name hkeyword =>
    have hhead := @IsAtHead.intro state.limit _ _ _ _ hkeyword hbehind
    cases hkind : BlockKind.ofAtRule name with
    | declarations =>
      simp only [frame?, hkind, atBlock, reportUnmatched, hunmatched]
      exact .descriptors h hdepth hhead hkind hopener .nil
    | rules =>
      simp only [frame?, hkind, atBlock, reportUnmatched, hunmatched]
      exact .group h hdepth hhead hkind hopener .nil

/-- A lexeme of a part, where nothing is wrong behind it. -/
theorem Derives.collect (h : state.HasRead false front)
    (hgathering : Gathering state purpose lexemes segment.lexemes.toList)
    (hbehind : behind? purpose.endsAtBlock purpose.endsAtSemicolon
      (state.limit - state.frames.length) [] segment.lexemes.toList = some segment.stack)
    (hclean : (state.collect purpose segment lexeme).Clean) :
    (state.collect purpose segment lexeme).Derives (front ++ (lexemes ++ [lexeme])) := by
  unfold State.collect at hclean ⊢
  by_cases hopens : lexeme.token = .opening .curly ∧ segment.stack = [] ∧
      purpose.endsAtBlock = true
  · rw [if_pos hopens] at hclean ⊢
    exact .rest (segment_openBlock ..)
      (h.openBlock hgathering hbehind hopens.2.1 hopens.2.2 hopens.1 hclean.toSound)
  rw [if_neg hopens] at hclean ⊢
  by_cases hends : lexeme.token = .semicolon ∧ (!segment.inCurly) = true ∧
      purpose.endsAtSemicolon = true
  · rw [if_pos hends] at hclean ⊢
    exact .rest (segment_endSegment ..)
      (h.endSegment hgathering hbehind (.semicolon hends.1) hclean.toSound)
  · rw [if_neg hends] at hclean ⊢
    obtain ⟨hextend, hpush⟩ := behind?_extend hbehind hopens hends hclean
    rw [hextend]
    exact .part rfl h hgathering.push hpush

/-- The first lexeme of a declaration or of selectors. -/
theorem Derives.start {purpose : Purpose} (h : state.HasRead false front)
    (hpurpose : (if state.inDeclarations then .declaration else .selector) = purpose)
    (hidle : state.isIdle lexeme.token = false)
    (hkeyword : ∀ name, lexeme.token ≠ .atKeyword name)
    (hclean : (state.collect purpose .empty lexeme).Clean) :
    (state.collect purpose .empty lexeme).Derives (front ++ [lexeme]) := by
  have hopens : ¬(lexeme.token = .opening .curly ∧ Segment.empty.stack = [] ∧
      purpose.endsAtBlock = true) := by
    intro hopens
    have hblock := hclean.toSound
    rw [State.collect, if_pos hopens] at hblock
    rw [openBlock_of_aborted_eq_false state hblock.aborted] at hblock
    have hframes := hblock.frames
    split at hpurpose
    · rw [← hpurpose] at hopens
      exact Bool.false_ne_true hopens.2.2
    · rw [← hpurpose] at hframes
      simp [frame?, Segment.empty, SelectorList.parse_nil, Frame.isRead] at hframes
  have hends : ¬(lexeme.token = .semicolon ∧ (!Segment.empty.inCurly) = true ∧
      purpose.endsAtSemicolon = true) := by
    rintro ⟨htoken, -, hends⟩
    split at hpurpose
    · rename_i hin
      rw [isIdle_of_inDeclarations hin, htoken] at hidle
      contradiction
    · rw [← hpurpose] at hends
      exact Bool.false_ne_true hends
  rw [State.collect, if_neg hopens, if_neg hends] at hclean ⊢
  obtain ⟨hextend, hpush⟩ := behind?_extend rfl hopens hends hclean
  rw [hextend]
  have hgathering : Gathering { state with segment := some (purpose, Segment.empty.push lexeme) }
      purpose [lexeme] (Segment.empty.push lexeme).lexemes.toList := by
    rw [Segment.lexemes_push]
    split at hpurpose
    · rename_i hin
      subst hpurpose
      refine .declaration hin ⟨lexeme, rfl, ?_⟩
      rw [isIdle_of_inDeclarations hin, Bool.or_eq_false_iff] at hidle
      exact hidle.1
    · rename_i hout
      rw [Bool.not_eq_true] at hout
      subst hpurpose
      refine .selector hout ⟨lexeme, rfl, ?_, hkeyword⟩
      rw [← isIdle_eq_isIdleAt hout, hidle]
  exact .part rfl h hgathering hpush

/-! ### Runs -/

/-- Where nothing is wrong, each step reads one more lexeme. -/
theorem Derives.stepLexeme (h : state.Derives lexemes) (hclean : (state.stepLexeme lexeme).Clean) :
    (state.stepLexeme lexeme).Derives (lexemes ++ [lexeme]) := by
  have hgoes := aborted_eq_false_of_step hclean.aborted
  cases h with
  | rest hsegment hread =>
    rw [stepLexeme_none hgoes hsegment] at hclean ⊢
    unfold State.begin at hclean ⊢
    by_cases hidle : state.isIdle lexeme.token = true
    · rw [if_pos hidle]
      exact .rest hsegment (hread.idle hidle)
    rw [if_neg hidle] at hclean ⊢
    split at hclean
    · rename_i htoken
      obtain ⟨-, hopen⟩ := hclean.toSound.of_closeCurly
      have hnonempty : state.frames ≠ [] := List.ne_nil_of_length_pos hopen
      have hclose : state.closeCurly lexeme.span = state.closeFrame := by
        rw [closeCurly, if_neg (by simpa using hnonempty)]
      rw [hclose] at hclean ⊢
      exact .rest ((segment_closeFrame state).trans hsegment)
        (hread.closeFrame htoken hnonempty hclean.toSound)
    · rename_i name htoken
      exact .part rfl hread (.atRule htoken) rfl
    · rename_i hclosing hkeyword
      exact .start hread rfl (Bool.not_eq_true _ ▸ hidle) hkeyword hclean
  | @part front lexemes purpose segment hsegment hread hgathering hbehind =>
    rw [stepLexeme_some hgoes hsegment] at hclean ⊢
    rw [List.append_assoc]
    by_cases hcloses : lexeme.token = .closing .curly ∧ (!segment.inCurly) = true
    · rw [if_pos hcloses] at hclean ⊢
      obtain ⟨hend, hopen⟩ := hclean.toSound.of_closeCurly
      have hall := hread.endSegment hgathering hbehind .last hend
      have hnonempty := List.ne_nil_of_length_pos hopen
      have hclose : (state.endSegment purpose segment lexeme.span).closeCurly lexeme.span =
          (state.endSegment purpose segment lexeme.span).closeFrame := by
        rw [closeCurly, if_neg (by simpa using hnonempty)]
      rw [hclose] at hclean ⊢
      rw [List.append_nil] at hall
      rw [← List.append_assoc]
      exact .rest ((segment_closeFrame _).trans (segment_endSegment ..))
        (hall.closeFrame hcloses.1 hnonempty hclean.toSound)
    · rw [if_neg hcloses] at hclean ⊢
      exact .collect hread hgathering hbehind hclean

theorem stepLexeme_eq_step {reading : Reading} (h : reading.problem = none) :
    state.stepLexeme reading.lexeme = state.step reading := by
  rw [State.stepLexeme, ← h]

/-- Nothing was wrong anywhere in a run at whose end nothing is wrong. -/
theorem Clean.of_foldl {readings : List Reading} (h : (readings.foldl step state).Clean) :
    state.Clean ∧ ∀ reading ∈ readings, reading.problem = none := by
  induction readings generalizing state with
  | nil => exact ⟨h, by simp⟩
  | cons reading readings ih =>
    obtain ⟨hstep, hproblems⟩ := ih h
    obtain ⟨hstate, hproblem⟩ := hstep.of_step
    exact ⟨hstate, List.forall_mem_cons.2 ⟨hproblem, hproblems⟩⟩

/-- A run at whose end nothing is wrong has read all its lexemes. -/
theorem Derives.foldl {readings : List Reading} (h : state.Derives lexemes)
    (hclean : (readings.foldl step state).Clean) :
    (readings.foldl step state).Derives (lexemes ++ readings.map (·.lexeme)) := by
  induction readings generalizing state lexemes with
  | nil =>
    rw [List.map_nil, List.append_nil]
    exact h
  | cons reading readings ih =>
    have hstep : (state.step reading).Clean :=
      (@Clean.of_foldl (state.step reading) readings hclean).1
    have hread : state.stepLexeme reading.lexeme = state.step reading :=
      stepLexeme_eq_step hstep.of_step.2
    rw [← hread] at hstep
    have hnext := h.stepLexeme hstep
    rw [hread] at hnext
    rw [List.map_cons, List.append_cons]
    exact ih hnext hclean

theorem derives_initial (limit : Nat) : (State.initial limit).Derives [] :=
  .rest rfl (.nil .nil)

/-- The rules of a source that ends where nothing is wrong are derived from its lexemes. -/
theorem Derives.finish {place : Pos} (h : state.Derives lexemes) (hgoes : state.aborted = false)
    (hframes : state.frames = []) (hdiagnostics : (state.finish place).diagnostics = #[]) :
    AreRules state.limit 0 lexemes (state.finish place).rules.toList := by
  have hrules : ∀ {state : State} {whole : Bool} {lexemes : List Lexeme}, state.frames = [] →
      state.HasRead whole lexemes → AreRules state.limit 0 lexemes state.rules.toList := by
    intro state whole lexemes hframes hread
    unfold HasRead at hread
    rw [hframes] at hread
    cases hread with
    | nil h => exact h.areRules
  rw [State.finish, hgoes, if_neg Bool.false_ne_true] at hdiagnostics ⊢
  cases h with
  | rest hsegment hread =>
    simp only [hsegment, hframes, closeFrames]
    exact hrules hframes hread
  | @part front lexemes purpose segment hsegment hread hgathering hbehind =>
    have hends : (state.endSegment purpose segment (.point place)).frames = [] := by
      apply List.eq_nil_of_length_eq_zero
      rw [length_frames_endSegment, hframes, List.length_nil]
    simp only [hsegment, hends, closeFrames] at hdiagnostics ⊢
    have hsound : (state.endSegment purpose segment (.point place)).Sound :=
      ⟨(aborted_endSegment ..).trans hgoes, hdiagnostics, by rw [hends]; rfl⟩
    have hall := hrules hends (hread.endSegment hgathering hbehind .last hsound)
    rwa [List.append_nil, limit_endSegment] at hall

end Parts

end State

end Parser

namespace Stylesheet

variable {options : ParseOptions} {source : Text}

/-- The rules of a source without diagnostics are derived from its lexemes. -/
theorem areRules_of_no_diagnostics (h : (parse options source).diagnostics = []) :
    (∀ reading ∈ Reading.all options.lineComments 0 source, reading.problem = none) ∧
      AreRules options.maxDepth 0 ((Reading.all options.lineComments 0 source).map (·.lexeme))
        (parse options source).sheet := by
  obtain ⟨hclean, hclosed⟩ := clean_stateBehind h
  have hframes : (stateBehind options source).frames = [] := by
    rw [Parser.State.openBrackets, List.append_eq_nil_iff] at hclosed
    simpa using hclosed.2
  have hlimit : (stateBehind options source).limit = options.maxDepth :=
    Parser.State.limit_foldl ..
  have hderives := (Parser.State.derives_initial options.maxDepth).foldl hclean
  refine ⟨(Parser.State.Clean.of_foldl hclean).2, ?_⟩
  rw [parse_eq] at h ⊢
  have hdiagnostics :
      ((stateBehind options source).finish source.byteLength).diagnostics = #[] := by
    simpa [Diagnostic.sort] using congrArg List.length h
  rw [← hlimit]
  exact hderives.finish hclean.aborted hframes hdiagnostics

/-- A source is read as rules, with nothing wrong, exactly if no token of it is cut short and its
lexemes derive these rules. -/
theorem parse_eq_iff {rules : List Rule} :
    parse options source = { sheet := rules, diagnostics := [] } ↔
      (∀ reading ∈ Reading.all options.lineComments 0 source, reading.problem = none) ∧
        AreRules options.maxDepth 0
          ((Reading.all options.lineComments 0 source).map (·.lexeme)) rules := by
  constructor
  · intro h
    have hderives := @areRules_of_no_diagnostics options source (by rw [h])
    rwa [h] at hderives
  · rintro ⟨hproblems, hrules⟩
    exact hrules.parse_eq hproblems

end Stylesheet

end Css
