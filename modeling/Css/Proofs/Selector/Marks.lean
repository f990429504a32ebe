import Css.Proofs.Selector.Cutting
import Css.Proofs.Selector.Tokens
import Css.Proofs.Token.Fits

/-!
# The marks of a selector list

What is written for a selector list has the brackets that the list was read from, in their order
(`SelectorList.marks_of_parse`): trivia, combinators and what stands in an attribute have none.
-/

namespace Css

open Lexeme

/-! ### Attributes -/

namespace AttributeSelector

theorem plain_of_parseOperator {tokens rest : List Token} {operator : AttributeOperator}
    (h : parseOperator tokens = .ok (operator, rest)) (hrest : ∀ token ∈ rest, token.mark? = none) :
    ∀ token ∈ tokens, token.mark? = none := by
  unfold parseOperator at h
  split at h
  · obtain ⟨-, rfl⟩ := Prod.mk.inj (Except.ok.inj h)
    exact List.forall_mem_cons.2 ⟨rfl, hrest⟩
  · split at h
    · obtain ⟨-, rfl⟩ := Prod.mk.inj (Except.ok.inj h)
      exact List.forall_mem_cons.2 ⟨rfl, List.forall_mem_cons.2 ⟨rfl, hrest⟩⟩
    · contradiction
  · contradiction

theorem plain_of_parseValue {tokens rest : List Token} {value : AttributeValue}
    (h : parseValue tokens = .ok (value, rest)) (hrest : ∀ token ∈ rest, token.mark? = none) :
    ∀ token ∈ tokens, token.mark? = none := by
  unfold parseValue at h
  split at h
  · obtain ⟨-, rfl⟩ := Prod.mk.inj (Except.ok.inj h)
    exact List.forall_mem_cons.2 ⟨rfl, hrest⟩
  · obtain ⟨-, rfl⟩ := Prod.mk.inj (Except.ok.inj h)
    exact List.forall_mem_cons.2 ⟨rfl, hrest⟩
  · contradiction

theorem mark?_of_isIdent {token : Token} {word : String} (h : token.isIdent word = true) :
    token.mark? = none := by
  cases token <;> first | rfl | contradiction

theorem plain_of_parseFlag {tokens : List Token} {flag : Option CaseFlag}
    (h : parseFlag tokens = .ok flag) : ∀ token ∈ tokens, token.mark? = none := by
  unfold parseFlag at h
  split at h
  · exact List.forall_mem_nil _
  · refine List.forall_mem_singleton.2 ?_
    split at h
    · exact mark?_of_isIdent ‹_›
    split at h
    · exact mark?_of_isIdent ‹_›
    · contradiction
  · contradiction

/-- There are no marks in what stands between the brackets of an attribute. -/
theorem marks_of_parse {inner : List Lexeme} {selector : AttributeSelector}
    (h : parse inner = .ok selector) : marks inner = [] := by
  have hplain : ∀ token ∈ (tokens inner).filter (fun token => !token.isTrivia),
      token.mark? = none := by
    unfold parse at h
    split at h
    · rename_i name htokens
      rw [htokens]
      exact List.forall_mem_singleton.2 rfl
    · rename_i name rest _ htokens
      rw [htokens]
      refine List.forall_mem_cons.2 ⟨rfl, ?_⟩
      cases hoperator : parseOperator rest with
      | error error =>
        rw [hoperator] at h
        contradiction
      | ok found =>
        obtain ⟨operator, behind⟩ := found
        refine plain_of_parseOperator hoperator ?_
        rw [hoperator] at h
        cases hvalue : parseValue behind with
        | error error =>
          simp only [bind, Except.bind, hvalue] at h
          contradiction
        | ok found =>
          obtain ⟨value, more⟩ := found
          refine plain_of_parseValue hvalue ?_
          simp only [bind, Except.bind, hvalue] at h
          cases hflag : parseFlag more with
          | error error =>
            rw [hflag] at h
            contradiction
          | ok flag => exact plain_of_parseFlag hflag
    · contradiction
  refine marks_of_plain fun lexeme hmem => ?_
  by_cases htrivia : lexeme.token.isTrivia = true
  · exact Token.mark?_of_isTrivia htrivia
  · exact hplain _ (List.mem_filter.2 ⟨List.mem_map_of_mem hmem, by simpa using htrivia⟩)

theorem marks_inner (selector : AttributeSelector) : selector.inner.marks = [] := by
  have hvalue : ∀ value : AttributeValue, value.token.mark? = none := by
    intro value
    cases value <;> rfl
  have hflag : ∀ flag, ∀ token ∈ CaseFlag.tokens flag, token.mark? = none := by
    intro flag
    rcases flag with _ | flag
    · exact List.forall_mem_nil _
    · exact List.forall_mem_cons.2 ⟨rfl, List.forall_mem_singleton.2 rfl⟩
  have hoperator : ∀ operator : AttributeOperator, ∀ token ∈ operator.tokens,
      token.mark? = none := by
    intro operator token hmem
    obtain ⟨c, -, rfl⟩ := List.mem_map.1 hmem
    rfl
  refine TokenRun.marks_of_plain (List.forall_mem_cons.2 ⟨rfl, ?_⟩)
  cases selector.matcher with
  | none => exact List.forall_mem_nil _
  | some matcher =>
    exact List.forall_mem_append.2
      ⟨hoperator _, List.forall_mem_cons.2 ⟨hvalue _, hflag _⟩⟩

end AttributeSelector

/-! ### Simple selectors -/

namespace SimpleSelector

def marks : SimpleSelector → List Mark
  | component found => (found.tokens false).marks
  | selectorFunction _ inner => .opening .round :: (Lexeme.marks inner ++ [.closing .round])

variable {isElement isFirst : Bool} {lexemes rest : List Lexeme} {simple : SimpleSelector}

theorem marks_tokenFunction (name : Text) {inner : List Lexeme}
    (hkept : ∀ lexeme ∈ inner, TokenRun.isKept lexeme.token = true) :
    TokenRun.marks (.function name :: (TokenRun.ofLexemes inner ++ [.closing .round])) =
      .opening .round :: (Lexeme.marks inner ++ [.closing .round]) := by
  rw [@TokenRun.marks_block _ _ .round rfl rfl, ← TokenRun.marks_toLexemes,
    marks_ofLexemes hkept]

theorem IsPseudo.marks_eq (h : IsPseudo isElement lexemes simple rest)
    (hbalanced : Balanced lexemes)
    (hkept : ∀ lexeme ∈ lexemes, TokenRun.isKept lexeme.token = true) :
    Balanced rest ∧ Lexeme.marks lexemes = simple.marks ++ Lexeme.marks rest := by
  have hopens : ∀ {lexeme : Lexeme} {name : Text}, lexeme.token = .function name →
      lexeme.token.opens? = some .round := by
    intro lexeme name htoken
    rw [htoken]
    rfl
  have hinner : ∀ {lexeme : Lexeme} {lexemes : List Lexeme} {block : Block},
      (∀ found ∈ lexeme :: lexemes, TokenRun.isKept found.token = true) →
        cutBlock? lexemes = some block →
          ∀ found ∈ block.inner, TokenRun.isKept found.token = true :=
    fun hkept hcut found hmem =>
      hkept found (List.mem_cons_of_mem _ ((infix_of_cutBlock? hcut).1.subset hmem))
  cases h with
  | pseudoClass htoken =>
    refine ⟨hbalanced.of_plain (by rw [htoken]; rfl), ?_⟩
    rw [marks_cons, htoken]
    rfl
  | pseudoElement htoken =>
    refine ⟨hbalanced.of_plain (by rw [htoken]; rfl), ?_⟩
    rw [marks_cons, htoken]
    rfl
  | selectorFunction htoken hcut =>
    exact ⟨(hbalanced.of_cutBlock? (hopens htoken) hcut).2, hbalanced.marks_eq (hopens htoken) hcut⟩
  | @tokenFunction _ _ name _ htoken hcut =>
    refine ⟨(hbalanced.of_cutBlock? (hopens htoken) hcut).2, ?_⟩
    rw [hbalanced.marks_eq (hopens htoken) hcut, ← marks_tokenFunction name (hinner hkept hcut)]
    rfl
  | @elementFunction _ _ name _ htoken hcut =>
    refine ⟨(hbalanced.of_cutBlock? (hopens htoken) hcut).2, ?_⟩
    rw [hbalanced.marks_eq (hopens htoken) hcut, ← marks_tokenFunction name (hinner hkept hcut)]
    rfl

/-- What is still to be read of a simple selector is balanced if the whole is. -/
theorem IsPseudo.balanced_inner {name : Text} {inner : List Lexeme}
    (h : IsPseudo isElement lexemes (.selectorFunction name inner) rest)
    (hbalanced : Balanced lexemes) : Balanced inner ∧ inner ⊆ lexemes := by
  cases h with
  | @selectorFunction lexeme _ _ _ htoken hcut =>
    have hopens : lexeme.token.opens? = some .round := by
      rw [htoken]
      rfl
    exact ⟨(hbalanced.of_cutBlock? hopens hcut).1,
      List.subset_cons_of_subset _ (infix_of_cutBlock? hcut).1.subset⟩

theorem IsCut.balanced_inner {name : Text} {inner : List Lexeme}
    (h : IsCut isFirst lexemes (.selectorFunction name inner) rest)
    (hbalanced : Balanced lexemes) : Balanced inner ∧ inner ⊆ lexemes := by
  cases h with
  | pseudo htoken hpseudo =>
    obtain ⟨hinner, hsubset⟩ :=
      hpseudo.balanced_inner (hbalanced.of_plain (by rw [htoken]; rfl))
    exact ⟨hinner, List.subset_cons_of_subset _ hsubset⟩
  | element htoken hnext hpseudo =>
    obtain ⟨hinner, hsubset⟩ := hpseudo.balanced_inner
      ((hbalanced.of_plain (by rw [htoken]; rfl)).of_plain (by rw [hnext]; rfl))
    exact ⟨hinner, List.subset_cons_of_subset _ (List.subset_cons_of_subset _ hsubset)⟩

theorem IsCut.marks_eq (h : IsCut isFirst lexemes simple rest) (hbalanced : Balanced lexemes)
    (hkept : ∀ lexeme ∈ lexemes, TokenRun.isKept lexeme.token = true) :
    Balanced rest ∧ Lexeme.marks lexemes = simple.marks ++ Lexeme.marks rest := by
  have hplain : ∀ {lexeme : Lexeme} {lexemes : List Lexeme}, Balanced (lexeme :: lexemes) →
      lexeme.token.mark? = none →
        Balanced lexemes ∧ Lexeme.marks (lexeme :: lexemes) = Lexeme.marks lexemes := by
    intro lexeme lexemes hbalanced hmark
    refine ⟨hbalanced.of_plain (Token.mark?_eq_none.1 hmark).1, ?_⟩
    rw [marks_cons, hmark]
    rfl
  cases h with
  | typeName htoken => exact hplain hbalanced (by rw [htoken]; rfl)
  | universal htoken => exact hplain hbalanced (by rw [htoken]; rfl)
  | nesting htoken => exact hplain hbalanced (by rw [htoken]; rfl)
  | className htoken hnext =>
    obtain ⟨hbehind, hfirst⟩ := hplain hbalanced (by rw [htoken]; rfl)
    obtain ⟨hrest, hsecond⟩ := hplain hbehind (by rw [hnext]; rfl)
    exact ⟨hrest, hfirst.trans hsecond⟩
  | id htoken => exact hplain hbalanced (by rw [htoken]; rfl)
  | @brackets lexeme lexemes block selector htoken hcut hparse =>
    have hopens : lexeme.token.opens? = some .square := by
      rw [htoken]
      rfl
    refine ⟨(hbalanced.of_cutBlock? hopens hcut).2, ?_⟩
    have hmarks : TokenRun.marks (.opening .square :: (selector.inner ++ [.closing .square])) =
        [.opening .square, .closing .square] := by
      rw [@TokenRun.marks_block _ _ .square rfl rfl, selector.marks_inner]
      rfl
    rw [hbalanced.marks_eq hopens hcut, AttributeSelector.marks_of_parse hparse, marks,
      Component.tokens, hmarks]
    rfl
  | pseudo htoken hpseudo =>
    obtain ⟨hbehind, hmarks⟩ := hplain hbalanced (by rw [htoken]; rfl)
    obtain ⟨hrest, hpseudo⟩ := hpseudo.marks_eq hbehind (List.forall_mem_cons.1 hkept).2
    exact ⟨hrest, hmarks.trans hpseudo⟩
  | element htoken hnext hpseudo =>
    obtain ⟨hfirst, hmarks⟩ := hplain hbalanced (by rw [htoken]; rfl)
    obtain ⟨hbehind, hmarks'⟩ := hplain hfirst (by rw [hnext]; rfl)
    obtain ⟨hrest, hpseudo⟩ := hpseudo.marks_eq hbehind
      (List.forall_mem_cons.1 (List.forall_mem_cons.1 hkept).2).2
    exact ⟨hrest, hmarks.trans (hmarks'.trans hpseudo)⟩
  | percentage htoken => exact hplain hbalanced (by rw [htoken]; rfl)

end SimpleSelector

/-! ### Selectors -/

theorem Combinator.mark?_of_ofToken? {token : Token} {c : Combinator}
    (h : ofToken? token = some c) : token.mark? = none := by
  cases token <;> first | rfl | contradiction

theorem Combinator.marks_tokens (leading : Bool) (c : Combinator) :
    (c.tokens leading).marks = [] := by
  cases c <;> cases leading <;> rfl

/-- Only a combinator is written in another way at the start of a selector, without marks too. -/
theorem Component.marks_tokens (leading : Bool) (component : Component) :
    (component.tokens leading).marks = (component.tokens false).marks := by
  cases component with
  | combinator c =>
    rw [Component.tokens, Component.tokens, c.marks_tokens, c.marks_tokens]
  | _ => rfl

namespace Selector

theorem marks_tokens_cons (leading : Bool) (component : Component) (components : List Component) :
    (Selector.tokens leading (component :: components)).marks =
      (component.tokens false).marks ++ (Selector.tokens false components).marks := by
  rw [Selector.tokens, TokenRun.marks_append, component.marks_tokens]

theorem marks_tokens (leading : Bool) (components : List Component) :
    (Selector.tokens leading components).marks = (Selector.tokens false components).marks := by
  cases components with
  | nil => rfl
  | cons component components => rw [marks_tokens_cons, marks_tokens_cons]

theorem marks_combinator_append (place : Place) (components : List Component) :
    (Selector.tokens false
        ((place.combinator?.map Component.combinator).toList ++ components)).marks =
      (Selector.tokens false components).marks := by
  cases place.combinator? with
  | none => rfl
  | some c =>
    rw [Option.map_some, Option.toList_some, List.singleton_append, marks_tokens_cons,
      Component.tokens, c.marks_tokens, List.nil_append]

end Selector

theorem SelectorList.marks_tokens_cons (selector : List Component)
    (selectors : List (List Component)) :
    (SelectorList.tokens (selector :: selectors)).marks =
      (Selector.tokens false selector).marks ++ (SelectorList.tokens selectors).marks := by
  cases selectors with
  | nil =>
    rw [SelectorList.tokens, SelectorList.tokens, Selector.marks_tokens]
    exact (List.append_nil _).symm
  | cons next selectors =>
    rw [SelectorList.tokens, TokenRun.marks_append, Selector.marks_tokens]
    rfl

namespace Selector

/-! What is written for a selector has the marks it was read from, by the recursion of the
reader. -/

mutual

theorem marks_of_parseFrom {relative : Bool} {place : Place} {lexemes : List Lexeme}
    {components : Selector} (hbalanced : Balanced lexemes)
    (hkept : ∀ lexeme ∈ lexemes, TokenRun.isKept lexeme.token = true)
    (h : parseFrom relative place lexemes = .ok components) :
    (Selector.tokens false components).marks = marks lexemes := by
  match lexemes with
  | [] =>
    rw [parseFrom_nil] at h
    cases place with
    | start => contradiction
    | pending => contradiction
    | compound => obtain rfl := Except.ok.inj h; rfl
    | gap => obtain rfl := Except.ok.inj h; rfl
  | lexeme :: lexemes =>
    obtain ⟨-, htail⟩ := List.forall_mem_cons.1 hkept
    obtain ⟨htrivia, h⟩ | ⟨c, behind, hcombinator, -, h⟩ |
      ⟨simple, rest, component, more, hcut, hlength, hsimple, hmore, rfl⟩ :=
        exists_of_parseFrom_cons h
    · rw [marks_of_parseFrom (hbalanced.of_plain (Token.opens?_of_isTrivia htrivia)) htail h,
        marks_cons, Token.mark?_of_isTrivia htrivia]
      rfl
    · have hmark := Combinator.mark?_of_ofToken? hcombinator
      rw [marks_of_parseFrom (hbalanced.of_plain (Token.mark?_eq_none.1 hmark).1) htail h,
        marks_cons, hmark]
      rfl
    · obtain ⟨hrest, hmarks⟩ := hcut.marks_eq hbalanced hkept
      have hkept' := fun found hmem => hkept found (hcut.isInfix.subset hmem)
      have hcomponent : (component.tokens false).marks = simple.marks := by
        cases simple with
        | component found =>
          obtain rfl := hsimple
          rfl
        | selectorFunction name inner =>
          obtain ⟨selectors, hselectors, rfl⟩ := hsimple
          obtain ⟨hinner, hsubset⟩ := hcut.balanced_inner hbalanced
          have hpending : inner.length + 1 ≤ lexemes.length := by
            rw [SimpleSelector.pendingLength] at hlength
            omega
          have hargument := marks_of_parseGroups hinner.of_mem_splitCommas
            (fun group hgroup found hmem =>
              hkept found (hsubset ((infix_of_mem_splitCommas hgroup).subset hmem))) hselectors
          rw [marks_splitCommas] at hargument
          have hblock := @TokenRun.marks_block (.function name) (.closing .round) .round rfl rfl
            (SelectorList.tokens selectors)
          rw [SimpleSelector.marks, ← hargument, ← hblock]
          rfl
      rw [marks_combinator_append, marks_tokens_cons, hcomponent,
        marks_of_parseFrom hrest hkept' hmore, hmarks]
termination_by 2 * lexemes.length
decreasing_by
  all_goals
    try rw [totalLength_splitCommas]
    simp only [List.length_cons]
    omega

theorem marks_of_parseGroups {relative : Bool} {groups : List (List Lexeme)}
    {selectors : SelectorList} (hbalanced : ∀ group ∈ groups, Balanced group)
    (hkept : ∀ group ∈ groups, ∀ lexeme ∈ group, TokenRun.isKept lexeme.token = true)
    (h : parseGroups relative groups = .ok selectors) :
    (SelectorList.tokens selectors).marks = groups.flatMap marks := by
  match groups with
  | [] =>
    rw [parseGroups_nil] at h
    obtain rfl := Except.ok.inj h
    rfl
  | group :: groups =>
    obtain ⟨selector, more, hselector, hmore, rfl⟩ := exists_of_parseGroups_cons h
    obtain ⟨hgroup, hgroups⟩ := List.forall_mem_cons.1 hbalanced
    obtain ⟨hkept, hkepts⟩ := List.forall_mem_cons.1 hkept
    rw [SelectorList.marks_tokens_cons, marks_of_parseFrom hgroup hkept hselector,
      marks_of_parseGroups hgroups hkepts hmore, List.flatMap_cons]
termination_by 2 * totalLength groups
decreasing_by all_goals (simp only [totalLength]; omega)

end

end Selector

/-- What is written for a selector list has the marks of the lexemes that it was read from. -/
theorem SelectorList.marks_of_parse {lexemes : List Lexeme} {selectors : SelectorList}
    (hbalanced : Balanced lexemes)
    (hkept : ∀ lexeme ∈ lexemes, TokenRun.isKept lexeme.token = true)
    (h : parse lexemes = .ok selectors) :
    marks (SelectorList.tokens selectors).toLexemes = marks lexemes := by
  rw [TokenRun.marks_toLexemes, ← marks_splitCommas lexemes]
  exact Selector.marks_of_parseGroups hbalanced.of_mem_splitCommas
    (fun group hgroup lexeme hmem =>
      hkept lexeme ((infix_of_mem_splitCommas hgroup).subset hmem)) h

end Css
