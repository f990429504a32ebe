import Css.Proofs.Selector.Reading
import Css.Proofs.Token.Level

/-!
# What a simple selector is cut from

`SimpleSelector.IsCut` says for each kind of simple selector which lexemes it is made of. It is what
cutting does (`SimpleSelector.cut_eq_ok_iff`), and with it one step of the reading of a selector is
one of three (`Selector.exists_of_parseFrom_cons`): over trivia, over a combinator, or over a simple
selector.
-/

namespace Css

open Lexeme

namespace SimpleSelector

/-- Whether a pseudo-class or, if `isElement` holds, a pseudo-element stands in front of the rest of
some lexemes, behind its colons. -/
inductive IsPseudo : (isElement : Bool) → List Lexeme → SimpleSelector → List Lexeme → Prop
  | pseudoClass {lexeme : Lexeme} {rest : List Lexeme} {name : Text} :
    lexeme.token = .ident name →
    IsPseudo false (lexeme :: rest) (.component (.pseudoClass name)) rest
  | pseudoElement {lexeme : Lexeme} {rest : List Lexeme} {name : Text} :
    lexeme.token = .ident name →
    IsPseudo true (lexeme :: rest) (.component (.pseudoElement name)) rest
  | selectorFunction {lexeme : Lexeme} {lexemes : List Lexeme} {name : Text} {block : Block} :
    lexeme.token = .function name → cutBlock? lexemes = some block → takesSelectors name = true →
    IsPseudo false (lexeme :: lexemes) (.selectorFunction name block.inner) block.rest
  | tokenFunction {lexeme : Lexeme} {lexemes : List Lexeme} {name : Text} {block : Block} :
    lexeme.token = .function name → cutBlock? lexemes = some block → takesSelectors name = false →
    IsPseudo false (lexeme :: lexemes)
      (.component (.tokenFunction name (TokenRun.ofLexemes block.inner))) block.rest
  | elementFunction {lexeme : Lexeme} {lexemes : List Lexeme} {name : Text} {block : Block} :
    lexeme.token = .function name → cutBlock? lexemes = some block →
    IsPseudo true (lexeme :: lexemes)
      (.component (.elementFunction name (TokenRun.ofLexemes block.inner))) block.rest

/-- Whether a simple selector stands in front of the rest of some lexemes; `isFirst` holds at the
start of a compound. -/
inductive IsCut (isFirst : Bool) : List Lexeme → SimpleSelector → List Lexeme → Prop
  | typeName {lexeme : Lexeme} {rest : List Lexeme} {name : Text} :
    lexeme.token = .ident name → isFirst = true →
    IsCut isFirst (lexeme :: rest) (.component (.typeName name)) rest
  | universal {lexeme : Lexeme} {rest : List Lexeme} :
    lexeme.token = .delim '*' → isFirst = true →
    IsCut isFirst (lexeme :: rest) (.component .universal) rest
  | nesting {lexeme : Lexeme} {rest : List Lexeme} :
    lexeme.token = .delim '&' → IsCut isFirst (lexeme :: rest) (.component .nesting) rest
  | className {lexeme next : Lexeme} {rest : List Lexeme} {name : Text} :
    lexeme.token = .delim '.' → next.token = .ident name →
    IsCut isFirst (lexeme :: next :: rest) (.component (.className name)) rest
  | id {lexeme : Lexeme} {rest : List Lexeme} {name : Text} :
    lexeme.token = .hash name true → IsCut isFirst (lexeme :: rest) (.component (.id name)) rest
  | brackets {lexeme : Lexeme} {lexemes : List Lexeme} {block : Block}
    {selector : AttributeSelector} :
    lexeme.token = .opening .square → cutBlock? lexemes = some block →
    AttributeSelector.parse block.inner = .ok selector →
    IsCut isFirst (lexeme :: lexemes) (.component (.attribute selector)) block.rest
  | pseudo {lexeme : Lexeme} {lexemes rest : List Lexeme} {simple : SimpleSelector} :
    lexeme.token = .colon → IsPseudo false lexemes simple rest →
    IsCut isFirst (lexeme :: lexemes) simple rest
  | element {lexeme next : Lexeme} {lexemes rest : List Lexeme} {simple : SimpleSelector} :
    lexeme.token = .colon → next.token = .colon → IsPseudo true lexemes simple rest →
    IsCut isFirst (lexeme :: next :: lexemes) simple rest
  | percentage {lexeme : Lexeme} {rest : List Lexeme} {numeric : Numeric} :
    lexeme.token = .percentage numeric →
    IsCut isFirst (lexeme :: rest) (.component (.percentage numeric.value)) rest

variable {isElement isFirst : Bool} {lexeme : Lexeme} {lexemes rest : List Lexeme}
  {simple : SimpleSelector}

theorem isPseudo_of_cutPseudo (h : cutPseudo isElement lexemes = .ok (simple, rest)) :
    IsPseudo isElement lexemes simple rest := by
  unfold cutPseudo at h
  split at h
  · contradiction
  split at h
  · rename_i htoken
    obtain ⟨rfl, rfl⟩ := Prod.mk.inj (Except.ok.inj h)
    cases isElement with
    | true => exact .pseudoElement htoken
    | false => exact .pseudoClass htoken
  · rename_i htoken
    split at h
    · contradiction
    rename_i block hcut
    cases isElement with
    | true =>
      obtain ⟨rfl, rfl⟩ := Prod.mk.inj (Except.ok.inj h)
      exact .elementFunction htoken hcut
    | false =>
      rw [if_neg Bool.false_ne_true] at h
      split at h
      · obtain ⟨rfl, rfl⟩ := Prod.mk.inj (Except.ok.inj h)
        exact .selectorFunction htoken hcut ‹_›
      · rename_i htakes
        obtain ⟨rfl, rfl⟩ := Prod.mk.inj (Except.ok.inj h)
        exact .tokenFunction htoken hcut (Bool.eq_false_iff.2 htakes)
  · contradiction

theorem IsPseudo.cutPseudo_eq (h : IsPseudo isElement lexemes simple rest) :
    cutPseudo isElement lexemes = .ok (simple, rest) := by
  cases h with
  | pseudoClass htoken => simp only [cutPseudo, htoken, Bool.false_eq_true, if_false]
  | pseudoElement htoken => simp only [cutPseudo, htoken, if_true]
  | selectorFunction htoken hcut htakes =>
    simp only [cutPseudo, htoken, hcut, htakes, Bool.false_eq_true, if_false, if_true]
  | tokenFunction htoken hcut htakes =>
    simp only [cutPseudo, htoken, hcut, htakes, Bool.false_eq_true, if_false]
  | elementFunction htoken hcut => simp only [cutPseudo, htoken, hcut, if_true]

theorem isCut_of_cut (h : cut isFirst lexeme lexemes = .ok (simple, rest)) :
    IsCut isFirst (lexeme :: lexemes) simple rest := by
  unfold cut at h
  split at h
  · rename_i htoken
    split at h
    · obtain ⟨rfl, rfl⟩ := Prod.mk.inj (Except.ok.inj h)
      exact .typeName htoken ‹_›
    · contradiction
  · rename_i htoken
    split at h
    · obtain ⟨rfl, rfl⟩ := Prod.mk.inj (Except.ok.inj h)
      exact .universal htoken ‹_›
    · contradiction
  · rename_i htoken
    obtain ⟨rfl, rfl⟩ := Prod.mk.inj (Except.ok.inj h)
    exact .nesting htoken
  · rename_i htoken
    split at h
    · split at h
      · rename_i hnext
        obtain ⟨rfl, rfl⟩ := Prod.mk.inj (Except.ok.inj h)
        exact .className htoken hnext
      · contradiction
    · contradiction
  · rename_i htoken
    obtain ⟨rfl, rfl⟩ := Prod.mk.inj (Except.ok.inj h)
    exact .id htoken
  · contradiction
  · rename_i htoken
    split at h
    · contradiction
    rename_i block hcut
    cases hparse : AttributeSelector.parse block.inner with
    | error error =>
      rw [hparse] at h
      contradiction
    | ok selector =>
      rw [hparse] at h
      obtain ⟨rfl, rfl⟩ := Prod.mk.inj (Except.ok.inj h)
      exact .brackets htoken hcut hparse
  · rename_i htoken
    split at h
    · split at h
      · rename_i hnext
        exact .element htoken hnext (isPseudo_of_cutPseudo h)
      · exact .pseudo htoken (isPseudo_of_cutPseudo h)
    · contradiction
  · rename_i htoken
    obtain ⟨rfl, rfl⟩ := Prod.mk.inj (Except.ok.inj h)
    exact .percentage htoken
  · contradiction
  · contradiction

/-- Behind a single colon stands no other. -/
theorem IsPseudo.exists_cons (h : IsPseudo isElement lexemes simple rest) :
    ∃ next behind, lexemes = next :: behind ∧ next.token ≠ .colon := by
  cases h with
  | pseudoClass htoken => exact ⟨_, _, rfl, by rw [htoken]; exact Token.noConfusion⟩
  | pseudoElement htoken => exact ⟨_, _, rfl, by rw [htoken]; exact Token.noConfusion⟩
  | selectorFunction htoken => exact ⟨_, _, rfl, by rw [htoken]; exact Token.noConfusion⟩
  | tokenFunction htoken => exact ⟨_, _, rfl, by rw [htoken]; exact Token.noConfusion⟩
  | elementFunction htoken => exact ⟨_, _, rfl, by rw [htoken]; exact Token.noConfusion⟩

theorem IsCut.cut_eq (h : IsCut isFirst (lexeme :: lexemes) simple rest) :
    cut isFirst lexeme lexemes = .ok (simple, rest) := by
  cases h with
  | typeName htoken hfirst => simp only [cut, htoken, hfirst, if_true]
  | universal htoken hfirst => simp only [cut, htoken, hfirst, if_true]
  | nesting htoken => simp only [cut, htoken]
  | className htoken hnext => simp only [cut, htoken, hnext]
  | id htoken => simp only [cut, htoken]
  | brackets htoken hcut hparse =>
    simp only [cut, htoken, hcut, hparse]
    rfl
  | pseudo htoken hpseudo =>
    obtain ⟨next, behind, rfl, hnext⟩ := hpseudo.exists_cons
    simp only [cut, htoken, if_neg hnext, hpseudo.cutPseudo_eq]
  | element htoken hnext hpseudo => simp only [cut, htoken, if_pos hnext, hpseudo.cutPseudo_eq]
  | percentage htoken => simp only [cut, htoken]

theorem cut_eq_ok_iff :
    cut isFirst lexeme lexemes = .ok (simple, rest) ↔
      IsCut isFirst (lexeme :: lexemes) simple rest :=
  ⟨isCut_of_cut, IsCut.cut_eq⟩

/-- What is still to be read of a simple selector, and the lexemes behind it, are parts of the
lexemes it is cut from. -/
theorem IsPseudo.isInfix (h : IsPseudo isElement lexemes simple rest) : rest <:+: lexemes := by
  cases h with
  | pseudoClass => exact List.infix_cons List.infix_rfl
  | pseudoElement => exact List.infix_cons List.infix_rfl
  | selectorFunction _ hcut => exact List.infix_cons (infix_of_cutBlock? hcut).2
  | tokenFunction _ hcut => exact List.infix_cons (infix_of_cutBlock? hcut).2
  | elementFunction _ hcut => exact List.infix_cons (infix_of_cutBlock? hcut).2

theorem IsCut.isInfix (h : IsCut isFirst lexemes simple rest) : rest <:+: lexemes := by
  cases h with
  | typeName => exact List.infix_cons List.infix_rfl
  | universal => exact List.infix_cons List.infix_rfl
  | nesting => exact List.infix_cons List.infix_rfl
  | className => exact List.infix_cons (List.infix_cons List.infix_rfl)
  | id => exact List.infix_cons List.infix_rfl
  | brackets _ hcut => exact List.infix_cons (infix_of_cutBlock? hcut).2
  | pseudo _ hpseudo => exact List.infix_cons hpseudo.isInfix
  | element _ _ hpseudo => exact List.infix_cons (List.infix_cons hpseudo.isInfix)
  | percentage => exact List.infix_cons List.infix_rfl

end SimpleSelector

/-! ### Steps -/

namespace Selector

/-- What a simple selector reads as: a function reads the selector list that is its argument. -/
def SimpleReads : SimpleSelector → Component → Prop
  | .component component, read => read = component
  | .selectorFunction name inner, read =>
    ∃ selectors, parseGroups (name.isKeyword "has") (splitCommas inner).toList = .ok selectors ∧
      read = .selectorFunction name selectors

variable {relative : Bool} {place : Place} {lexeme : Lexeme} {lexemes rest : List Lexeme}
  {simple : SimpleSelector} {component : Component} {components : Selector}

/-- A simple selector that reads as a component stands in front of the rest of a selector. -/
theorem parseFrom_simple (htrivia : lexeme.isTrivia = false)
    (hcombinator : Combinator.ofToken? lexeme.token = none)
    (hcut : SimpleSelector.IsCut (place != .compound) (lexeme :: lexemes) simple rest)
    (hsimple : SimpleReads simple component)
    (hrest : parseFrom relative .compound rest = .ok components) :
    parseFrom relative place (lexeme :: lexemes) =
      .ok ((place.combinator?.map Component.combinator).toList ++ component :: components) := by
  rw [parseFrom_cons, htrivia, if_neg Bool.false_ne_true, hcombinator, hcut.cut_eq]
  cases simple with
  | component found =>
    obtain rfl : component = found := hsimple
    simp only [Except.bind, hrest]
    rfl
  | selectorFunction name inner =>
    obtain ⟨selectors, hselectors, rfl⟩ := hsimple
    simp only [Except.bind, hselectors, hrest]
    rfl

/-- A selector is read over trivia, over a combinator, or over a simple selector. -/
theorem exists_of_parseFrom_cons
    (h : parseFrom relative place (lexeme :: lexemes) = .ok components) :
    (lexeme.isTrivia = true ∧ parseFrom relative place.afterTrivia lexemes = .ok components) ∨
    (∃ combinator behind, Combinator.ofToken? lexeme.token = some combinator ∧
      place.afterCombinator relative combinator = .ok behind ∧
      parseFrom relative behind lexemes = .ok components) ∨
    (∃ simple rest component more,
      SimpleSelector.IsCut (place != .compound) (lexeme :: lexemes) simple rest ∧
      simple.pendingLength + rest.length ≤ lexemes.length ∧ SimpleReads simple component ∧
      parseFrom relative .compound rest = .ok more ∧
      components = (place.combinator?.map Component.combinator).toList ++ component :: more) := by
  rw [parseFrom_cons] at h
  split at h
  · exact .inl ⟨‹_›, h⟩
  split at h
  · rename_i combinator hcombinator
    cases hplace : place.afterCombinator relative combinator with
    | error error =>
      rw [hplace] at h
      contradiction
    | ok behind =>
      rw [hplace] at h
      exact .inr (.inl ⟨combinator, behind, hcombinator, hplace, h⟩)
  · refine .inr (.inr ?_)
    cases hcut : SimpleSelector.cut (place != .compound) lexeme lexemes with
    | error error =>
      rw [hcut] at h
      contradiction
    | ok cut =>
      obtain ⟨simple, rest⟩ := cut
      have hlength := SimpleSelector.length_of_cut hcut
      rw [hcut, Except.bind] at h
      cases simple with
      | component component =>
        simp only at h
        cases hmore : parseFrom relative .compound rest with
        | error error =>
          rw [hmore] at h
          contradiction
        | ok more =>
          rw [hmore] at h
          exact ⟨_, rest, component, more, SimpleSelector.isCut_of_cut hcut, hlength, rfl, hmore,
            (Except.ok.inj h).symm⟩
      | selectorFunction name inner =>
        simp only at h
        cases hinner : parseGroups (name.isKeyword "has") (splitCommas inner).toList with
        | error error =>
          rw [hinner] at h
          contradiction
        | ok selectors =>
          cases hmore : parseFrom relative .compound rest with
          | error error =>
            rw [hinner, hmore] at h
            contradiction
          | ok more =>
            rw [hinner, hmore] at h
            exact ⟨_, rest, _, more, SimpleSelector.isCut_of_cut hcut, hlength,
              ⟨selectors, hinner, rfl⟩, hmore, (Except.ok.inj h).symm⟩

theorem exists_of_parseGroups_cons {group : List Lexeme} {groups : List (List Lexeme)}
    {selectors : SelectorList} (h : parseGroups relative (group :: groups) = .ok selectors) :
    ∃ selector more, parseFrom relative .start group = .ok selector ∧
      parseGroups relative groups = .ok more ∧ selectors = selector :: more := by
  rw [parseGroups_cons] at h
  cases hfirst : parseFrom relative .start group with
  | error error =>
    rw [hfirst] at h
    contradiction
  | ok selector =>
    cases hmore : parseGroups relative groups with
    | error error =>
      rw [hfirst, hmore] at h
      contradiction
    | ok more =>
      rw [hfirst, hmore] at h
      exact ⟨selector, more, rfl, rfl, (Except.ok.inj h).symm⟩

end Selector

end Css
