import Css.Proofs.Selector.Printing
import Css.Proofs.Selector.Unsigned

/-!
# Reading the tokens of a selector list

The tokens that are written for a selector list are read as that list, but for the signs of zeros
(`SelectorList.parse_tokens`). Each component that is no combinator is cut from its own tokens
(`Component.isCut_tokens`); a combinator is read together with the component behind it.
-/

namespace Css

open Lexeme

variable {lineComments : Bool}

/-! ### Components -/

namespace AttributeSelector

theorem parseOperator_tokens (operator : AttributeOperator) (rest : List Token) :
    parseOperator (operator.tokens ++ rest) = .ok (operator, rest) := by
  cases operator <;> rfl

theorem parseValue_token (value : AttributeValue) (rest : List Token) :
    parseValue (value.token :: rest) = .ok (value, rest) := by
  cases value <;> rfl

theorem parseFlag_tokens (flag : Option CaseFlag) :
    parseFlag ((CaseFlag.tokens flag).filter fun token => !token.isTrivia) = .ok flag := by
  rcases flag with _ | _ | _ <;> rfl

/-- An attribute is read from its own tokens. -/
theorem parse_inner (selector : AttributeSelector) :
    parse selector.inner.toLexemes = .ok selector := by
  obtain ⟨name, matcher⟩ := selector
  cases matcher with
  | none => rfl
  | some matcher =>
    obtain ⟨operator, value, flag⟩ := matcher
    have htokens : (tokens (inner ⟨name, some ⟨operator, value, flag⟩⟩).toLexemes).filter
        (fun token => !token.isTrivia) =
          .ident name :: (operator.tokens ++
            value.token :: (CaseFlag.tokens flag).filter fun token => !token.isTrivia) := by
      have hoperator : operator.tokens.filter (fun token => !token.isTrivia) = operator.tokens := by
        refine List.filter_eq_self.2 fun token hmem => ?_
        obtain ⟨c, -, rfl⟩ := List.mem_map.1 hmem
        rfl
      have hvalue : (!value.token.isTrivia) = true := by cases value <;> rfl
      rw [TokenRun.tokens_toLexemes, inner, AttributeMatcher.tokens, List.filter_cons_of_pos rfl,
        List.filter_append, hoperator]
      exact congrArg (_ :: operator.tokens ++ ·) (List.filter_cons_of_pos hvalue)
    have hparse : parse (inner ⟨name, some ⟨operator, value, flag⟩⟩).toLexemes =
        parseOperator (operator.tokens ++
          value.token :: (CaseFlag.tokens flag).filter fun token => !token.isTrivia) >>=
            fun found => parseValue found.2 >>= fun found' => parseFlag found'.2 >>=
              fun flag => pure ⟨name, some ⟨found.1, found'.1, flag⟩⟩ := by
      rw [parse, htokens]
      cases operator <;> rfl
    rw [hparse, parseOperator_tokens]
    simp only [bind, Except.bind, parseValue_token, parseFlag_tokens]
    rfl

end AttributeSelector

def Component.simple : Component → SimpleSelector
  | .selectorFunction name selectors =>
    .selectorFunction name (SelectorList.tokens selectors).toLexemes
  | component => .component component.unsigned

/-- A block is cut from its own tokens. -/
theorem TokenRun.cutBlock?_closing {run : TokenRun} (h : IsClosed run.toLexemes)
    (bracket : Bracket) (rest : List Lexeme) :
    cutBlock? (toLexemes (run ++ [.closing bracket]) ++ rest) =
      some ⟨run.toLexemes, ⟨.closing bracket, .point 0, [bracket.closing]⟩, rest⟩ := by
  rw [toLexemes_append, List.append_assoc]
  exact cutBlock?_append_of_isClosed h rfl rest

theorem Component.isCut_tokens {component : Component} {relative : Bool} {place : Selector.Place}
    (h : component.Survives lineComments) (hcombinator : component.isCombinator = false)
    (hadmits : place.Admits relative component) (leading : Bool) (rest : List Lexeme) :
    SimpleSelector.IsCut (place != .compound) ((component.tokens leading).toLexemes ++ rest)
      component.simple rest := by
  cases component with
  | typeName => exact .typeName rfl (bne_iff_ne.2 hadmits)
  | universal => exact .universal rfl (bne_iff_ne.2 hadmits)
  | nesting => exact .nesting rfl
  | className => exact .className rfl rfl
  | id => exact .id rfl
  | pseudoClass => exact .pseudo rfl (.pseudoClass rfl)
  | pseudoElement => exact .element rfl rfl (.pseudoElement rfl)
  | selectorFunction name selectors =>
    have hclosed := (SelectorList.stands_tokens h.selectors).closed
    exact .pseudo rfl
      (.selectorFunction rfl (TokenRun.cutBlock?_closing hclosed .round rest) h.formed.1)
  | tokenFunction name argument =>
    have hcut := TokenRun.cutBlock?_closing h.spelled.stands.closed .round rest
    have hpseudo := @SimpleSelector.IsPseudo.tokenFunction
      ⟨.function name, .point 0, Token.toText .pretty (.function name)⟩ _ _ _ rfl hcut h.formed
    rw [h.spelled.normal.ofLexemes_toLexemes] at hpseudo
    exact .pseudo rfl hpseudo
  | elementFunction name argument =>
    have hcut := TokenRun.cutBlock?_closing h.spelled.stands.closed .round rest
    have hpseudo := @SimpleSelector.IsPseudo.elementFunction
      ⟨.function name, .point 0, Token.toText .pretty (.function name)⟩ _ _ _ rfl hcut
    rw [h.spelled.normal.ofLexemes_toLexemes] at hpseudo
    exact .element rfl rfl hpseudo
  | combinator => contradiction
  | percentage x =>
    have hcut := @SimpleSelector.IsCut.percentage (place != .compound)
      ⟨.percentage (.ofText (Style.pretty.number x)), .point 0,
        Token.toText .pretty (.percentage (.ofText (Style.pretty.number x)))⟩ rest _ rfl
    rw [Numeric.value_ofText_number .pretty h.spelled] at hcut
    exact hcut
  | _ =>
    rename_i selector
    have hinner : selector.inner.Stands lineComments := AttributeSelector.stands_inner h.spelled
    exact .brackets rfl (TokenRun.cutBlock?_closing hinner.closed .square rest) selector.parse_inner

/-! ### Combinators -/

namespace Selector

variable {relative : Bool} {place : Place}

theorem parseFrom_of_isTrivia {lexeme : Lexeme} (h : lexeme.isTrivia = true)
    (lexemes : List Lexeme) :
    parseFrom relative place (lexeme :: lexemes) =
      parseFrom relative place.afterTrivia lexemes := by
  rw [parseFrom_cons, if_pos h]

theorem parseFrom_space (relative : Bool) (place : Place) (run : TokenRun) :
    parseFrom relative place (TokenRun.toLexemes (.whitespace :: run)) =
      parseFrom relative place.afterTrivia run.toLexemes :=
  parseFrom_of_isTrivia rfl _

theorem parseFrom_delim {char : Char} {c : Combinator}
    (hc : Combinator.ofToken? (.delim char) = some c) {behind : Place}
    (hbehind : place.afterCombinator relative c = .ok behind) (run : TokenRun) :
    parseFrom relative place (TokenRun.toLexemes (.delim char :: run)) =
      parseFrom relative behind run.toLexemes := by
  have hsolid : (⟨.delim char, .point 0, Token.toText .pretty (.delim char)⟩ : Lexeme).isTrivia =
      false := rfl
  rw [TokenRun.toLexemes_cons, parseFrom_cons, hsolid, if_neg Bool.false_ne_true, hc]
  simp only [hbehind, Except.bind]

/-- Behind trivia a simple selector has the descendant combinator in front. -/
theorem parseFrom_gap {lexeme : Lexeme} (htrivia : lexeme.isTrivia = false)
    (hcombinator : Combinator.ofToken? lexeme.token = none) (lexemes : List Lexeme) :
    parseFrom relative .gap (lexeme :: lexemes) =
      parseFrom relative (.pending .descendant) (lexeme :: lexemes) := by
  rw [parseFrom_cons, parseFrom_cons, htrivia, hcombinator]
  rfl

/-- Where a combinator may stand none was read. -/
theorem Place.combinator?_of_admits {c : Combinator}
    (h : place.Admits relative (.combinator c)) : place.combinator? = none := by
  cases place with
  | start => rfl
  | compound => rfl
  | pending => exact h.elim
  | gap => exact h.elim

/-- The tokens of a combinator are read together with the component behind it. -/
theorem parseFrom_combinator {c : Combinator} {token : Token} {run : TokenRun}
    (hadmits : place.Admits relative (.combinator c)) (htrivia : token.isTrivia = false)
    (hnone : Combinator.ofToken? token = none) :
    parseFrom relative place (c.tokens (place == .start) ++ token :: run).toLexemes =
      parseFrom relative (.pending c) (TokenRun.toLexemes (token :: run)) := by
  have hboth : ∀ {char : Char} (front : TokenRun), Combinator.ofToken? (.delim char) = some c →
      front = (if (place == .start) then [] else [.whitespace]) →
        parseFrom relative place
            (TokenRun.toLexemes (front ++ .delim char :: .whitespace :: token :: run)) =
          parseFrom relative (.pending c) (TokenRun.toLexemes (token :: run)) := by
    rintro char front hc rfl
    cases place with
    | start =>
      have hbehind : Place.start.afterCombinator relative c = .ok (.pending c) := if_pos hadmits.1
      exact (parseFrom_delim hc hbehind _).trans (parseFrom_space relative (.pending c) _)
    | compound =>
      have hbehind : Place.gap.afterCombinator relative c = .ok (.pending c) := rfl
      calc parseFrom relative .compound (TokenRun.toLexemes
              (.whitespace :: .delim char :: .whitespace :: token :: run))
        _ = parseFrom relative .gap (TokenRun.toLexemes
              (.delim char :: .whitespace :: token :: run)) := parseFrom_space relative .compound _
        _ = parseFrom relative (.pending c) (TokenRun.toLexemes (.whitespace :: token :: run)) :=
          parseFrom_delim hc hbehind _
        _ = parseFrom relative (.pending c) (TokenRun.toLexemes (token :: run)) :=
          parseFrom_space relative (.pending c) _
    | pending => exact hadmits.elim
    | gap => exact hadmits.elim
  cases c with
  | descendant =>
    cases place with
    | start => exact absurd rfl hadmits.2
    | compound =>
      have hgap : parseFrom relative .gap (TokenRun.toLexemes (token :: run)) =
          parseFrom relative (.pending .descendant) (TokenRun.toLexemes (token :: run)) :=
        @parseFrom_gap _ ⟨token, .point 0, token.toText .pretty⟩ htrivia hnone _
      exact (parseFrom_space relative .compound (token :: run)).trans hgap
    | pending => exact hadmits.elim
    | gap => exact hadmits.elim
  | child =>
    rw [Combinator.tokens, List.append_assoc]
    · exact hboth _ rfl rfl
    · exact Combinator.noConfusion
  | nextSibling =>
    rw [Combinator.tokens, List.append_assoc]
    · exact hboth _ rfl rfl
    · exact Combinator.noConfusion
  | subsequentSibling =>
    rw [Combinator.tokens, List.append_assoc]
    · exact hboth _ rfl rfl
    · exact Combinator.noConfusion

end Selector

/-! ### Commas -/

theorem Component.passesCommas_tokens {component : Component}
    (h : component.Survives lineComments) (leading : Bool) :
    PassesCommas (component.tokens leading).toLexemes := by
  have hplain : ∀ {token : Token} {run : TokenRun}, token.opens? = none → token.closes? = none →
      token ≠ .comma → PassesCommas run.toLexemes →
        PassesCommas (TokenRun.toLexemes (token :: run)) :=
    fun hopens hcloses hcomma => .plain hopens hcloses hcomma
  have hcall : ∀ {name : Text} {run : TokenRun}, IsClosed run.toLexemes →
      PassesCommas (TokenRun.toLexemes (.function name :: (run ++ [.closing .round]))) := by
    intro name run hclosed
    rw [TokenRun.toLexemes_cons, TokenRun.toLexemes_append]
    exact .brackets rfl rfl hclosed .nil
  cases component with
  | typeName => exact hplain rfl rfl Token.noConfusion .nil
  | universal => exact hplain rfl rfl Token.noConfusion .nil
  | nesting => exact hplain rfl rfl Token.noConfusion .nil
  | className =>
    exact hplain rfl rfl Token.noConfusion (hplain rfl rfl Token.noConfusion .nil)
  | id => exact hplain rfl rfl Token.noConfusion .nil
  | pseudoClass =>
    exact hplain rfl rfl Token.noConfusion (hplain rfl rfl Token.noConfusion .nil)
  | pseudoElement =>
    exact hplain rfl rfl Token.noConfusion
      (hplain rfl rfl Token.noConfusion (hplain rfl rfl Token.noConfusion .nil))
  | selectorFunction =>
    exact hplain rfl rfl Token.noConfusion (hcall (SelectorList.stands_tokens h.selectors).closed)
  | tokenFunction => exact hplain rfl rfl Token.noConfusion (hcall h.spelled.stands.closed)
  | elementFunction =>
    exact hplain rfl rfl Token.noConfusion
      (hplain rfl rfl Token.noConfusion (hcall h.spelled.stands.closed))
  | combinator c =>
    have hspace : PassesCommas (TokenRun.toLexemes [.whitespace]) :=
      hplain rfl rfl Token.noConfusion .nil
    have hdelim : ∀ char, PassesCommas (TokenRun.toLexemes [.delim char, .whitespace]) :=
      fun _ => hplain rfl rfl Token.noConfusion hspace
    cases c <;> cases leading <;>
      first
        | exact hspace
        | exact hdelim _
        | exact hplain rfl rfl Token.noConfusion (hdelim _)
  | percentage => exact hplain rfl rfl Token.noConfusion .nil
  | _ =>
    rename_i selector
    have hinner : selector.inner.Stands lineComments := AttributeSelector.stands_inner h.spelled
    rw [Component.tokens, TokenRun.toLexemes_cons, TokenRun.toLexemes_append]
    exact .brackets rfl rfl hinner.closed .nil

theorem Selector.passesCommas_tokens {relative : Bool} {place : Selector.Place} (leading : Bool)
    {components : List Component} (h : Selector.Survives lineComments relative place components) :
    PassesCommas (Selector.tokens leading components).toLexemes := by
  induction components generalizing leading place with
  | nil => exact .nil
  | cons component components ih =>
    rw [Selector.tokens, TokenRun.toLexemes_append]
    exact (Component.passesCommas_tokens h.first leading).append (ih false h.tail)

/-- A space in front of the first group does not matter. -/
theorem Selector.parseGroups_space (relative : Bool) (run : TokenRun) :
    parseGroups relative (splitCommas (TokenRun.toLexemes (.whitespace :: run))).toList =
      parseGroups relative (splitCommas run.toLexemes).toList := by
  have hsplit : splitCommas (TokenRun.toLexemes (.whitespace :: run)) =
      (splitCommas run.toLexemes).cons ⟨.whitespace, .point 0, Token.toText .pretty .whitespace⟩ :=
    splitCommasFrom_of_plain rfl rfl (fun h => Token.noConfusion h) _
  rw [hsplit, Groups.cons, Groups.toList, Groups.toList, parseGroups_cons, parseGroups_cons,
    parseFrom_of_isTrivia rfl]
  rfl

/-! ### Lists -/

mutual

theorem Component.reads_simple : {component : Component} → component.Survives lineComments →
    Selector.SimpleReads component.simple component.unsigned
  | .typeName _, _ => rfl
  | .universal, _ => rfl
  | .nesting, _ => rfl
  | .className _, _ => rfl
  | .id _, _ => rfl
  | .attribute _, _ => rfl
  | .pseudoClass _, _ => rfl
  | .pseudoElement _, _ => rfl
  | .selectorFunction _ _, h =>
    ⟨_, SelectorList.parseGroups_tokens h.selectors h.formed.2.1, rfl⟩
  | .tokenFunction _ _, _ => rfl
  | .elementFunction _ _, _ => rfl
  | .combinator _, _ => rfl
  | .percentage _, _ => rfl

theorem Selector.parseFrom_tokens {relative : Bool} {place : Selector.Place} :
    {components : List Component} → Selector.Survives lineComments relative place components →
      Selector.parseFrom relative place (Selector.tokens (place == .start) components).toLexemes =
        .ok ((place.combinator?.map Component.combinator).toList ++ Selector.unsigned components)
  | [], h => by
    have hplace : place = .compound := h.formed
    rw [hplace]
    exact Selector.parseFrom_nil ..
  | component :: components, h => by
    have hmore := Selector.parseFrom_tokens h.tail
    rw [Selector.tokens]
    cases hcombinator : component.isCombinator with
    | false =>
      obtain ⟨token, run, htokens, htrivia, hnone⟩ :=
        component.exists_tokens hcombinator (place == .start)
      have hcut := Component.isCut_tokens h.first hcombinator h.admits (place == .start)
        (Selector.tokens false components).toLexemes
      rw [component.behind_eq hcombinator] at hmore
      rw [TokenRun.toLexemes_append]
      rw [htokens, TokenRun.toLexemes_cons, List.cons_append] at hcut ⊢
      exact Selector.parseFrom_simple htrivia hnone hcut (Component.reads_simple h.first) hmore
    | true =>
      cases component with
      | combinator c =>
        obtain ⟨next, more, rfl, hnext⟩ := Selector.exists_cons_of_pending h.tail
        obtain ⟨token, run, htokens, htrivia, hnone⟩ := next.exists_tokens hnext false
        have hpending : (Selector.Place.behind (.combinator c) == .start) = false := rfl
        rw [hpending, Selector.tokens, htokens, List.cons_append] at hmore
        rw [Selector.tokens, htokens, List.cons_append, Component.tokens,
          Selector.parseFrom_combinator h.admits htrivia hnone]
        have hfront : place.combinator? = none := Selector.Place.combinator?_of_admits h.admits
        rw [hfront]
        exact hmore
      | _ => contradiction

theorem SelectorList.parseGroups_tokens {relative : Bool} : {selectors : List (List Component)} →
    SelectorList.Survive lineComments relative selectors → selectors ≠ [] →
      Selector.parseGroups relative
          (splitCommas (SelectorList.tokens selectors).toLexemes).toList =
        .ok (SelectorList.unsigned selectors)
  | [], _, hne => absurd rfl hne
  | [selector], h, _ => by
    have hselector : Selector.parseFrom relative .start
        (Selector.tokens true selector).toLexemes = .ok (Selector.unsigned selector) :=
      Selector.parseFrom_tokens h.head
    rw [SelectorList.tokens, (Selector.passesCommas_tokens true h.head).splitCommas_eq,
      Groups.toList, Selector.parseGroups_cons, Selector.parseGroups_nil, hselector]
    rfl
  | selector :: next :: selectors, h, _ => by
    have hselector : Selector.parseFrom relative .start
        (Selector.tokens true selector).toLexemes = .ok (Selector.unsigned selector) :=
      Selector.parseFrom_tokens h.head
    have hmore := SelectorList.parseGroups_tokens h.tail (List.cons_ne_nil _ _)
    rw [SelectorList.tokens, TokenRun.toLexemes_append, TokenRun.toLexemes_cons,
      (Selector.passesCommas_tokens true h.head).splitCommas_comma rfl,
      Selector.parseGroups_cons, hselector, Selector.parseGroups_space, hmore]
    rfl

end

/-- A selector list that survives is read from its own tokens. -/
theorem SelectorList.parse_tokens {selectors : SelectorList}
    (h : SelectorList.Survive lineComments false selectors) (hne : selectors ≠ []) :
    SelectorList.parse (SelectorList.tokens selectors).toLexemes =
      .ok (SelectorList.unsigned selectors) :=
  SelectorList.parseGroups_tokens h hne

end Css
