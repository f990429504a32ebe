import Css.Proofs.Token.Recast
import Css.Selector.Parser

/-!
# How selectors are read

One step of the reading of a selector, without the bounds that make the reading end; and what is
read depends on the lexemes only as far as a `Recast` keeps them.
-/

namespace Css

namespace Selector

theorem parseFrom_nil (relative : Bool) (place : Place) :
    parseFrom relative place [] =
      match place.error? with
      | some error => .error error
      | none => .ok [] := by
  unfold parseFrom
  rfl

theorem parseFrom_cons (relative : Bool) (place : Place) (lexeme : Lexeme)
    (lexemes : List Lexeme) :
    parseFrom relative place (lexeme :: lexemes) =
      if lexeme.isTrivia then parseFrom relative place.afterTrivia lexemes
      else match Combinator.ofToken? lexeme.token with
        | some combinator =>
          (place.afterCombinator relative combinator).bind fun place =>
            parseFrom relative place lexemes
        | none =>
          (SimpleSelector.cut (place != .compound) lexeme lexemes).bind fun
            | (.component component, rest) => do
              let components ← parseFrom relative .compound rest
              return (place.combinator?.map Component.combinator).toList ++ component :: components
            | (.selectorFunction name inner, rest) => do
              let selectors ← parseGroups (name.isKeyword "has") (Lexeme.splitCommas inner).toList
              let components ← parseFrom relative .compound rest
              return (place.combinator?.map Component.combinator).toList ++
                .selectorFunction name selectors :: components := by
  rw [parseFrom]
  split
  · rfl
  cases hcombinator : Combinator.ofToken? lexeme.token with
  | some combinator =>
    simp only
    split
    · rename_i herror
      rw [herror, Except.bind]
    · rename_i hplace
      rw [hplace, Except.bind]
  | none =>
    simp only
    split
    · rename_i hcut
      simp only [hcut, Except.bind]
    · rename_i hcut
      simp only [hcut, Except.bind]
    · rename_i hcut
      simp only [hcut, Except.bind]

theorem parseGroups_nil (relative : Bool) : parseGroups relative [] = .ok [] := by
  rw [parseGroups]

theorem parseGroups_cons (relative : Bool) (group : List Lexeme) (groups : List (List Lexeme)) :
    parseGroups relative (group :: groups) = do
      return (← parseFrom relative .start group) :: (← parseGroups relative groups) := by
  rw [parseGroups]

end Selector

namespace Lexeme.Recast

variable (recast : Recast)

/-! ### Trivia and places do not matter -/

def simpleSelector : SimpleSelector → SimpleSelector
  | .component simple => .component simple
  | .selectorFunction name inner => .selectorFunction name (recast.map false inner)

theorem attribute_map (inner : List Lexeme) :
    AttributeSelector.parse (recast.map false inner) = AttributeSelector.parse inner := by
  rw [AttributeSelector.parse, recast.filter_tokens_map, AttributeSelector.parse]

theorem cutPseudo_map (isElement : Bool) (lexemes : List Lexeme) :
    SimpleSelector.cutPseudo isElement (recast.map false lexemes) =
      (SimpleSelector.cutPseudo isElement lexemes).map fun (simple, rest) =>
        (recast.simpleSelector simple, recast.map false rest) := by
  cases lexemes with
  | nil => rfl
  | cons lexeme lexemes =>
    cases htrivia : lexeme.isTrivia with
    | true =>
      have hpseudo : ∀ {trivia : Lexeme} {lexemes : List Lexeme}, trivia.isTrivia = true →
          SimpleSelector.cutPseudo isElement (trivia :: lexemes) = .error .missingPseudoName := by
        intro trivia lexemes h
        rw [isTrivia] at h
        rw [SimpleSelector.cutPseudo]
        generalize trivia.token = token at h ⊢
        cases token <;> first | rfl | contradiction
      rw [recast.map_false_cons, hpseudo htrivia,
        hpseudo ((recast.isTrivia_move lexeme).trans htrivia)]
      rfl
    | false =>
      rw [recast.map_token htrivia, SimpleSelector.cutPseudo, recast.token_move lexeme htrivia,
        recast.cutBlock?_map, SimpleSelector.cutPseudo]
      cases lexeme.token with
      | ident name => rfl
      | function name =>
        cases Lexeme.cutBlock? lexemes with
        | none => rfl
        | some block =>
          simp only [Option.map_some, Recast.block, recast.ofLexemes_map]
          split
          · rfl
          · split <;> rfl
      | _ => rfl

theorem cut_map (isFirst : Bool) {lexeme : Lexeme} (h : lexeme.isTrivia = false)
    (lexemes : List Lexeme) :
    SimpleSelector.cut isFirst (recast.move lexeme) (recast.map false lexemes) =
      (SimpleSelector.cut isFirst lexeme lexemes).map fun (simple, rest) =>
        (recast.simpleSelector simple, recast.map false rest) := by
  unfold SimpleSelector.cut
  rw [recast.token_move lexeme h]
  split
  · split <;> rfl
  · split <;> rfl
  · rfl
  · cases lexemes with
    | nil => rfl
    | cons next lexemes =>
      cases htrivia : next.isTrivia with
      | false =>
        simp only [recast.map_token htrivia, recast.token_move next htrivia]
        cases next.token <;> rfl
      | true =>
        have hmove := (recast.isTrivia_move next).trans htrivia
        simp only [recast.map_false_cons]
        rw [isTrivia] at htrivia hmove
        generalize next.token = token at htrivia ⊢
        generalize (recast.move next).token = token' at hmove ⊢
        cases token <;> cases token' <;> first | rfl | contradiction
  · rfl
  · rfl
  · rw [recast.cutBlock?_map]
    cases Lexeme.cutBlock? lexemes with
    | none => rfl
    | some block =>
      simp only [Option.map_some, Recast.block, recast.attribute_map]
      cases AttributeSelector.parse block.inner <;> rfl
  · cases lexemes with
    | nil => rfl
    | cons next rest =>
      have hcolon : ((recast.move next).token = .colon) = (next.token = .colon) :=
        recast.apply_move (p := fun token => token = .colon)
          (fun token h => eq_false fun heq => by rw [heq] at h; contradiction) next
      have hrest := recast.cutPseudo_map false (next :: rest)
      rw [recast.map_false_cons] at hrest
      simp only [recast.map_false_cons, hcolon]
      split
      · rename_i htoken
        have htrivia : next.isTrivia = false := by rw [isTrivia, htoken]; rfl
        rw [htrivia]
        exact recast.cutPseudo_map true rest
      · exact hrest
  · rfl
  · rfl
  · rfl

mutual

theorem parseFrom_map (recast : Recast) (gap relative : Bool) (place : Selector.Place)
    (hplace : gap = true → place.afterTrivia = place) (lexemes : List Lexeme) :
    Selector.parseFrom relative place (recast.map gap lexemes) =
      Selector.parseFrom relative place lexemes := by
  match lexemes with
  | [] => rfl
  | lexeme :: lexemes =>
    cases htrivia : lexeme.isTrivia with
    | true =>
      have hrest := recast.parseFrom_map true relative place.afterTrivia
        (fun _ => by cases place <;> rfl) lexemes
      rw [Selector.parseFrom_cons relative place lexeme, if_pos htrivia, ← hrest]
      obtain ⟨htrue, h⟩ | h := recast.map_trivia htrivia gap
      · rw [h, hplace htrue]
      · rw [h, Selector.parseFrom_cons, recast.isTrivia_move, if_pos htrivia]
    | false =>
      rw [recast.map_token htrivia, Selector.parseFrom_cons, Selector.parseFrom_cons,
        recast.isTrivia_move, recast.token_move lexeme htrivia, recast.cut_map _ htrivia, htrivia]
      simp only [Bool.false_eq_true, if_false]
      split
      · cases place.afterCombinator relative _ with
        | error error => rfl
        | ok place =>
          exact recast.parseFrom_map false relative place (fun h => Bool.noConfusion h) lexemes
      · cases hcut : SimpleSelector.cut (place != .compound) lexeme lexemes with
        | error error => rfl
        | ok result =>
          obtain ⟨simple, rest⟩ := result
          have hlength := SimpleSelector.length_of_cut hcut
          have hrest := recast.parseFrom_map false relative .compound
            (fun h => Bool.noConfusion h) rest
          cases simple with
          | component component =>
            simp only [Except.map, simpleSelector, Except.bind, bind, hrest]
          | selectorFunction name inner =>
            have hpending : (SimpleSelector.selectorFunction name inner).pendingLength =
              inner.length + 1 := rfl
            simp only [Except.map, simpleSelector, Except.bind, bind]
            rw [recast.splitCommas_map, recast.groups_map, hrest]
termination_by 2 * lexemes.length
decreasing_by
  all_goals
    try rw [Lexeme.totalLength_splitCommas]
    simp only [List.length_cons]
    omega

theorem groups_map (recast : Recast) (relative : Bool) (groups : List (List Lexeme)) :
    Selector.parseGroups relative (groups.map (recast.map false)) =
      Selector.parseGroups relative groups := by
  match groups with
  | [] => rfl
  | group :: groups =>
    rw [List.map_cons, Selector.parseGroups_cons, Selector.parseGroups_cons,
      recast.parseFrom_map false relative .start (fun h => Bool.noConfusion h) group,
      recast.groups_map relative groups]
termination_by 2 * Lexeme.totalLength groups
decreasing_by all_goals (simp only [Lexeme.totalLength]; omega)

end

theorem selectors_map (lexemes : List Lexeme) :
    SelectorList.parse (recast.map false lexemes) = SelectorList.parse lexemes := by
  rw [SelectorList.parse, recast.splitCommas_map, recast.groups_map, SelectorList.parse]

end Lexeme.Recast

theorem Lexeme.Moves.selectors_map {move : Lexeme → Lexeme} (h : Moves move)
    (lexemes : List Lexeme) :
    SelectorList.parse (lexemes.map move) = SelectorList.parse lexemes := by
  rw [← h.map_recast false, h.recast.selectors_map]

end Css
