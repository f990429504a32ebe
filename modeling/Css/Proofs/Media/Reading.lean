import Css.Media.Parser
import Css.Proofs.Token.Recast

/-!
# How media queries are read

The reading of conditions, without the bounds that make it end; and what is read depends on the
lexemes only as far as a `Recast` keeps them.
-/

namespace Css

namespace MediaCondition

theorem parse?_eq (allowOr : Bool) (lexemes : List Lexeme) :
    parse? allowOr lexemes =
      match cutNot? lexemes with
      | some lexemes => do
        let block ← cutBrackets? lexemes
        (parseNested? block.inner).map fun condition => (negation condition, block.rest)
      | none => do
        let block ← cutBrackets? lexemes
        let first ← parseNested? block.inner
        match cutJunction? allowOr block.rest with
        | none => return (first, block.rest)
        | some (junction, _) =>
          let (more, rest) ← parseMore? allowOr junction block.rest
          return (junction.join (first :: more), rest) := by
  rw [parse?]
  split
  · rename_i hnot
    simp only [hnot]
    split
    · rename_i hcut
      rw [hcut]; rfl
    · rename_i hcut
      rw [hcut]; rfl
  · rename_i hnot
    simp only [hnot]
    split
    · rename_i hcut
      rw [hcut]; rfl
    · rename_i hcut
      rw [hcut]; rfl

theorem parseNested?_eq (inner : List Lexeme) :
    parseNested? inner =
      if startsCondition inner then do
        let (condition, rest) ← parse? true inner
        if Lexeme.isVoid rest then return condition else none
      else (MediaFeature.parse? inner).map feature := by
  rw [parseNested?]

theorem parseMore?_eq (allowOr : Bool) (junction : Junction) (lexemes : List Lexeme) :
    parseMore? allowOr junction lexemes =
      match cutJunction? allowOr lexemes with
      | none => some ([], lexemes)
      | some (junction', rest) =>
        if junction' ≠ junction then none
        else do
          let block ← cutBrackets? rest
          let condition ← parseNested? block.inner
          let (more, rest) ← parseMore? allowOr junction block.rest
          return (condition :: more, rest) := by
  rw [parseMore?]
  split
  · rename_i hcut
    simp only [hcut]
  · rename_i hcut
    simp only [hcut]
    split
    · rfl
    · split
      · rename_i hblock
        rw [hblock]; rfl
      · rename_i hblock
        rw [hblock]; rfl

end MediaCondition

namespace Lexeme.Recast

variable (recast : Recast)

/-! ### Trivia and places do not matter -/

theorem cutName?_map (inner : List Lexeme) :
    MediaFeature.cutName? (recast.map false inner) =
      (MediaFeature.cutName? inner).map fun (name, rest) => (name, recast.map false rest) := by
  rw [MediaFeature.cutName?, recast.next?_map, MediaFeature.cutName?]
  cases next? inner with
  | none => rfl
  | some cut =>
    obtain ⟨token, rest⟩ := cut
    cases token with
    | ident name =>
      simp only [Option.map_some, recast.next?_map]
      cases next? rest with
      | none => rfl
      | some cut =>
        obtain ⟨token, rest⟩ := cut
        cases token <;> rfl
    | _ => rfl

theorem feature_map (inner : List Lexeme) :
    MediaFeature.parse? (recast.map false inner) = MediaFeature.parse? inner := by
  have hhead := isTrivia_of_mem_head?_trim inner
  have hany := recast.any_map (p := Token.isComparison)
    (fun token h => by cases token <;> first | rfl | contradiction) false (trim inner)
  rw [MediaFeature.parse?, recast.trim_map, recast.cutName?_map, MediaFeature.parse?]
  generalize trim inner = trimmed at hhead hany ⊢
  -- a name on its own makes a feature, so the first two lexemes show which case it is
  rcases trimmed with _ | ⟨lexeme, _ | ⟨next, rest⟩⟩
  · rfl
  · simp only [recast.map_token (hhead lexeme rfl), map_nil, tokens, List.map_cons, List.map_nil,
      recast.token_move lexeme (hhead lexeme rfl)]
    cases MediaFeature.cutName? inner with
    | none => simp only [Option.map_none, recast.ofLexemes_map]
    | some cut =>
      cases lexeme.token <;>
        simp only [Option.map_some, recast.isVoid_map, recast.ofLexemes_map]
  · have hcomparison : (tokens (recast.map false (lexeme :: next :: rest))).any
        Token.isComparison = (tokens (lexeme :: next :: rest)).any Token.isComparison := by
      rw [tokens, tokens, List.any_map, List.any_map]
      exact hany
    simp only [recast.map_token (hhead lexeme rfl), recast.map_false_cons, tokens,
      List.map_cons, recast.token_move lexeme (hhead lexeme rfl)] at hcomparison ⊢
    generalize lexeme.token = token at hcomparison ⊢
    cases MediaFeature.cutName? inner with
    | none => cases token <;> simp only [Option.map_none, recast.ofLexemes_map, hcomparison]
    | some cut =>
      cases token <;> simp only [Option.map_some, recast.isVoid_map, recast.ofLexemes_map]

theorem cutJunction?_map (allowOr : Bool) (lexemes : List Lexeme) :
    MediaCondition.cutJunction? allowOr (recast.map false lexemes) =
      (MediaCondition.cutJunction? allowOr lexemes).map fun (junction, rest) =>
        (junction, recast.map false rest) := by
  rw [MediaCondition.cutJunction?, recast.next?_map, MediaCondition.cutJunction?]
  cases next? lexemes with
  | none => rfl
  | some cut =>
    obtain ⟨token, rest⟩ := cut
    simp only [Option.map_some]
    split
    · rfl
    · split <;> rfl

theorem cutBrackets?_map (lexemes : List Lexeme) :
    MediaCondition.cutBrackets? (recast.map false lexemes) =
      (MediaCondition.cutBrackets? lexemes).map (recast.block false) := by
  rw [MediaCondition.cutBrackets?, recast.next?_map, MediaCondition.cutBrackets?]
  cases next? lexemes with
  | none => rfl
  | some cut =>
    obtain ⟨token, rest⟩ := cut
    cases token with
    | opening bracket =>
      cases bracket with
      | round => exact recast.cutBlock?_map false rest
      | square => rfl
      | curly => rfl
    | _ => rfl

theorem cutNot?_map (lexemes : List Lexeme) :
    MediaCondition.cutNot? (recast.map false lexemes) =
      (MediaCondition.cutNot? lexemes).map (recast.map false) := by
  rw [MediaCondition.cutNot?, recast.next?_map, MediaCondition.cutNot?]
  cases next? lexemes with
  | none => rfl
  | some cut =>
    simp only [Option.map_some]
    split <;> rfl

theorem startsCondition_map (lexemes : List Lexeme) :
    MediaCondition.startsCondition (recast.map false lexemes) =
      MediaCondition.startsCondition lexemes := by
  rw [MediaCondition.startsCondition, recast.next?_map, MediaCondition.startsCondition]
  cases next? lexemes <;> rfl

mutual

theorem condition_map (recast : Recast) (allowOr : Bool) (lexemes : List Lexeme) :
    MediaCondition.parse? allowOr (recast.map false lexemes) =
      (MediaCondition.parse? allowOr lexemes).map fun (condition, rest) =>
        (condition, recast.map false rest) := by
  rw [MediaCondition.parse?_eq, MediaCondition.parse?_eq, recast.cutNot?_map,
    recast.cutBrackets?_map]
  cases hnot : MediaCondition.cutNot? lexemes with
  | some rest =>
    simp only [Option.map_some, recast.cutBrackets?_map]
    cases hcut : MediaCondition.cutBrackets? rest with
    | none => rfl
    | some block =>
      have hrest := MediaCondition.length_of_cutNot? hnot
      have hlength := MediaCondition.length_of_cutBrackets? hcut
      simp only [Option.map_some, bind, Option.bind, Recast.block]
      rw [recast.nested_map block.inner, Option.map_map]
      rfl
  | none =>
    cases hcut : MediaCondition.cutBrackets? lexemes with
    | none => rfl
    | some block =>
      have hlength := MediaCondition.length_of_cutBrackets? hcut
      simp only [Option.map_none, Option.map_some, bind, Option.bind, Recast.block]
      rw [recast.nested_map block.inner, recast.cutJunction?_map]
      cases MediaCondition.parseNested? block.inner with
      | none => rfl
      | some first =>
        cases MediaCondition.cutJunction? allowOr block.rest with
        | none => rfl
        | some cut =>
          simp only [Option.map_some]
          rw [recast.more_map allowOr cut.1 block.rest]
          cases MediaCondition.parseMore? allowOr cut.1 block.rest <;> rfl
termination_by 2 * lexemes.length

theorem nested_map (recast : Recast) (inner : List Lexeme) :
    MediaCondition.parseNested? (recast.map false inner) = MediaCondition.parseNested? inner := by
  rw [MediaCondition.parseNested?_eq, MediaCondition.parseNested?_eq, recast.startsCondition_map,
    recast.feature_map, recast.condition_map true inner]
  split
  · cases MediaCondition.parse? true inner with
    | none => rfl
    | some read => simp only [Option.map_some, bind, Option.bind, recast.isVoid_map]
  · rfl
termination_by 2 * inner.length + 1

theorem more_map (recast : Recast) (allowOr : Bool) (junction : MediaCondition.Junction)
    (lexemes : List Lexeme) :
    MediaCondition.parseMore? allowOr junction (recast.map false lexemes) =
      (MediaCondition.parseMore? allowOr junction lexemes).map fun (more, rest) =>
        (more, recast.map false rest) := by
  rw [MediaCondition.parseMore?_eq, MediaCondition.parseMore?_eq, recast.cutJunction?_map]
  cases hjunction : MediaCondition.cutJunction? allowOr lexemes with
  | none => rfl
  | some cut =>
    obtain ⟨junction', rest⟩ := cut
    have hrest := MediaCondition.length_of_cutJunction? hjunction
    simp only [Option.map_some, recast.cutBrackets?_map]
    split
    · rfl
    · cases hcut : MediaCondition.cutBrackets? rest with
      | none => rfl
      | some block =>
        have hlength := MediaCondition.length_of_cutBrackets? hcut
        simp only [Option.map_some, bind, Option.bind, Recast.block]
        rw [recast.nested_map block.inner, recast.more_map allowOr junction block.rest]
        cases MediaCondition.parseNested? block.inner with
        | none => rfl
        | some condition =>
          cases MediaCondition.parseMore? allowOr junction block.rest <;> rfl
termination_by 2 * lexemes.length

end

theorem cutQualifier_map (lexemes : List Lexeme) :
    MediaQuery.cutQualifier (recast.map false lexemes) =
      ((MediaQuery.cutQualifier lexemes).1,
        recast.map false (MediaQuery.cutQualifier lexemes).2) := by
  rw [MediaQuery.cutQualifier, recast.next?_map, MediaQuery.cutQualifier]
  cases next? lexemes with
  | none => rfl
  | some cut =>
    obtain ⟨token, rest⟩ := cut
    cases token with
    | ident word =>
      simp only [Option.map_some, recast.next?_map]
      cases next? rest with
      | none => rfl
      | some cut =>
        obtain ⟨token, after⟩ := cut
        cases token with
        | ident name =>
          simp only [Option.map_some]
          split
          · rfl
          · split <;> rfl
        | _ => rfl
    | _ => rfl

theorem cutType?_map (lexemes : List Lexeme) :
    MediaQuery.cutType? (recast.map false lexemes) =
      (MediaQuery.cutType? lexemes).map fun (name, rest) => (name, recast.map false rest) := by
  rw [MediaQuery.cutType?, recast.next?_map, MediaQuery.cutType?]
  cases next? lexemes with
  | none => rfl
  | some cut =>
    obtain ⟨token, rest⟩ := cut
    cases token with
    | ident name =>
      simp only [Option.map_some]
      split <;> rfl
    | _ => rfl

theorem cutQuery?_map (lexemes : List Lexeme) :
    MediaQuery.cut? (recast.map false lexemes) =
      (MediaQuery.cut? lexemes).map fun (query, rest) => (query, recast.map false rest) := by
  simp only [MediaQuery.cut?, recast.cutQualifier_map, recast.cutType?_map]
  cases MediaQuery.cutType? (MediaQuery.cutQualifier lexemes).2 with
  | none =>
    simp only [Option.map_none, recast.condition_map]
    split
    · rfl
    · rw [Option.map_map, Option.map_map]
      rfl
  | some cut =>
    obtain ⟨mediaType, rest⟩ := cut
    simp only [Option.map_some, recast.cutJunction?_map]
    cases MediaCondition.cutJunction? false rest with
    | none => rfl
    | some cut =>
      simp only [Option.map_some, recast.condition_map, Option.map_map]
      rfl

theorem query_map (lexemes : List Lexeme) :
    MediaQuery.parse? (recast.map false lexemes) = MediaQuery.parse? lexemes := by
  rw [MediaQuery.parse?, recast.cutQuery?_map, MediaQuery.parse?]
  cases MediaQuery.cut? lexemes with
  | none => rfl
  | some cut => simp only [Option.map_some, bind, Option.bind, recast.isVoid_map]

theorem media_map (lexemes : List Lexeme) :
    MediaList.parse? (recast.map false lexemes) = MediaList.parse? lexemes := by
  have hquery : MediaQuery.parse? ∘ recast.map false = MediaQuery.parse? := funext recast.query_map
  rw [MediaList.parse?, recast.isVoid_map, recast.splitCommas_map, MediaList.parse?,
    List.mapM_map, hquery]

end Lexeme.Recast

theorem Lexeme.Moves.media_map {move : Lexeme → Lexeme} (h : Moves move)
    (lexemes : List Lexeme) : MediaList.parse? (lexemes.map move) = MediaList.parse? lexemes := by
  rw [← h.map_recast false, h.recast.media_map]

end Css
