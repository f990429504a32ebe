import Css.Proofs.Media.Queries
import Css.Proofs.Value.Trivia

/-!
# Trivia around media queries

Trivia at both ends of a media query list do not matter (`MediaList.parse?_append_void`): whatever
is cut from the front leaves the trivia at the end behind, and these are all that may be left of a
query.
-/

namespace Css

open Lexeme

variable {before after : List Lexeme}

theorem Lexeme.isVoid_append_void (hafter : isVoid after = true) (lexemes : List Lexeme) :
    isVoid (lexemes ++ after) = isVoid lexemes := by
  rw [isVoid] at hafter
  rw [isVoid, List.all_append, hafter, Bool.and_true, isVoid]

/-! ### Conditions -/

namespace MediaCondition

theorem cutNot?_append_void (hafter : isVoid after = true) (lexemes : List Lexeme) :
    cutNot? (lexemes ++ after) = (cutNot? lexemes).map (· ++ after) := by
  rw [cutNot?, next?_append_void hafter, cutNot?]
  cases next? lexemes with
  | none => rfl
  | some next =>
    simp only [Option.map_some]
    split <;> rfl

theorem cutBrackets?_append_void (hafter : isVoid after = true) (lexemes : List Lexeme) :
    cutBrackets? (lexemes ++ after) = (cutBrackets? lexemes).map fun block =>
      { block with rest := block.rest ++ after } := by
  rw [cutBrackets?, next?_append_void hafter, cutBrackets?]
  obtain hnext | ⟨⟨token, rest⟩, hnext⟩ := Option.eq_none_or_eq_some (next? lexemes)
  · rw [hnext]
    rfl
  · rw [hnext, Option.map_some]
    split
    · rename_i hopens
      obtain ⟨rfl, rfl⟩ := Prod.mk.inj (Option.some.inj hopens)
      exact cutBlockFrom?_append_void hafter 0 rest
    · rename_i hother
      split
      · rename_i hopens
        obtain ⟨rfl, rfl⟩ := Prod.mk.inj (Option.some.inj hopens)
        exact absurd rfl (hother (rest ++ after))
      · rfl

theorem cutJunction?_append_void (hafter : isVoid after = true) (allowOr : Bool)
    (lexemes : List Lexeme) :
    cutJunction? allowOr (lexemes ++ after) =
      (cutJunction? allowOr lexemes).map fun (junction, rest) => (junction, rest ++ after) := by
  rw [cutJunction?, next?_append_void hafter, cutJunction?]
  cases next? lexemes with
  | none => rfl
  | some next =>
    simp only [Option.map_some]
    split
    · rfl
    split <;> rfl

theorem parseMore?_append_void (hafter : isVoid after = true) (allowOr : Bool)
    (junction : Junction) (lexemes : List Lexeme) :
    parseMore? allowOr junction (lexemes ++ after) =
      (parseMore? allowOr junction lexemes).map fun (more, rest) => (more, rest ++ after) := by
  rw [parseMore?_eq, parseMore?_eq, cutJunction?_append_void hafter]
  cases hjunction : cutJunction? allowOr lexemes with
  | none => rfl
  | some cut =>
    have hrest := length_of_cutJunction? hjunction
    simp only [Option.map_some, cutBrackets?_append_void hafter]
    split
    · rfl
    · cases hcut : cutBrackets? cut.2 with
      | none => rfl
      | some block =>
        have hlength := length_of_cutBrackets? hcut
        simp only [Option.map_some, bind, Option.bind]
        rw [parseMore?_append_void hafter allowOr junction block.rest]
        cases parseNested? block.inner with
        | none => rfl
        | some condition => cases parseMore? allowOr junction block.rest <;> rfl
termination_by lexemes.length

theorem parse?_append_void (hafter : isVoid after = true) (allowOr : Bool)
    (lexemes : List Lexeme) :
    parse? allowOr (lexemes ++ after) =
      (parse? allowOr lexemes).map fun (condition, rest) => (condition, rest ++ after) := by
  rw [parse?_eq, parse?_eq, cutNot?_append_void hafter, cutBrackets?_append_void hafter]
  cases cutNot? lexemes with
  | some rest =>
    simp only [Option.map_some, cutBrackets?_append_void hafter]
    cases cutBrackets? rest with
    | none => rfl
    | some block =>
      simp only [Option.map_some, bind, Option.bind, Option.map_map]
      rfl
  | none =>
    simp only [Option.map_none]
    cases cutBrackets? lexemes with
    | none => rfl
    | some block =>
      simp only [Option.map_some, bind, Option.bind]
      cases parseNested? block.inner with
      | none => rfl
      | some first =>
        simp only [cutJunction?_append_void hafter]
        cases cutJunction? allowOr block.rest with
        | none => rfl
        | some cut =>
          simp only [Option.map_some, parseMore?_append_void hafter]
          cases parseMore? allowOr cut.1 block.rest <;> rfl

end MediaCondition

/-! ### Queries -/

namespace MediaQuery

theorem cutType?_append_void (hafter : isVoid after = true) (lexemes : List Lexeme) :
    cutType? (lexemes ++ after) =
      (cutType? lexemes).map fun (name, rest) => (name, rest ++ after) := by
  rw [cutType?, next?_append_void hafter, cutType?]
  rcases next? lexemes with _ | ⟨token, rest⟩
  · rfl
  · cases token with
    | ident name =>
      simp only [Option.map_some]
      split <;> rfl
    | _ => rfl

theorem cutQualifier_append_void (hafter : isVoid after = true) (lexemes : List Lexeme) :
    cutQualifier (lexemes ++ after) =
      ((cutQualifier lexemes).1, (cutQualifier lexemes).2 ++ after) := by
  rw [cutQualifier, next?_append_void hafter, cutQualifier]
  rcases next? lexemes with _ | ⟨token, rest⟩
  · rfl
  · cases token with
    | ident word =>
      simp only [Option.map_some, next?_append_void hafter]
      rcases next? rest with _ | ⟨behind, _⟩
      · rfl
      · cases behind with
        | ident name =>
          simp only [Option.map_some]
          split
          · rfl
          split <;> rfl
        | _ => rfl
    | _ => rfl

theorem cut?_append_void (hafter : isVoid after = true) (lexemes : List Lexeme) :
    cut? (lexemes ++ after) = (cut? lexemes).map fun (query, rest) => (query, rest ++ after) := by
  unfold cut?
  simp only [cutQualifier_append_void hafter, cutType?_append_void hafter]
  cases cutType? (cutQualifier lexemes).2 with
  | some cut =>
    simp only [Option.map_some, MediaCondition.cutJunction?_append_void hafter]
    cases MediaCondition.cutJunction? false cut.2 with
    | none => rfl
    | some junction =>
      simp only [Option.map_some, MediaCondition.parse?_append_void hafter, Option.map_map]
      rfl
  | none =>
    simp only [Option.map_none]
    split
    · rfl
    · rw [MediaCondition.parse?_append_void hafter, Option.map_map, Option.map_map]
      rfl

theorem parse?_append_void (hbefore : isVoid before = true) (hafter : isVoid after = true)
    (lexemes : List Lexeme) : parse? (before ++ (lexemes ++ after)) = parse? lexemes := by
  rw [parse?_append_of_isTrivia (List.all_eq_true.1 hbefore), parse?, cut?_append_void hafter,
    parse?]
  cases cut? lexemes with
  | none => rfl
  | some cut => simp only [Option.map_some, bind, Option.bind, isVoid_append_void hafter]

end MediaQuery

namespace MediaList

theorem mapM_congr {groups groups' : List (List Lexeme)}
    (h : List.Forall₂ (fun group group' => MediaQuery.parse? group' = MediaQuery.parse? group)
      groups groups') : groups'.mapM MediaQuery.parse? = groups.mapM MediaQuery.parse? := by
  induction h with
  | nil => rfl
  | cons hgroup _ ih => rw [List.mapM_cons, List.mapM_cons, hgroup, ih]

/-- Trivia at both ends of a media query list do not matter. -/
theorem parse?_append_void (hbefore : isVoid before = true) (hafter : isVoid after = true)
    (lexemes : List Lexeme) :
    MediaList.parse? (before ++ (lexemes ++ after)) = MediaList.parse? lexemes := by
  have hvoid : isVoid (before ++ (lexemes ++ after)) = isVoid lexemes := by
    rw [isVoid] at hbefore
    rw [isVoid, List.all_append, hbefore, Bool.true_and, ← isVoid, isVoid_append_void hafter]
  have hgroups : List.Forall₂
      (fun group group' => MediaQuery.parse? group' = MediaQuery.parse? group)
      (splitCommas lexemes).toList (splitCommas (before ++ (lexemes ++ after))).toList := by
    have hend : ∀ {group group' : List Lexeme}, group' = group ∨ group' = group ++ after →
        ∀ {front : List Lexeme}, isVoid front = true →
          MediaQuery.parse? (front ++ group') = MediaQuery.parse? group := by
      rintro group _ (rfl | rfl) front hfront
      · exact MediaQuery.parse?_append_of_isTrivia (List.all_eq_true.1 hfront) _
      · exact MediaQuery.parse?_append_void hfront hafter group
    rw [splitCommas, splitCommas, splitCommasFrom_void_append hbefore]
    cases splitCommasFrom_append_void hafter 0 lexemes with
    | cons hfirst hmore =>
      exact .cons (hend hfirst hbefore) (hmore.imp fun _ _ h => @hend _ _ h [] rfl)
  rw [MediaList.parse?, hvoid, mapM_congr hgroups, MediaList.parse?]

/-- The run of some lexemes is read as the list that they are read as, if they are. -/
theorem parse?_ofLexemes {lexemes : List Lexeme}
    (hkept : ∀ lexeme ∈ lexemes, TokenRun.isKept lexeme.token = true) :
    MediaList.parse? (TokenRun.ofLexemes lexemes).toLexemes = MediaList.parse? lexemes := by
  obtain ⟨before, after, heq, hbefore, hafter⟩ := exists_trim lexemes
  calc MediaList.parse? (TokenRun.ofLexemes lexemes).toLexemes
      = MediaList.parse? (Recast.printed.map false (trim lexemes)) := by
        rw [Recast.toLexemes_ofLexemes hkept]
    _ = MediaList.parse? (trim lexemes) := Recast.printed.media_map _
    _ = MediaList.parse? (before ++ (trim lexemes ++ after)) :=
        (parse?_append_void hbefore hafter _).symm
    _ = MediaList.parse? lexemes := by rw [← heq]

end MediaList

end Css
