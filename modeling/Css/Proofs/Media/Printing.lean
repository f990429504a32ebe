import Css.Proofs.Media.Reading
import Css.Proofs.Media.Tokens
import Css.Proofs.Token.Standing

/-!
# Reading what was written for a media query list

The tokens that are written for a condition are read as that condition, if each feature in it is
read back from what stands in its brackets and each junction in it joins two conditions or more
(`MediaCondition.Survives`). A disjunction is read back only where `or` is allowed, so not behind a
media type.
-/

namespace Css

open Lexeme
open TokenRun (bracketed)

variable {lineComments : Bool}

/-! ### Runs in brackets -/

theorem TokenRun.Stands.bracketed {run : TokenRun} (h : run.Stands lineComments) :
    (bracketed run).Stands lineComments where
  scanned := by
    intro follow hfollow
    rw [TokenRun.bracketed, toLexemes_cons, toLexemes_append]
    refine ⟨.of_spells (.single rfl), eachStands_append.2 ⟨h.scanned _ ?_, ?_, trivial⟩⟩
    · exact separates_cons rfl _
    · exact .of_spells (.single rfl)
  closed := by
    rw [TokenRun.bracketed, toLexemes_cons, toLexemes_append]
    exact .brackets rfl rfl h.closed rfl

/-! ### Features and conditions -/

structure MediaFeature.Survives (lineComments : Bool) (feature : MediaFeature) : Prop where
  stands : feature.inner.Stands lineComments
  starts : MediaCondition.startsCondition feature.inner.toLexemes = false
  reads : MediaFeature.parse? feature.inner.toLexemes = some feature

namespace MediaCondition

mutual

def Survives (lineComments : Bool) : MediaCondition → Prop
  | feature f => f.Survives lineComments
  | negation condition => Survives lineComments condition
  | conjunction conditions => 2 ≤ conditions.length ∧ AllSurvive lineComments conditions
  | disjunction conditions => 2 ≤ conditions.length ∧ AllSurvive lineComments conditions

def AllSurvive (lineComments : Bool) : List MediaCondition → Prop
  | [] => True
  | condition :: conditions =>
    Survives lineComments condition ∧ AllSurvive lineComments conditions

end

theorem isWord_not : Text.IsWord lineComments "not".toList :=
  Text.isWord_of_isAlpha (by decide) (by decide)

theorem isWord_junction (junction : Junction) : junction.word.IsWord lineComments := by
  cases junction
  · exact Text.isWord_of_isAlpha (by decide) (by decide)
  · exact Text.isWord_of_isAlpha (by decide) (by decide)

theorem separates_joinedMore (junction : Junction) (conditions : List MediaCondition) :
    Separates ((joinedMore junction conditions).toText .pretty) := by
  cases conditions with
  | nil =>
    rw [joinedMore]
    intro c hc
    contradiction
  | cons condition conditions =>
    rw [joinedMore]
    exact separates_cons rfl _

mutual

theorem stands_inner : {condition : MediaCondition} → condition.Survives lineComments →
    condition.inner.Stands lineComments
  | feature _, h => h.stands
  | negation condition, h => by
    rw [inner]
    have hinner : condition.inner.Stands lineComments := stands_inner h
    exact .word isWord_not (hinner.bracketed.space rfl rfl) (separates_cons rfl _)
  | conjunction _, h => stands_joined .conjunction h.2
  | disjunction _, h => stands_joined .disjunction h.2

theorem stands_joined (junction : Junction) : {conditions : List MediaCondition} →
    AllSurvive lineComments conditions → (joined junction conditions).Stands lineComments
  | [], _ => by
    rw [joined]
    exact .nil
  | _ :: _, h => by
    rw [joined]
    exact (stands_inner h.1).bracketed.append (stands_joinedMore junction h.2)
      (separates_joinedMore _ _)

theorem stands_joinedMore (junction : Junction) : {conditions : List MediaCondition} →
    AllSurvive lineComments conditions → (joinedMore junction conditions).Stands lineComments
  | [], _ => by
    rw [joinedMore]
    exact .nil
  | condition :: _, h => by
    rw [joinedMore]
    have hmore := (stands_inner h.1).bracketed.append (stands_joinedMore junction h.2)
      (separates_joinedMore _ _)
    have hword := (hmore.space rfl rfl).word (isWord_junction junction) (separates_cons rfl _)
    exact hword.space rfl rfl

end

/-! ### Reading conditions back -/

section

variable {allowOr : Bool}

theorem next?_bracketed (run : TokenRun) (rest : List Lexeme) :
    next? ((bracketed run).toLexemes ++ rest) =
      some (.opening .round, TokenRun.toLexemes (run ++ [.closing .round]) ++ rest) :=
  next?_of_not_isTrivia rfl _

theorem cutBrackets?_bracketed {run : TokenRun} (h : IsClosed run.toLexemes)
    (rest : List Lexeme) :
    cutBrackets? ((bracketed run).toLexemes ++ rest) =
      some ⟨run.toLexemes, ⟨.closing .round, .point 0, [')']⟩, rest⟩ := by
  rw [cutBrackets?, next?_bracketed, TokenRun.toLexemes_append, List.append_assoc]
  exact cutBlock?_append_of_isClosed h rfl rest

theorem cutNot?_bracketed (run : TokenRun) (rest : List Lexeme) :
    cutNot? ((bracketed run).toLexemes ++ rest) = none := by
  rw [cutNot?, next?_bracketed]
  rfl

theorem cutBrackets?_of_isTrivia {lexeme : Lexeme} (h : lexeme.isTrivia = true)
    (lexemes : List Lexeme) : cutBrackets? (lexeme :: lexemes) = cutBrackets? lexemes := by
  rw [cutBrackets?, next?_of_isTrivia h, cutBrackets?]

theorem cutBrackets?_space (run : TokenRun) :
    cutBrackets? (TokenRun.toLexemes (.whitespace :: run)) = cutBrackets? run.toLexemes :=
  cutBrackets?_of_isTrivia rfl _

theorem parse?_of_isTrivia {lexeme : Lexeme} (h : lexeme.isTrivia = true)
    (lexemes : List Lexeme) : parse? allowOr (lexeme :: lexemes) = parse? allowOr lexemes := by
  have hnot : cutNot? (lexeme :: lexemes) = cutNot? lexemes := by
    rw [cutNot?, next?_of_isTrivia h, cutNot?]
  rw [parse?_eq, hnot, cutBrackets?_of_isTrivia h, parse?_eq allowOr lexemes]

def Junction.IsAllowed (allowOr : Bool) (junction : Junction) : Prop :=
  allowOr = true ∨ junction = .conjunction

theorem cutJunction?_joinedMore {junction : Junction} (hallowed : junction.IsAllowed allowOr)
    (condition : MediaCondition) (conditions : List MediaCondition) :
    cutJunction? allowOr (joinedMore junction (condition :: conditions)).toLexemes =
      some (junction, TokenRun.toLexemes (.whitespace ::
        (bracketed condition.inner ++ joinedMore junction conditions))) := by
  rw [joinedMore, TokenRun.toLexemes_cons, TokenRun.toLexemes_cons, cutJunction?,
    next?_of_isTrivia rfl, next?_of_not_isTrivia rfl]
  obtain rfl | rfl := hallowed
  · cases junction <;> rfl
  · rfl

theorem parse?_negation {condition : MediaCondition} (hclosed : IsClosed condition.inner.toLexemes)
    (hread : parseNested? condition.inner.toLexemes = some condition) :
    parse? allowOr (negation condition).inner.toLexemes = some (negation condition, []) := by
  have hnot : cutNot? (negation condition).inner.toLexemes =
      some (TokenRun.toLexemes (.whitespace :: bracketed condition.inner)) := by
    rw [inner, TokenRun.toLexemes_cons, cutNot?, next?_of_not_isTrivia rfl]
    rfl
  have hcut := cutBrackets?_bracketed hclosed []
  rw [List.append_nil] at hcut
  rw [parse?_eq, hnot]
  simp only [cutBrackets?_space, hcut, bind, Option.bind, hread]
  rfl

theorem parse?_bracketed {condition : MediaCondition}
    (hclosed : IsClosed condition.inner.toLexemes)
    (hread : parseNested? condition.inner.toLexemes = some condition) :
    parse? allowOr (bracketed condition.inner).toLexemes = some (condition, []) := by
  have hnot := cutNot?_bracketed condition.inner []
  have hcut := cutBrackets?_bracketed hclosed []
  rw [List.append_nil] at hnot hcut
  rw [parse?_eq, hnot, hcut]
  simp only [bind, Option.bind, hread]
  rfl

theorem parse?_joined {junction : Junction} (hallowed : junction.IsAllowed allowOr)
    {condition next : MediaCondition} {conditions : List MediaCondition}
    (hclosed : IsClosed condition.inner.toLexemes)
    (hread : parseNested? condition.inner.toLexemes = some condition)
    (hmore : parseMore? allowOr junction (joinedMore junction (next :: conditions)).toLexemes =
      some (next :: conditions, [])) :
    parse? allowOr (joined junction (condition :: next :: conditions)).toLexemes =
      some (junction.join (condition :: next :: conditions), []) := by
  rw [joined, TokenRun.toLexemes_append, parse?_eq, cutNot?_bracketed,
    cutBrackets?_bracketed hclosed]
  simp only [bind, Option.bind, hread, cutJunction?_joinedMore hallowed, hmore]
  rfl

theorem startsCondition_joined (junction : Junction) (condition : MediaCondition)
    (conditions : List MediaCondition) :
    startsCondition (joined junction (condition :: conditions)).toLexemes = true := by
  rw [joined, TokenRun.toLexemes_append, startsCondition, next?_bracketed]
  rfl

theorem parseNested?_joined {junction : Junction} {condition next : MediaCondition}
    {conditions : List MediaCondition} (hclosed : IsClosed condition.inner.toLexemes)
    (hread : parseNested? condition.inner.toLexemes = some condition)
    (hmore : parseMore? true junction (joinedMore junction (next :: conditions)).toLexemes =
      some (next :: conditions, [])) :
    parseNested? (joined junction (condition :: next :: conditions)).toLexemes =
      some (junction.join (condition :: next :: conditions)) := by
  rw [parseNested?_eq, startsCondition_joined, if_pos rfl,
    parse?_joined (.inl rfl) hclosed hread hmore]
  rfl

mutual

theorem parseNested?_inner : {condition : MediaCondition} → condition.Survives lineComments →
    parseNested? condition.inner.toLexemes = some condition
  | feature f, h => by
    have hinner : (feature f).inner = f.inner := by rw [inner]
    rw [parseNested?_eq, hinner, h.starts, if_neg Bool.false_ne_true, h.reads]
    rfl
  | negation condition, h => by
    have hstarts : startsCondition (negation condition).inner.toLexemes = true := by
      rw [inner, TokenRun.toLexemes_cons, startsCondition, next?_of_not_isTrivia rfl]
      rfl
    have hsurvives : condition.Survives lineComments := h
    rw [parseNested?_eq, hstarts, if_pos rfl,
      parse?_negation (stands_inner hsurvives).closed (parseNested?_inner hsurvives)]
    rfl
  | conjunction [], h => absurd h.1 (by decide)
  | conjunction [_], h => absurd h.1 (by simp)
  | conjunction (condition :: next :: conditions), h => by
    rw [inner]
    exact parseNested?_joined (stands_inner h.2.1).closed (parseNested?_inner h.2.1)
      (parseMore?_joinedMore (.inl rfl) h.2.2)
  | disjunction [], h => absurd h.1 (by decide)
  | disjunction [_], h => absurd h.1 (by simp)
  | disjunction (condition :: next :: conditions), h => by
    rw [inner]
    exact parseNested?_joined (stands_inner h.2.1).closed (parseNested?_inner h.2.1)
      (parseMore?_joinedMore (.inl rfl) h.2.2)

theorem parseMore?_joinedMore {allowOr : Bool} {junction : Junction}
    (hallowed : junction.IsAllowed allowOr) : {conditions : List MediaCondition} →
    AllSurvive lineComments conditions →
    parseMore? allowOr junction (joinedMore junction conditions).toLexemes =
      some (conditions, [])
  | [], _ => by
    rw [joinedMore, parseMore?_eq]
    rfl
  | condition :: conditions, h => by
    have hclosed := (stands_inner h.1).closed
    rw [parseMore?_eq, cutJunction?_joinedMore hallowed]
    simp only [ne_eq, not_true_eq_false, if_false, cutBrackets?_space, TokenRun.toLexemes_append,
      cutBrackets?_bracketed hclosed, bind, Option.bind, parseNested?_inner h.1,
      parseMore?_joinedMore hallowed h.2]
    rfl

end

/-- A condition is read back from what is written for it, a disjunction only where `or` is
allowed. -/
theorem parse?_tokens {condition : MediaCondition} (h : condition.Survives lineComments)
    (hor : allowOr = true ∨ ∀ conditions, condition ≠ disjunction conditions) :
    parse? allowOr condition.tokens.toLexemes = some (condition, []) := by
  have hjoined : ∀ {junction : Junction} {conditions : List MediaCondition},
      junction.IsAllowed allowOr → 2 ≤ conditions.length → AllSurvive lineComments conditions →
      parse? allowOr (joined junction conditions).toLexemes =
        some (junction.join conditions, []) := by
    intro junction conditions hallowed hlength hall
    match conditions with
    | [] => exact absurd hlength (by decide)
    | [_] => exact absurd hlength (by simp)
    | condition :: next :: conditions =>
      exact parse?_joined hallowed (stands_inner hall.1).closed (parseNested?_inner hall.1)
        (parseMore?_joinedMore hallowed hall.2)
  cases condition with
  | feature f => exact parse?_bracketed (stands_inner h).closed (parseNested?_inner h)
  | negation condition =>
    have hsurvives : condition.Survives lineComments := h
    exact parse?_negation (stands_inner hsurvives).closed (parseNested?_inner hsurvives)
  | conjunction conditions => exact hjoined (.inr rfl) h.1 h.2
  | disjunction conditions =>
    exact hjoined (.inl (hor.resolve_right fun hne => hne conditions rfl)) h.1 h.2

end

end MediaCondition

/-! ### Conditions on their own -/

namespace MediaCondition

theorem stands_tokens {condition : MediaCondition} (h : condition.Survives lineComments) :
    condition.tokens.Stands lineComments := by
  cases condition with
  | feature f => exact TokenRun.Stands.bracketed h.stands
  | negation condition => exact stands_inner h
  | conjunction conditions => exact stands_inner h
  | disjunction conditions => exact stands_inner h

/-- A condition starts with a bracket, or with `not` and a bracket. -/
theorem exists_tokens {condition : MediaCondition} (h : condition.Survives lineComments) :
    (∃ run, condition.tokens = .opening .round :: run) ∨
      ∃ run, condition.tokens = .ident "not".toList :: .whitespace :: .opening .round :: run := by
  have hjoined : ∀ (junction : Junction) {conditions : List MediaCondition},
      2 ≤ conditions.length → ∃ run, joined junction conditions = .opening .round :: run := by
    intro junction conditions hlength
    cases conditions with
    | nil => exact absurd hlength (by decide)
    | cons condition conditions =>
      rw [joined]
      exact ⟨_, rfl⟩
  cases condition with
  | feature f => exact .inl ⟨_, rfl⟩
  | negation condition =>
    refine .inr ⟨condition.inner ++ [.closing .round], ?_⟩
    rw [tokens, inner, bracketed]
    exact fun _ => MediaCondition.noConfusion
  | conjunction conditions =>
    obtain ⟨run, hrun⟩ := hjoined .conjunction h.1
    exact .inl ⟨run, by rw [← hrun]; rfl⟩
  | disjunction conditions =>
    obtain ⟨run, hrun⟩ := hjoined .disjunction h.1
    exact .inl ⟨run, by rw [← hrun]; rfl⟩

end MediaCondition

end Css
