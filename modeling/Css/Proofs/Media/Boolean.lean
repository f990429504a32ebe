import Css.Proofs.Media.Roundtrip

/-!
# Conditions on the presence of features

A condition whose features are all tested by their presence has no text of its own to lose: however
deep its negations, conjunctions and disjunctions stand in each other, it is read back from what is
written for it in any style (`MediaCondition.parse?_toText_isBoolean`).
-/

namespace Css

variable {lineComments : Bool}

namespace MediaFeature

/-- Whether a feature is tested by its presence, under a name that is not the word `not`. -/
def isBoolean : MediaFeature → Bool
  | boolean name => name.isIdentifier && !name.isKeyword "not"
  | _ => false

theorem exists_of_isBoolean {feature : MediaFeature} (h : feature.isBoolean = true) :
    ∃ name, feature = boolean name ∧ name.isIdentifier = true ∧ name.isKeyword "not" = false := by
  cases feature with
  | boolean name =>
    rw [isBoolean, Bool.and_eq_true, Bool.not_eq_true'] at h
    exact ⟨name, rfl, h⟩
  | _ => contradiction

end MediaFeature

namespace MediaCondition

mutual

def isBoolean : MediaCondition → Bool
  | feature f => f.isBoolean
  | negation condition => isBoolean condition
  | conjunction conditions => 2 ≤ conditions.length && allBoolean conditions
  | disjunction conditions => 2 ≤ conditions.length && allBoolean conditions

def allBoolean : List MediaCondition → Bool
  | [] => true
  | condition :: conditions => isBoolean condition && allBoolean conditions

end

/-! ### Styles -/

mutual

/-- Nothing in such a condition is written in one way in one style and in another way in another. -/
theorem nestedText_style (style : Style) : {condition : MediaCondition} →
    condition.isBoolean = true → nestedText style condition = nestedText .pretty condition
  | feature f, h => by
    obtain ⟨name, rfl, -⟩ := MediaFeature.exists_of_isBoolean h
    rfl
  | negation condition, h => by
    have hcondition : condition.isBoolean = true := h
    rw [nestedText, nestedText, nestedText_style style hcondition]
  | conjunction conditions, h => by
    rw [nestedText, nestedText, joinText_style style _ (Bool.and_eq_true_iff.1 h).2]
  | disjunction conditions, h => by
    rw [nestedText, nestedText, joinText_style style _ (Bool.and_eq_true_iff.1 h).2]

theorem joinText_style (style : Style) (word : Text) : {conditions : List MediaCondition} →
    allBoolean conditions = true → joinText style word conditions = joinText .pretty word conditions
  | [], _ => rfl
  | [condition], h => nestedText_style style (Bool.and_eq_true_iff.1 h).1
  | condition :: next :: conditions, h => by
    obtain ⟨hcondition, hrest⟩ := Bool.and_eq_true_iff.1 h
    rw [joinText, joinText, nestedText_style style hcondition, joinText_style style word hrest]

end

theorem toText_style (style : Style) {condition : MediaCondition}
    (h : condition.isBoolean = true) : condition.toText style = condition.toText .pretty := by
  cases condition with
  | feature f => exact nestedText_style style h
  | negation condition =>
    have hcondition : condition.isBoolean = true := h
    rw [toText, toText, nestedText_style style hcondition]
  | conjunction conditions =>
    rw [toText, toText, joinText_style style _ (Bool.and_eq_true_iff.1 h).2]
  | disjunction conditions =>
    rw [toText, toText, joinText_style style _ (Bool.and_eq_true_iff.1 h).2]

/-! ### Reading back -/

mutual

theorem survives_of_isBoolean : {condition : MediaCondition} → condition.isBoolean = true →
    condition.Survives lineComments
  | feature f, h => by
    obtain ⟨name, rfl, hname, hnot⟩ := MediaFeature.exists_of_isBoolean h
    exact MediaFeature.survives_boolean (Text.isWord_of_isIdentifier hname) hnot
  | negation condition, h => by
    have hcondition : condition.isBoolean = true := h
    show condition.Survives lineComments
    exact survives_of_isBoolean hcondition
  | conjunction conditions, h => by
    obtain ⟨hlength, hall⟩ := Bool.and_eq_true_iff.1 h
    exact ⟨of_decide_eq_true hlength, allSurvive_of_allBoolean hall⟩
  | disjunction conditions, h => by
    obtain ⟨hlength, hall⟩ := Bool.and_eq_true_iff.1 h
    exact ⟨of_decide_eq_true hlength, allSurvive_of_allBoolean hall⟩

theorem allSurvive_of_allBoolean : {conditions : List MediaCondition} →
    allBoolean conditions = true → AllSurvive lineComments conditions
  | [], _ => trivial
  | _ :: _, h => by
    obtain ⟨hcondition, hrest⟩ := Bool.and_eq_true_iff.1 h
    exact ⟨survives_of_isBoolean hcondition, allSurvive_of_allBoolean hrest⟩

end

/-- A condition that survives is a query on its own that does. -/
theorem Survives.query {condition : MediaCondition} (h : condition.Survives lineComments) :
    MediaQuery.Survives lineComments ⟨none, none, some condition⟩ where
  bare := fun _ => ⟨rfl, rfl⟩
  word := fun _ hmem => by contradiction
  only := fun _ hmem => by contradiction
  condition := fun _ hmem => by
    obtain rfl := Option.some.inj hmem
    exact h
  noDisjunction := fun hsome => by contradiction

/-- A condition on the presence of features is read back from its text as a query of its own. -/
theorem parse?_toText_isBoolean (lineComments : Bool) (style : Style)
    {condition : MediaCondition} (h : condition.isBoolean = true) :
    MediaList.parse? ((Reading.all lineComments 0 (condition.toText style)).map (·.lexeme)) =
      some [⟨none, none, some condition⟩] := by
  have hlist : MediaList.toText .pretty [⟨none, none, some condition⟩] =
      condition.toText .pretty := List.append_nil _
  rw [toText_style style h, ← hlist]
  refine MediaList.parse?_all fun query hmem => ?_
  obtain rfl := List.mem_singleton.1 hmem
  exact (survives_of_isBoolean h).query

theorem parse?_toText_isBoolean_nested :
    MediaList.parse? ((Reading.all true 0 (toText .minified
      (.disjunction [.negation (.conjunction [.feature (.boolean "color".toList),
        .negation (.negation (.feature (.boolean "--grid".toList)))]),
        .disjunction [.feature (.boolean "and".toList),
          .feature (.boolean "or".toList)]]))).map (·.lexeme)) =
      some [⟨none, none, some
        (.disjunction [.negation (.conjunction [.feature (.boolean "color".toList),
          .negation (.negation (.feature (.boolean "--grid".toList)))]),
          .disjunction [.feature (.boolean "and".toList), .feature (.boolean "or".toList)]])⟩] :=
  parse?_toText_isBoolean true .minified (by decide +kernel)

end MediaCondition

end Css
