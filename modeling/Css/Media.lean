import Css.Token.Run

/-!
# Media queries

When the rules of an `@media` block apply: a list of queries, each with a media type, a condition on
features, or both.
-/

namespace Css

inductive MediaQualifier where
  | negated
  | only
  deriving DecidableEq, Repr

/-- A test of one feature: by its value, by its presence, or by a comparison kept as written. -/
inductive MediaFeature where
  | plain (name : Text) (value : TokenRun)
  | boolean (name : Text)
  | range (run : TokenRun)
  deriving DecidableEq

inductive MediaCondition where
  | feature (feature : MediaFeature)
  | negation (condition : MediaCondition)
  | conjunction (conditions : List MediaCondition)
  | disjunction (conditions : List MediaCondition)

structure MediaQuery where
  qualifier : Option MediaQualifier
  mediaType : Option Text
  condition : Option MediaCondition

abbrev MediaList := List MediaQuery

namespace MediaCondition

mutual

def same : MediaCondition → MediaCondition → Bool
  | feature f, feature f' => f == f'
  | negation condition, negation condition' => same condition condition'
  | conjunction conditions, conjunction conditions' => sameAll conditions conditions'
  | disjunction conditions, disjunction conditions' => sameAll conditions conditions'
  | _, _ => false

def sameAll : List MediaCondition → List MediaCondition → Bool
  | [], [] => true
  | condition :: conditions, condition' :: conditions' =>
    same condition condition' && sameAll conditions conditions'
  | _, _ => false

end

end MediaCondition

def MediaQuery.same (query query' : MediaQuery) : Bool :=
  query.qualifier == query'.qualifier && query.mediaType == query'.mediaType &&
    match query.condition, query'.condition with
    | none, none => true
    | some condition, some condition' => condition.same condition'
    | _, _ => false

def MediaList.same : MediaList → MediaList → Bool
  | [], [] => true
  | query :: queries, query' :: queries' => query.same query' && MediaList.same queries queries'
  | _, _ => false

end Css
