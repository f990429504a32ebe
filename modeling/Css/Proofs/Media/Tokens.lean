import Css.Media.Parser
import Css.Media.Printer
import Css.Proofs.Token.Run

/-!
# The tokens of a media query list

What is written for a media query list is a run of tokens (`MediaList.toText_eq`): those of its
names and runs, and between them brackets, colons, commas, words and spaces.
-/

namespace Css

namespace TokenRun

def bracketed (run : TokenRun) : TokenRun := .opening .round :: (run ++ [.closing .round])

theorem toText_pretty_bracketed (run : TokenRun) :
    (bracketed run).toText .pretty = '(' :: run.toText .pretty ++ [')'] := by
  rw [bracketed, toText_pretty_cons, toText_pretty_append]
  rfl

end TokenRun

open TokenRun (bracketed)

/-! ### Runs of tokens -/

def MediaFeature.inner : MediaFeature → TokenRun
  | plain name value => .ident name :: .colon :: .whitespace :: value
  | boolean name => [.ident name]
  | range run => run

namespace MediaCondition

def Junction.word : Junction → Text
  | conjunction => "and".toList
  | disjunction => "or".toList

mutual

def inner : MediaCondition → TokenRun
  | feature f => f.inner
  | negation condition => .ident "not".toList :: .whitespace :: bracketed (inner condition)
  | conjunction conditions => joined .conjunction conditions
  | disjunction conditions => joined .disjunction conditions

def joined (junction : Junction) : List MediaCondition → TokenRun
  | [] => []
  | condition :: conditions => bracketed (inner condition) ++ joinedMore junction conditions

def joinedMore (junction : Junction) : List MediaCondition → TokenRun
  | [] => []
  | condition :: conditions =>
    .whitespace :: .ident junction.word :: .whitespace ::
      (bracketed (inner condition) ++ joinedMore junction conditions)

end

def tokens : MediaCondition → TokenRun
  | feature f => bracketed f.inner
  | condition => inner condition

end MediaCondition

def MediaQualifier.word : MediaQualifier → Text
  | negated => "not".toList
  | only => "only".toList

namespace MediaQuery

def qualifierTokens : Option MediaQualifier → TokenRun
  | some qualifier => [.ident qualifier.word, .whitespace]
  | none => []

def andTokens : Option MediaCondition → TokenRun
  | some condition => .whitespace :: .ident "and".toList :: .whitespace :: condition.tokens
  | none => []

def body (query : MediaQuery) : TokenRun :=
  match query.mediaType with
  | some mediaType => .ident mediaType :: andTokens query.condition
  | none => (query.condition.map MediaCondition.tokens).getD []

def tokens (query : MediaQuery) : TokenRun := qualifierTokens query.qualifier ++ query.body

end MediaQuery

def MediaList.tokens : MediaList → TokenRun
  | [] => []
  | [query] => query.tokens
  | query :: next :: queries => query.tokens ++ (.comma :: .whitespace :: tokens (next :: queries))

/-! ### The text of the tokens -/

theorem MediaFeature.toText_eq (feature : MediaFeature) :
    feature.toText .pretty = (bracketed feature.inner).toText .pretty := by
  rw [TokenRun.toText_pretty_bracketed]
  cases feature with
  | plain name value =>
    rw [inner, TokenRun.toText_pretty_cons, TokenRun.toText_pretty_cons,
      TokenRun.toText_pretty_cons]
    simp [MediaFeature.toText, Token.toText, Style.delim, Style.space, Style.pretty]
  | boolean name =>
    simp [MediaFeature.toText, inner, TokenRun.toText, Token.toText, Style.pretty]
  | range run => rfl

namespace MediaCondition

theorem word_conjunction :
    " and ".toList = ' ' :: (Junction.word .conjunction ++ [' ']) := by decide

theorem word_disjunction :
    " or ".toList = ' ' :: (Junction.word .disjunction ++ [' ']) := by decide

/-- The text of the tokens behind the word `not`. -/
theorem toText_not (run : TokenRun) :
    TokenRun.toText .pretty (.ident "not".toList :: .whitespace :: run) =
      "not ".toList ++ run.toText .pretty := by
  rw [TokenRun.toText_pretty_cons, TokenRun.toText_pretty_cons, ← List.append_assoc]
  exact congrArg (· ++ run.toText .pretty) (by decide)

mutual

theorem nestedText_eq : (condition : MediaCondition) →
    nestedText .pretty condition = (bracketed condition.inner).toText .pretty
  | feature f => f.toText_eq
  | negation condition => by
    rw [nestedText, nestedText_eq condition, TokenRun.toText_pretty_bracketed (negation _).inner,
      inner, toText_not]
    rfl
  | conjunction conditions => by
    rw [nestedText, word_conjunction, joinText_eq .conjunction conditions,
      TokenRun.toText_pretty_bracketed, inner]
  | disjunction conditions => by
    rw [nestedText, word_disjunction, joinText_eq .disjunction conditions,
      TokenRun.toText_pretty_bracketed, inner]

theorem joinText_eq (junction : Junction) : (conditions : List MediaCondition) →
    joinText .pretty (' ' :: (junction.word ++ [' '])) conditions =
      (joined junction conditions).toText .pretty
  | [] => by
    rw [joinText, joined]
    rfl
  | [condition] => by
    rw [joinText, joined, joinedMore, nestedText_eq condition, List.append_nil]
  | condition :: next :: conditions => by
    have hrest := joinText_eq junction (next :: conditions)
    rw [joined] at hrest
    rw [joinText, joined, joinedMore, nestedText_eq condition, hrest,
      TokenRun.toText_pretty_append (bracketed condition.inner)]
    simp [TokenRun.toText_pretty_cons, Token.toText]

end

theorem toText_eq (condition : MediaCondition) :
    condition.toText .pretty = condition.tokens.toText .pretty := by
  cases condition with
  | feature f => exact f.toText_eq
  | negation condition =>
    show _ = TokenRun.toText .pretty (negation condition).inner
    rw [toText, nestedText_eq, inner, toText_not]
  | conjunction conditions =>
    show _ = TokenRun.toText .pretty (conjunction conditions).inner
    rw [toText, word_conjunction, joinText_eq .conjunction conditions, inner]
  | disjunction conditions =>
    show _ = TokenRun.toText .pretty (disjunction conditions).inner
    rw [toText, word_disjunction, joinText_eq .disjunction conditions, inner]

end MediaCondition

theorem MediaQuery.toText_eq (query : MediaQuery) :
    query.toText .pretty = query.tokens.toText .pretty := by
  obtain ⟨qualifier, mediaType, condition⟩ := query
  have hqualifier : (qualifierTokens qualifier).toText .pretty =
      (qualifier.map MediaQualifier.toText).getD [] := by
    rcases qualifier with _ | _ | _ <;> decide
  rw [tokens, TokenRun.toText_pretty_append, hqualifier, MediaQuery.toText]
  congr 1
  cases mediaType with
  | none =>
    cases condition with
    | none => rfl
    | some condition => exact condition.toText_eq
  | some mediaType =>
    cases condition with
    | none => exact (List.append_nil mediaType).symm
    | some condition =>
      have hword : " and ".toList = [' '] ++ ("and".toList ++ [' ']) := by decide
      simp only [body, andTokens, TokenRun.toText_pretty_cons, condition.toText_eq, hword,
        List.append_assoc]
      rfl

theorem MediaList.toText_eq (list : MediaList) :
    list.toText .pretty = list.tokens.toText .pretty := by
  induction list using MediaList.tokens.induct with
  | case1 => rfl
  | case2 query =>
    rw [tokens, ← query.toText_eq]
    exact List.append_nil _
  | case3 query next queries ih =>
    rw [tokens, TokenRun.toText_pretty_append, TokenRun.toText_pretty_cons,
      TokenRun.toText_pretty_cons, ← ih, ← query.toText_eq]
    simp [MediaList.toText, Style.separated, Style.delim, Style.space, Token.toText, Style.pretty]

end Css
