import Css.Proofs.Media.Printing

/-!
# Reading what was written for a media query

A query is read back if its condition is, its media type is a name that no qualifier takes up, and
its condition is no disjunction behind a media type (`MediaQuery.Survives`). Commas in a list of
such queries stand between them only, so the list is read back too (`MediaList.parse?_tokens`).
-/

namespace Css

open Lexeme
open TokenRun (bracketed)

variable {lineComments : Bool}

namespace MediaQuery

structure Survives (lineComments : Bool) (query : MediaQuery) : Prop where
  /-- Without a media type there is a condition, and nothing in front of it. -/
  bare : query.mediaType = none → query.qualifier = none ∧ query.condition.isSome = true
  word : ∀ name ∈ query.mediaType, name.IsWord lineComments ∧ name.isKeyword "not" = false
  only : ∀ name ∈ query.mediaType, query.qualifier = none → query.condition.isSome = true →
    name.isKeyword "only" = false
  condition : ∀ condition ∈ query.condition, condition.Survives lineComments
  noDisjunction : query.mediaType.isSome = true →
    ∀ conditions, query.condition ≠ some (.disjunction conditions)

/-! ### Trivia in front -/

theorem cutQualifier_of_isTrivia {lexeme : Lexeme} (h : lexeme.isTrivia = true)
    (lexemes : List Lexeme) :
    cutQualifier (lexeme :: lexemes) = cutQualifier lexemes ∨
      cutQualifier (lexeme :: lexemes) = (none, lexeme :: lexemes) ∧
        cutQualifier lexemes = (none, lexemes) := by
  unfold cutQualifier
  rw [next?_of_isTrivia h]
  split
  · split
    · split
      · exact .inl rfl
      · split
        · exact .inl rfl
        · exact .inr ⟨rfl, rfl⟩
    · exact .inr ⟨rfl, rfl⟩
  · exact .inr ⟨rfl, rfl⟩

theorem parse?_of_isTrivia {lexeme : Lexeme} (h : lexeme.isTrivia = true)
    (lexemes : List Lexeme) : parse? (lexeme :: lexemes) = parse? lexemes := by
  have htype : cutType? (lexeme :: lexemes) = cutType? lexemes := by
    rw [cutType?, next?_of_isTrivia h, cutType?]
  have hcut : cut? (lexeme :: lexemes) = cut? lexemes := by
    unfold cut?
    obtain heq | ⟨hfront, heq⟩ := cutQualifier_of_isTrivia h lexemes
    · rw [heq]
    · rw [hfront, heq]
      simp only [htype, MediaCondition.parse?_of_isTrivia h]
  rw [parse?, hcut, parse?]

theorem parse?_append_of_isTrivia {front : List Lexeme}
    (h : ∀ lexeme ∈ front, lexeme.isTrivia = true) (lexemes : List Lexeme) :
    parse? (front ++ lexemes) = parse? lexemes := by
  induction front with
  | nil => rfl
  | cons lexeme front ih =>
    obtain ⟨hlexeme, hfront⟩ := List.forall_mem_cons.1 h
    rw [List.cons_append, parse?_of_isTrivia hlexeme, ih hfront]

/-! ### Reading a query back -/

theorem next?_ident (name : Text) (run : TokenRun) :
    next? (TokenRun.toLexemes (.ident name :: run)) = some (.ident name, run.toLexemes) :=
  next?_of_not_isTrivia rfl _

theorem next?_space (run : TokenRun) :
    next? (TokenRun.toLexemes (.whitespace :: run)) = next? run.toLexemes :=
  next?_of_isTrivia rfl _

theorem cutType?_ident {name : Text} (hname : name.isKeyword "not" = false) (run : TokenRun) :
    cutType? (TokenRun.toLexemes (.ident name :: run)) = some (name, run.toLexemes) := by
  rw [cutType?, next?_ident]
  simp only [hname, Bool.false_eq_true, if_false]

theorem cutQualifier_qualifier (qualifier : MediaQualifier) (name : Text) (run : TokenRun) :
    cutQualifier (TokenRun.toLexemes (.ident qualifier.word :: .whitespace :: .ident name :: run)) =
      (some qualifier, TokenRun.toLexemes (.whitespace :: .ident name :: run)) := by
  simp only [cutQualifier, next?_ident, next?_space]
  cases qualifier <;> rfl

/-- A media type with a condition behind it is no qualifier. -/
theorem cutQualifier_andTokens {name : Text} (hnot : name.isKeyword "not" = false)
    (condition : Option MediaCondition)
    (honly : condition.isSome = true → name.isKeyword "only" = false) :
    cutQualifier (TokenRun.toLexemes (.ident name :: andTokens condition)) =
      (none, TokenRun.toLexemes (.ident name :: andTokens condition)) := by
  rw [cutQualifier, next?_ident]
  cases condition with
  | none => rfl
  | some condition =>
    simp only [andTokens, next?_space, next?_ident, hnot, honly rfl, Bool.false_eq_true, if_false]

/-- A media type is read with the condition behind it. -/
theorem cut?_of_cutQualifier {qualifier : Option MediaQualifier} {name : Text}
    {condition : Option MediaCondition} {lexemes behind : List Lexeme}
    (h : Survives lineComments ⟨qualifier, some name, condition⟩)
    (hcut : cutQualifier lexemes = (qualifier, behind))
    (htype : cutType? behind = some (name, (andTokens condition).toLexemes)) :
    cut? lexemes = some (⟨qualifier, some name, condition⟩, []) := by
  unfold cut?
  rw [hcut]
  simp only [htype]
  cases condition with
  | none => rfl
  | some condition =>
    have hjunction : MediaCondition.cutJunction? false (andTokens (some condition)).toLexemes =
        some (.conjunction, TokenRun.toLexemes (.whitespace :: condition.tokens)) := by
      rw [andTokens, MediaCondition.cutJunction?, next?_space, next?_ident]
      rfl
    have hor : ∀ conditions, condition ≠ .disjunction conditions := by
      rintro conditions rfl
      exact h.noDisjunction rfl conditions rfl
    have hread : MediaCondition.parse? false
        (TokenRun.toLexemes (.whitespace :: condition.tokens)) = some (condition, []) := by
      rw [TokenRun.toLexemes_cons, MediaCondition.parse?_of_isTrivia rfl]
      exact MediaCondition.parse?_tokens (h.condition condition rfl) (.inr hor)
    rw [hjunction]
    simp only [hread]
    rfl

theorem cut?_tokens {query : MediaQuery} (h : query.Survives lineComments) :
    cut? query.tokens.toLexemes = some (query, []) := by
  obtain ⟨qualifier, mediaType, condition⟩ := query
  cases mediaType with
  | some name =>
    obtain ⟨-, hnot⟩ := h.word name rfl
    cases qualifier with
    | some qualifier =>
      refine cut?_of_cutQualifier h (cutQualifier_qualifier qualifier name _) ?_
      rw [cutType?, next?_space, ← cutType?]
      exact cutType?_ident hnot _
    | none =>
      exact cut?_of_cutQualifier h (cutQualifier_andTokens hnot condition (h.only name rfl rfl))
        (cutType?_ident hnot _)
  | none =>
    obtain ⟨rfl, hsome⟩ := h.bare rfl
    obtain ⟨condition, rfl⟩ := Option.isSome_iff_exists.1 hsome
    have hread := MediaCondition.parse?_tokens (h.condition condition rfl) (.inl rfl)
    have hcut : cutQualifier condition.tokens.toLexemes = (none, condition.tokens.toLexemes) ∧
        cutType? condition.tokens.toLexemes = none := by
      obtain ⟨run, hrun⟩ | ⟨run, hrun⟩ := MediaCondition.exists_tokens (h.condition condition rfl)
      · rw [hrun]
        exact ⟨rfl, rfl⟩
      · rw [hrun, cutQualifier, cutType?, next?_ident]
        exact ⟨rfl, rfl⟩
    show cut? condition.tokens.toLexemes = _
    unfold cut?
    rw [hcut.1]
    simp only [hcut.2, hread]
    rfl

theorem parse?_tokens {query : MediaQuery} (h : query.Survives lineComments) :
    parse? query.tokens.toLexemes = some query := by
  rw [parse?, cut?_tokens h]
  rfl

/-! ### What stands in a query -/

theorem stands_andTokens {condition : Option MediaCondition}
    (h : ∀ read ∈ condition, read.Survives lineComments) :
    (andTokens condition).Stands lineComments := by
  cases condition with
  | none => exact .nil
  | some condition =>
    have hcondition := MediaCondition.stands_tokens (h condition rfl)
    have hspace : TokenRun.Stands lineComments (.whitespace :: condition.tokens) := by
      obtain ⟨run, hrun⟩ | ⟨run, hrun⟩ := MediaCondition.exists_tokens (h condition rfl)
      · rw [hrun] at hcondition ⊢
        exact hcondition.space rfl rfl
      · rw [hrun] at hcondition ⊢
        exact hcondition.space rfl rfl
    have hword := hspace.word (MediaCondition.isWord_junction .conjunction) (separates_cons rfl _)
    exact hword.space rfl rfl

theorem separates_andTokens (condition : Option MediaCondition) :
    Separates ((andTokens condition).toText .pretty) := by
  cases condition with
  | none =>
    intro c hc
    contradiction
  | some condition => exact separates_cons rfl _

/-- A query starts with a word or a bracket. -/
theorem exists_head {query : MediaQuery} (h : query.Survives lineComments) :
    ∃ token, query.tokens.head? = some token ∧ token.isTrivia = false := by
  obtain ⟨qualifier, mediaType, condition⟩ := query
  cases qualifier with
  | some qualifier => exact ⟨_, rfl, rfl⟩
  | none =>
    cases mediaType with
    | some name => exact ⟨_, rfl, rfl⟩
    | none =>
      obtain ⟨condition, rfl⟩ := Option.isSome_iff_exists.1 (h.bare rfl).2
      obtain ⟨run, hrun⟩ | ⟨run, hrun⟩ := MediaCondition.exists_tokens (h.condition condition rfl)
      · exact ⟨.opening .round, congrArg List.head? hrun, rfl⟩
      · exact ⟨.ident "not".toList, congrArg List.head? hrun, rfl⟩

theorem stands_tokens {query : MediaQuery} (h : query.Survives lineComments) :
    query.tokens.Stands lineComments := by
  obtain ⟨qualifier, mediaType, condition⟩ := query
  cases mediaType with
  | some name =>
    have htype : TokenRun.Stands lineComments (.ident name :: andTokens condition) :=
      (stands_andTokens h.condition).word (h.word name rfl).1 (separates_andTokens condition)
    cases qualifier with
    | none => exact htype
    | some qualifier =>
      have hword : qualifier.word.IsWord lineComments := by
        cases qualifier
        · exact Text.isWord_of_isAlpha (by decide) (by decide)
        · exact Text.isWord_of_isAlpha (by decide) (by decide)
      exact (htype.space rfl rfl).word hword (separates_cons rfl _)
  | none =>
    obtain ⟨rfl, hsome⟩ := h.bare rfl
    obtain ⟨condition, rfl⟩ := Option.isSome_iff_exists.1 hsome
    exact MediaCondition.stands_tokens (h.condition condition rfl)

end MediaQuery

/-! ### Commas -/

theorem passesCommas_bracketed {run : TokenRun} (h : IsClosed run.toLexemes)
    {rest : List Lexeme} (hrest : PassesCommas rest) :
    PassesCommas ((bracketed run).toLexemes ++ rest) := by
  rw [bracketed, TokenRun.toLexemes_cons, TokenRun.toLexemes_append, List.cons_append,
    List.append_assoc]
  exact .brackets rfl rfl h hrest

namespace MediaCondition

theorem passesCommas_joinedMore (junction : Junction) {conditions : List MediaCondition}
    (h : AllSurvive lineComments conditions) :
    PassesCommas (joinedMore junction conditions).toLexemes := by
  induction conditions with
  | nil =>
    rw [joinedMore]
    exact .nil
  | cons condition conditions ih =>
    rw [joinedMore, TokenRun.toLexemes_cons, TokenRun.toLexemes_cons, TokenRun.toLexemes_cons,
      TokenRun.toLexemes_append]
    refine .plain rfl rfl Token.noConfusion (.plain rfl rfl Token.noConfusion
      (.plain rfl rfl Token.noConfusion ?_))
    exact passesCommas_bracketed (stands_inner h.1).closed (ih h.2)

theorem passesCommas_tokens {condition : MediaCondition} (h : condition.Survives lineComments) :
    PassesCommas condition.tokens.toLexemes := by
  have hbracketed : ∀ {run : TokenRun}, IsClosed run.toLexemes →
      PassesCommas (bracketed run).toLexemes := by
    intro run hclosed
    have := passesCommas_bracketed hclosed .nil
    rwa [List.append_nil] at this
  have hjoined : ∀ (junction : Junction) {conditions : List MediaCondition},
      AllSurvive lineComments conditions →
        PassesCommas (joined junction conditions).toLexemes := by
    intro junction conditions hall
    cases conditions with
    | nil =>
      rw [joined]
      exact .nil
    | cons condition conditions =>
      rw [joined, TokenRun.toLexemes_append]
      exact passesCommas_bracketed (stands_inner hall.1).closed
        (passesCommas_joinedMore junction hall.2)
  cases condition with
  | feature f => exact hbracketed h.stands.closed
  | negation condition =>
    have hsurvives : condition.Survives lineComments := h
    show PassesCommas (negation condition).inner.toLexemes
    rw [inner, TokenRun.toLexemes_cons, TokenRun.toLexemes_cons]
    exact .plain rfl rfl Token.noConfusion (.plain rfl rfl Token.noConfusion
      (hbracketed (stands_inner hsurvives).closed))
  | conjunction conditions => exact hjoined .conjunction h.2
  | disjunction conditions => exact hjoined .disjunction h.2

end MediaCondition

theorem MediaQuery.passesCommas_tokens {query : MediaQuery} (h : query.Survives lineComments) :
    PassesCommas query.tokens.toLexemes := by
  obtain ⟨qualifier, mediaType, condition⟩ := query
  have hqualifier : PassesCommas (qualifierTokens qualifier).toLexemes := by
    cases qualifier with
    | none => exact .nil
    | some qualifier =>
      exact .plain rfl rfl Token.noConfusion (.plain rfl rfl Token.noConfusion .nil)
  rw [tokens, TokenRun.toLexemes_append]
  refine hqualifier.append ?_
  cases mediaType with
  | none =>
    cases condition with
    | none => exact .nil
    | some condition => exact MediaCondition.passesCommas_tokens (h.condition condition rfl)
  | some name =>
    refine .plain rfl rfl Token.noConfusion ?_
    cases condition with
    | none => exact .nil
    | some condition =>
      exact .plain rfl rfl Token.noConfusion (.plain rfl rfl Token.noConfusion
        (.plain rfl rfl Token.noConfusion
          (MediaCondition.passesCommas_tokens (h.condition condition rfl))))

/-! ### Lists of queries -/

namespace MediaList

variable {list : MediaList}

theorem exists_head {query : MediaQuery} (h : query.Survives lineComments)
    (queries : MediaList) :
    ∃ token, (tokens (query :: queries)).head? = some token ∧ token.isTrivia = false := by
  obtain ⟨token, hhead, htrivia⟩ := MediaQuery.exists_head h
  refine ⟨token, ?_, htrivia⟩
  cases queries with
  | nil => exact hhead
  | cons next queries => rw [tokens, List.head?_append, hhead, Option.some_or]

theorem stands_tokens (h : ∀ query ∈ list, query.Survives lineComments) :
    list.tokens.Stands lineComments := by
  induction list using MediaList.tokens.induct with
  | case1 => exact .nil
  | case2 query => exact MediaQuery.stands_tokens (h query List.mem_cons_self)
  | case3 query next queries ih =>
    obtain ⟨hquery, hrest⟩ := List.forall_mem_cons.1 h
    have hspace : TokenRun.Stands lineComments (.whitespace :: tokens (next :: queries)) := by
      obtain ⟨token, hhead, htrivia⟩ := exists_head (hrest next List.mem_cons_self) queries
      exact (ih hrest).space hhead htrivia
    exact (MediaQuery.stands_tokens hquery).append hspace.comma (separates_cons rfl _)

/-- The groups of a list are read back as its queries, also behind trivia. -/
theorem mapM_parse?_tokens (hne : list ≠ []) (h : ∀ query ∈ list, query.Survives lineComments)
    {front : List Lexeme} (hfront : ∀ lexeme ∈ front, lexeme.isTrivia = true) :
    (splitCommas (front ++ list.tokens.toLexemes)).toList.mapM MediaQuery.parse? = some list := by
  have hpasses : ∀ {front : List Lexeme}, (∀ lexeme ∈ front, lexeme.isTrivia = true) →
      PassesCommas front := by
    intro front hfront
    induction front with
    | nil => exact .nil
    | cons lexeme front ih =>
      obtain ⟨hlexeme, hrest⟩ := List.forall_mem_cons.1 hfront
      obtain ⟨token, span, raw⟩ := lexeme
      cases token <;> first
        | exact .plain rfl rfl Token.noConfusion (ih hrest)
        | contradiction
  induction list using MediaList.tokens.induct generalizing front with
  | case1 => exact absurd rfl hne
  | case2 query =>
    have hquery := h query List.mem_cons_self
    rw [tokens, ((hpasses hfront).append (MediaQuery.passesCommas_tokens hquery)).splitCommas_eq]
    simp only [Groups.toList, List.mapM_cons, List.mapM_nil,
      MediaQuery.parse?_append_of_isTrivia hfront, MediaQuery.parse?_tokens hquery]
    rfl
  | case3 query next queries ih =>
    obtain ⟨hquery, hrest⟩ := List.forall_mem_cons.1 h
    have hgroup := (hpasses hfront).append (MediaQuery.passesCommas_tokens hquery)
    have htail : (splitCommas (TokenRun.toLexemes
        (.whitespace :: tokens (next :: queries)))).toList.mapM MediaQuery.parse? =
        some (next :: queries) :=
      @ih (List.cons_ne_nil _ _) hrest [⟨.whitespace, .point 0, [' ']⟩]
        (List.forall_mem_singleton.2 rfl)
    rw [tokens, TokenRun.toLexemes_append, TokenRun.toLexemes_cons, ← List.append_assoc,
      hgroup.splitCommas_comma rfl, List.mapM_cons, MediaQuery.parse?_append_of_isTrivia hfront,
      MediaQuery.parse?_tokens hquery, htail]
    rfl

/-- A list of queries is read back from the tokens that are written for it. -/
theorem parse?_tokens (h : ∀ query ∈ list, query.Survives lineComments) :
    MediaList.parse? list.tokens.toLexemes = some list := by
  cases list with
  | nil => rfl
  | cons query queries =>
    have hread := mapM_parse?_tokens (List.cons_ne_nil query queries) h (List.forall_mem_nil _)
    obtain ⟨token, hhead, htrivia⟩ := exists_head (h query List.mem_cons_self) queries
    obtain ⟨run, hrun⟩ := List.head?_eq_some_iff.1 hhead
    have hvoid : isVoid (tokens (query :: queries)).toLexemes = false := by
      rw [hrun, TokenRun.toLexemes_cons, isVoid, List.all_cons]
      exact Bool.and_eq_false_imp.2 fun h => absurd (h.symm.trans htrivia) (by decide)
    rw [MediaList.parse?, hvoid, if_neg Bool.false_ne_true]
    exact hread

end MediaList

end Css
