import Css.Media

/-!
# Reading media queries

A media query is read from its lexemes; trivia between them do not matter. A list with one query
that cannot be read is no media list.
-/

namespace Css

/-! ### Features -/

def Token.isComparison : Token → Bool
  | .delim c => c == '<' || c == '>' || c == '='
  | _ => false

def MediaFeature.cutName? (inner : List Lexeme) : Option (Text × List Lexeme) :=
  match Lexeme.next? inner with
  | some (.ident name, rest) =>
    match Lexeme.next? rest with
    | some (.colon, rest) => some (name, rest)
    | _ => none
  | _ => none

def MediaFeature.parse? (inner : List Lexeme) : Option MediaFeature :=
  match Lexeme.tokens (Lexeme.trim inner), cutName? inner with
  | [], _ => none
  | [.ident name], _ => some (boolean name)
  | _, some (name, value) =>
    if Lexeme.isVoid value then none else some (plain name (TokenRun.ofLexemes value))
  | tokens, none =>
    if tokens.any Token.isComparison then some (range (TokenRun.ofLexemes inner)) else none

/-! ### Conditions -/

namespace MediaCondition

inductive Junction where
  | conjunction
  | disjunction
  deriving DecidableEq, Repr

def Junction.join : Junction → List MediaCondition → MediaCondition
  | conjunction, conditions => .conjunction conditions
  | disjunction, conditions => .disjunction conditions

/-- The junction word in front and what follows it; `or` only where it is allowed. -/
def cutJunction? (allowOr : Bool) (lexemes : List Lexeme) : Option (Junction × List Lexeme) :=
  match Lexeme.next? lexemes with
  | none => none
  | some (token, rest) =>
    if token.isIdent "and" then some (.conjunction, rest)
    else if allowOr && token.isIdent "or" then some (.disjunction, rest)
    else none

theorem length_of_cutJunction? {allowOr : Bool} {lexemes rest : List Lexeme} {junction : Junction}
    (h : cutJunction? allowOr lexemes = some (junction, rest)) :
    rest.length < lexemes.length := by
  unfold cutJunction? at h
  split at h
  · simp at h
  · rename_i token rest' hrest
    have := Lexeme.length_of_next? hrest
    split at h <;> try split at h
    all_goals simp only [Option.some.injEq, Prod.mk.injEq, reduceCtorEq] at h
    all_goals
      obtain ⟨-, rfl⟩ := h
      exact this

def cutBrackets? (lexemes : List Lexeme) : Option Lexeme.Block :=
  match Lexeme.next? lexemes with
  | some (.opening .round, rest) => Lexeme.cutBlock? rest
  | _ => none

theorem length_of_cutBrackets? {lexemes : List Lexeme} {block : Lexeme.Block}
    (h : cutBrackets? lexemes = some block) :
    block.inner.length + block.rest.length + 2 ≤ lexemes.length := by
  unfold cutBrackets? at h
  split at h
  · rename_i rest hrest
    have := Lexeme.length_of_next? hrest
    have := Lexeme.length_of_cutBlock? h
    omega
  · simp at h

def cutNot? (lexemes : List Lexeme) : Option (List Lexeme) :=
  match Lexeme.next? lexemes with
  | none => none
  | some (token, rest) => if token.isIdent "not" then some rest else none

theorem length_of_cutNot? {lexemes rest : List Lexeme} (h : cutNot? lexemes = some rest) :
    rest.length < lexemes.length := by
  unfold cutNot? at h
  split at h
  · simp at h
  · rename_i token rest' hrest
    split at h
    · obtain rfl := Option.some.inj h
      exact Lexeme.length_of_next? hrest
    · simp at h

def startsCondition (lexemes : List Lexeme) : Bool :=
  match Lexeme.next? lexemes with
  | none => false
  | some (token, _) => token.isIdent "not" || token == .opening .round

mutual

/-- A condition and the lexemes after it. Junctions of both kinds do not stand side by side. -/
def parse? (allowOr : Bool) (lexemes : List Lexeme) : Option (MediaCondition × List Lexeme) :=
  match hnot : cutNot? lexemes with
  | some lexemes' =>
    match h : cutBrackets? lexemes' with
    | none => none
    | some block =>
      have := length_of_cutNot? hnot
      have := length_of_cutBrackets? h
      (parseNested? block.inner).map fun condition => (negation condition, block.rest)
  | none =>
    match h : cutBrackets? lexemes with
    | none => none
    | some block =>
      have := length_of_cutBrackets? h
      do
        let first ← parseNested? block.inner
        match cutJunction? allowOr block.rest with
        | none => return (first, block.rest)
        | some (junction, _) =>
          let (more, rest) ← parseMore? allowOr junction block.rest
          return (junction.join (first :: more), rest)
termination_by 2 * lexemes.length

/-- What the brackets of a condition hold: a condition or a feature. -/
def parseNested? (inner : List Lexeme) : Option MediaCondition :=
  if startsCondition inner then do
    let (condition, rest) ← parse? true inner
    if Lexeme.isVoid rest then return condition else none
  else (MediaFeature.parse? inner).map feature
termination_by 2 * inner.length + 1

/-- The conditions that follow a first one, each behind a junction word of the same kind. -/
def parseMore? (allowOr : Bool) (junction : Junction) (lexemes : List Lexeme) :
    Option (List MediaCondition × List Lexeme) :=
  match h : cutJunction? allowOr lexemes with
  | none => some ([], lexemes)
  | some (junction', rest) =>
    if junction' ≠ junction then none
    else match h' : cutBrackets? rest with
      | none => none
      | some block =>
        have := length_of_cutJunction? h
        have := length_of_cutBrackets? h'
        do
          let condition ← parseNested? block.inner
          let (more, rest) ← parseMore? allowOr junction block.rest
          return (condition :: more, rest)
termination_by 2 * lexemes.length

end

end MediaCondition

/-! ### Queries -/

namespace MediaQuery

def cutQualifier (lexemes : List Lexeme) : Option MediaQualifier × List Lexeme :=
  match Lexeme.next? lexemes with
  | some (.ident word, rest) =>
    match Lexeme.next? rest with
    | some (.ident _, _) =>
      if word.isKeyword "not" then (some .negated, rest)
      else if word.isKeyword "only" then (some .only, rest)
      else (none, lexemes)
    | _ => (none, lexemes)
  | _ => (none, lexemes)

/-- The media type in front and what follows it; `not` is none. -/
def cutType? (lexemes : List Lexeme) : Option (Text × List Lexeme) :=
  match Lexeme.next? lexemes with
  | some (.ident name, rest) => if name.isKeyword "not" then none else some (name, rest)
  | _ => none

def cut? (lexemes : List Lexeme) : Option (MediaQuery × List Lexeme) :=
  let (qualifier, lexemes) := cutQualifier lexemes
  match cutType? lexemes with
  | some (mediaType, rest) =>
    match MediaCondition.cutJunction? false rest with
    | none => some (⟨qualifier, some mediaType, none⟩, rest)
    | some (_, rest) => (MediaCondition.parse? false rest).map fun (condition, rest) =>
      (⟨qualifier, some mediaType, some condition⟩, rest)
  | none =>
    if qualifier.isSome then none
    else (MediaCondition.parse? true lexemes).map fun (condition, rest) =>
      (⟨none, none, some condition⟩, rest)

def parse? (lexemes : List Lexeme) : Option MediaQuery := do
  let (query, rest) ← cut? lexemes
  if Lexeme.isVoid rest then return query else none

end MediaQuery

/-- The media query list that some lexemes make; nothing but trivia is the empty list. -/
def MediaList.parse? (lexemes : List Lexeme) : Option MediaList :=
  if Lexeme.isVoid lexemes then some []
  else (Lexeme.splitCommas lexemes).toList.mapM MediaQuery.parse?

end Css
