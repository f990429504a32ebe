import Css.Selector

/-!
# Reading selectors

A selector is read component by component. Between compounds stands a combinator, or trivia for the
descendant one; where reading is between the two, `Place` says.
-/

namespace Css

inductive SelectorError where
  | missingBlock
  | unbalanced
  | empty
  | leadingCombinator
  | trailingCombinator
  | consecutiveCombinators
  | misplacedType
  | misplacedUniversal
  | missingClassName
  | invalidId
  | unclosedAttribute
  | missingAttributeName
  | invalidAttributeOperator
  | missingAttributeValue
  | excessInAttribute
  | unclosedFunction
  | missingPseudoName
  | unexpectedClosing
  | unexpectedToken
  deriving DecidableEq, Repr

def SelectorError.message : SelectorError → String
  | missingBlock => "expected '\x7b' after selector"
  | unbalanced => "unbalanced brackets in selector"
  | empty => "empty selector"
  | leadingCombinator => "selector starts with a combinator"
  | trailingCombinator => "selector ends with a combinator"
  | consecutiveCombinators => "consecutive combinators"
  | misplacedType => "type selector must come first in a compound selector"
  | misplacedUniversal => "universal selector must come first in a compound selector"
  | missingClassName => "expected class name after '.'"
  | invalidId => "invalid id selector"
  | unclosedAttribute => "unclosed attribute selector"
  | missingAttributeName => "expected attribute name"
  | invalidAttributeOperator => "invalid attribute operator"
  | missingAttributeValue => "expected attribute value"
  | excessInAttribute => "unexpected token in attribute selector"
  | unclosedFunction => "unclosed pseudo-class function"
  | missingPseudoName => "expected pseudo-class name after ':'"
  | unexpectedClosing => "unexpected closing bracket"
  | unexpectedToken => "unexpected token in selector"

/-! ### Attributes -/

namespace AttributeSelector

def parseOperator : List Token → Except SelectorError (AttributeOperator × List Token)
  | .delim '=' :: tokens => .ok (.equals, tokens)
  | .delim c :: .delim '=' :: tokens =>
    match AttributeOperator.ofChar? c with
    | some operator => .ok (operator, tokens)
    | none => .error .invalidAttributeOperator
  | _ => .error .invalidAttributeOperator

def parseValue : List Token → Except SelectorError (AttributeValue × List Token)
  | .ident name :: tokens => .ok (.ident name, tokens)
  | .string content quote :: tokens => .ok (.string content quote, tokens)
  | _ => .error .missingAttributeValue

def parseFlag : List Token → Except SelectorError (Option CaseFlag)
  | [] => .ok none
  | [token] =>
    if token.isIdent "i" then .ok (some .insensitive)
    else if token.isIdent "s" then .ok (some .sensitive)
    else .error .excessInAttribute
  | _ => .error .excessInAttribute

/-- What stands between square brackets; trivia in it do not matter. -/
def parse (inner : List Lexeme) : Except SelectorError AttributeSelector :=
  match (Lexeme.tokens inner).filter fun token => !token.isTrivia with
  | [.ident name] => .ok ⟨name, none⟩
  | .ident name :: tokens => do
    let (operator, tokens) ← parseOperator tokens
    let (value, tokens) ← parseValue tokens
    return ⟨name, some ⟨operator, value, ← parseFlag tokens⟩⟩
  | _ => .error .missingAttributeName

end AttributeSelector

/-! ### Simple selectors -/

/-- A simple selector, or a function whose argument is a selector list still to be read. -/
inductive SimpleSelector where
  | component (component : Component)
  | selectorFunction (name : Text) (inner : List Lexeme)

namespace SimpleSelector

def takesSelectors (name : Text) : Bool :=
  name.isOneOf
    ["not", "is", "where", "has", "matches", "host", "host-context", "-webkit-any", "-moz-any"]

/-- A pseudo-class or, after a second colon, a pseudo-element, from what follows the colon; and
the lexemes after it. -/
def cutPseudo (isElement : Bool) :
    List Lexeme → Except SelectorError (SimpleSelector × List Lexeme)
  | [] => .error .missingPseudoName
  | lexeme :: lexemes =>
    match lexeme.token with
    | .ident name =>
      .ok (.component (if isElement then .pseudoElement name else .pseudoClass name), lexemes)
    | .function name =>
      match Lexeme.cutBlock? lexemes with
      | none => .error .unclosedFunction
      | some block =>
        if isElement then
          .ok (.component (.elementFunction name (TokenRun.ofLexemes block.inner)), block.rest)
        else if takesSelectors name then .ok (.selectorFunction name block.inner, block.rest)
        else .ok (.component (.tokenFunction name (TokenRun.ofLexemes block.inner)), block.rest)
    | _ => .error .missingPseudoName

/-- The simple selector that starts with a lexeme, and the lexemes after it; `isFirst` holds at the
start of a compound. -/
def cut (isFirst : Bool) (lexeme : Lexeme) (lexemes : List Lexeme) :
    Except SelectorError (SimpleSelector × List Lexeme) :=
  match lexeme.token with
  | .ident name =>
    if isFirst then .ok (.component (.typeName name), lexemes) else .error .misplacedType
  | .delim '*' =>
    if isFirst then .ok (.component .universal, lexemes) else .error .misplacedUniversal
  | .delim '&' => .ok (.component .nesting, lexemes)
  | .delim '.' =>
    match lexemes with
    | next :: lexemes =>
      match next.token with
      | .ident name => .ok (.component (.className name), lexemes)
      | _ => .error .missingClassName
    | [] => .error .missingClassName
  | .hash name true => .ok (.component (.id name), lexemes)
  | .hash _ false => .error .invalidId
  | .opening .square =>
    match Lexeme.cutBlock? lexemes with
    | none => .error .unclosedAttribute
    | some block => do
      return (.component (.attribute (← AttributeSelector.parse block.inner)), block.rest)
  | .colon =>
    match lexemes with
    | next :: rest => if next.token = .colon then cutPseudo true rest else cutPseudo false lexemes
    | [] => .error .missingPseudoName
  | .percentage numeric => .ok (.component (.percentage numeric.value), lexemes)
  | .closing _ => .error .unexpectedClosing
  | _ => .error .unexpectedToken

def pendingLength : SimpleSelector → Nat
  | component _ => 0
  | selectorFunction _ inner => inner.length + 1

theorem length_of_cutPseudo {isElement : Bool} {lexemes rest : List Lexeme}
    {simple : SimpleSelector} (h : cutPseudo isElement lexemes = .ok (simple, rest)) :
    simple.pendingLength + rest.length < lexemes.length := by
  unfold cutPseudo at h
  split at h
  · simp at h
  · split at h
    · simp only [Except.ok.injEq, Prod.mk.injEq] at h
      obtain ⟨rfl, rfl⟩ := h
      simp [pendingLength]
    · split at h
      · simp at h
      · rename_i block hblock
        have hlength := Lexeme.length_of_cutBlock? hblock
        split at h <;> try split at h
        all_goals
          simp only [Except.ok.injEq, Prod.mk.injEq] at h
          obtain ⟨rfl, rfl⟩ := h
          simp only [pendingLength, List.length_cons]
          omega
    · simp at h

theorem length_of_cut {isFirst : Bool} {lexeme : Lexeme} {lexemes rest : List Lexeme}
    {simple : SimpleSelector} (h : cut isFirst lexeme lexemes = .ok (simple, rest)) :
    simple.pendingLength + rest.length ≤ lexemes.length := by
  unfold cut at h
  split at h
  · split at h
    · simp only [Except.ok.injEq, Prod.mk.injEq] at h
      obtain ⟨rfl, rfl⟩ := h
      simp [pendingLength]
    · simp at h
  · split at h
    · simp only [Except.ok.injEq, Prod.mk.injEq] at h
      obtain ⟨rfl, rfl⟩ := h
      simp [pendingLength]
    · simp at h
  · simp only [Except.ok.injEq, Prod.mk.injEq] at h
    obtain ⟨rfl, rfl⟩ := h
    simp [pendingLength]
  · split at h
    · split at h
      · simp only [Except.ok.injEq, Prod.mk.injEq] at h
        obtain ⟨rfl, rfl⟩ := h
        simp [pendingLength]
      · simp at h
    · simp at h
  · simp only [Except.ok.injEq, Prod.mk.injEq] at h
    obtain ⟨rfl, rfl⟩ := h
    simp [pendingLength]
  · simp at h
  · split at h
    · simp at h
    · rename_i block hblock
      have hlength := Lexeme.length_of_cutBlock? hblock
      cases hparse : AttributeSelector.parse block.inner with
      | error error => simp [hparse, bind, Except.bind] at h
      | ok selector =>
        simp only [hparse, bind, Except.bind, pure, Except.pure, Except.ok.injEq,
          Prod.mk.injEq] at h
        obtain ⟨rfl, rfl⟩ := h
        simp only [pendingLength]
        omega
  · split at h
    · split at h
      · have := length_of_cutPseudo h
        simp only [List.length_cons]
        omega
      · exact Nat.le_of_lt (length_of_cutPseudo h)
    · simp at h
  · simp only [Except.ok.injEq, Prod.mk.injEq] at h
    obtain ⟨rfl, rfl⟩ := h
    simp [pendingLength]
  · simp at h
  · simp at h

end SimpleSelector

/-! ### Selectors -/

namespace Selector

/-- Where reading is in a selector: at its start, behind a combinator, right behind a compound, or
behind trivia after one. -/
inductive Place where
  | start
  | pending (combinator : Combinator)
  | compound
  | gap
  deriving DecidableEq, Repr

namespace Place

def afterTrivia : Place → Place
  | compound => gap
  | place => place

/-- The place behind a combinator. Only a relative selector starts with one. -/
def afterCombinator (relative : Bool) (combinator : Combinator) : Place → Except SelectorError Place
  | start => if relative then .ok (pending combinator) else .error .leadingCombinator
  | pending _ => .error .consecutiveCombinators
  | compound => .ok (pending combinator)
  | gap => .ok (pending combinator)

def combinator? : Place → Option Combinator
  | pending combinator => some combinator
  | gap => some .descendant
  | _ => none

def error? : Place → Option SelectorError
  | start => some .empty
  | pending _ => some .trailingCombinator
  | _ => none

end Place

mutual

def parseFrom (relative : Bool) (place : Place) : List Lexeme → Except SelectorError Selector
  | [] =>
    match place.error? with
    | some error => .error error
    | none => .ok []
  | lexeme :: lexemes =>
    if lexeme.isTrivia then parseFrom relative place.afterTrivia lexemes
    else match Combinator.ofToken? lexeme.token with
      | some combinator =>
        match place.afterCombinator relative combinator with
        | .error error => .error error
        | .ok place => parseFrom relative place lexemes
      | none =>
        match h : SimpleSelector.cut (place != .compound) lexeme lexemes with
        | .error error => .error error
        | .ok (.component component, rest) =>
          have := SimpleSelector.length_of_cut h
          do
            let components ← parseFrom relative .compound rest
            return (place.combinator?.map Component.combinator).toList ++ component :: components
        | .ok (.selectorFunction name inner, rest) =>
          have := SimpleSelector.length_of_cut h
          do
            let selectors ← parseGroups (name.isKeyword "has") (Lexeme.splitCommas inner).toList
            let components ← parseFrom relative .compound rest
            return (place.combinator?.map Component.combinator).toList ++
              .selectorFunction name selectors :: components
termination_by lexemes => 2 * lexemes.length
decreasing_by
  all_goals
    try rw [Lexeme.totalLength_splitCommas]
    try simp only [SimpleSelector.pendingLength] at this
    simp only [List.length_cons]
    omega

def parseGroups (relative : Bool) : List (List Lexeme) → Except SelectorError SelectorList
  | [] => .ok []
  | group :: groups => do
    return (← parseFrom relative .start group) :: (← parseGroups relative groups)
termination_by groups => 2 * Lexeme.totalLength groups
decreasing_by all_goals (simp only [Lexeme.totalLength]; omega)

end

end Selector

/-- The selector list that some lexemes make; trivia around its selectors do not matter. -/
def SelectorList.parse (lexemes : List Lexeme) : Except SelectorError SelectorList :=
  Selector.parseGroups false (Lexeme.splitCommas lexemes).toList

end Css
