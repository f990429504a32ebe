import Css.Token.Run

/-!
# Selectors

A selector is a list of components: compounds of simple selectors with combinators between them. A
selector list is what a style rule, and some pseudo-classes, hold.
-/

namespace Css

inductive Combinator where
  | descendant
  | child
  | nextSibling
  | subsequentSibling
  deriving DecidableEq, Repr

/-- The character of a combinator; that of a descendant is a space. -/
def Combinator.toChar : Combinator → Char
  | descendant => ' '
  | child => '>'
  | nextSibling => '+'
  | subsequentSibling => '~'

def Combinator.ofToken? : Token → Option Combinator
  | .delim '>' => some child
  | .delim '+' => some nextSibling
  | .delim '~' => some subsequentSibling
  | _ => none

/-! ### Attributes -/

inductive AttributeOperator where
  | equals
  | includes
  | dashMatch
  | startsWith
  | endsWith
  | contains
  deriving DecidableEq, Repr

namespace AttributeOperator

def toString : AttributeOperator → String
  | equals => "="
  | includes => "~="
  | dashMatch => "|="
  | startsWith => "^="
  | endsWith => "$="
  | contains => "*="

def ofChar? : Char → Option AttributeOperator
  | '~' => some includes
  | '|' => some dashMatch
  | '^' => some startsWith
  | '$' => some endsWith
  | '*' => some contains
  | _ => none

end AttributeOperator

inductive AttributeValue where
  | ident (name : Text)
  | string (content : Text) (quote : Quote)
  deriving DecidableEq

inductive CaseFlag where
  | insensitive
  | sensitive
  deriving DecidableEq, Repr

structure AttributeMatcher where
  operator : AttributeOperator
  value : AttributeValue
  flag : Option CaseFlag
  deriving DecidableEq

structure AttributeSelector where
  name : Text
  matcher : Option AttributeMatcher
  deriving DecidableEq

/-! ### Components -/

inductive Component where
  | typeName (name : Text)
  | universal
  /-- The selector of the enclosing rule, `&`. -/
  | nesting
  | className (name : Text)
  | id (name : Text)
  | attribute (selector : AttributeSelector)
  | pseudoClass (name : Text)
  | pseudoElement (name : Text)
  /-- A pseudo-class of a selector list. -/
  | selectorFunction (name : Text) (selectors : List (List Component))
  /-- A pseudo-class of anything else. -/
  | tokenFunction (name : Text) (argument : TokenRun)
  | elementFunction (name : Text) (argument : TokenRun)
  | combinator (combinator : Combinator)
  /-- The offset of a keyframe. -/
  | percentage (x : Number)

abbrev Selector := List Component

abbrev SelectorList := List Selector

mutual

def Component.same : Component → Component → Bool
  | .typeName name, .typeName name' => name == name'
  | .universal, .universal => true
  | .nesting, .nesting => true
  | .className name, .className name' => name == name'
  | .id name, .id name' => name == name'
  | .attribute selector, .attribute selector' => selector == selector'
  | .pseudoClass name, .pseudoClass name' => name == name'
  | .pseudoElement name, .pseudoElement name' => name == name'
  | .selectorFunction name selectors, .selectorFunction name' selectors' =>
    name == name' && SelectorList.same selectors selectors'
  | .tokenFunction name argument, .tokenFunction name' argument' =>
    name == name' && argument == argument'
  | .elementFunction name argument, .elementFunction name' argument' =>
    name == name' && argument == argument'
  | .combinator c, .combinator c' => c == c'
  | .percentage x, .percentage y => x.sameValue y
  | _, _ => false

def Selector.same : List Component → List Component → Bool
  | [], [] => true
  | component :: components, component' :: components' =>
    component.same component' && Selector.same components components'
  | _, _ => false

def SelectorList.same : List (List Component) → List (List Component) → Bool
  | [], [] => true
  | selector :: selectors, selector' :: selectors' =>
    Selector.same selector selector' && SelectorList.same selectors selectors'
  | _, _ => false

end

end Css
