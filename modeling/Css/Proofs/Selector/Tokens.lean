import Css.Proofs.Token.Run
import Css.Selector.Parser
import Css.Selector.Printer

/-!
# The tokens of a selector list

What is written for a selector list is a run of tokens (`SelectorList.toText_eq`): those of its
names, attributes and arguments, and between them colons, points, brackets, commas and spaces.
-/

namespace Css

/-! ### Attributes -/

def AttributeOperator.tokens (operator : AttributeOperator) : TokenRun :=
  operator.toString.toList.map .delim

def AttributeValue.token : AttributeValue → Token
  | ident name => .ident name
  | string content quote => .string content quote

def CaseFlag.word : CaseFlag → Text
  | insensitive => ['i']
  | sensitive => ['s']

def CaseFlag.tokens : Option CaseFlag → TokenRun
  | none => []
  | some flag => [.whitespace, .ident flag.word]

def AttributeMatcher.tokens : Option AttributeMatcher → TokenRun
  | none => []
  | some matcher =>
    matcher.operator.tokens ++ matcher.value.token :: CaseFlag.tokens matcher.flag

def AttributeSelector.inner (selector : AttributeSelector) : TokenRun :=
  .ident selector.name :: AttributeMatcher.tokens selector.matcher

/-! ### Components -/

def Combinator.tokens (leading : Bool) : Combinator → TokenRun
  | descendant => [.whitespace]
  | combinator =>
    (if leading then [] else [.whitespace]) ++ [.delim combinator.toChar, .whitespace]

mutual

/-- The tokens of a component; `leading` holds at the start of a selector. -/
def Component.tokens (leading : Bool) : Component → TokenRun
  | .typeName name => [.ident name]
  | .universal => [.delim '*']
  | .nesting => [.delim '&']
  | .className name => [.delim '.', .ident name]
  | .id name => [.hash name true]
  | .attribute selector => .opening .square :: (selector.inner ++ [.closing .square])
  | .pseudoClass name => [.colon, .ident name]
  | .pseudoElement name => [.colon, .colon, .ident name]
  | .selectorFunction name selectors =>
    .colon :: .function name :: (SelectorList.tokens selectors ++ [.closing .round])
  | .tokenFunction name argument =>
    .colon :: .function name :: (argument ++ [.closing .round])
  | .elementFunction name argument =>
    .colon :: .colon :: .function name :: (argument ++ [.closing .round])
  | .combinator c => c.tokens leading
  | .percentage x => [.percentage (.ofText (Style.pretty.number x))]

def Selector.tokens (leading : Bool) : List Component → TokenRun
  | [] => []
  | component :: components =>
    component.tokens leading ++ Selector.tokens false components

def SelectorList.tokens : List (List Component) → TokenRun
  | [] => []
  | [selector] => Selector.tokens true selector
  | selector :: next :: selectors =>
    Selector.tokens true selector ++
      .comma :: .whitespace :: SelectorList.tokens (next :: selectors)

end

/-! ### The text of the tokens -/

theorem AttributeOperator.toText_tokens (operator : AttributeOperator) :
    operator.tokens.toText .pretty = operator.toString.toList := by
  cases operator <;> rfl

theorem AttributeValue.toText_token (value : AttributeValue) :
    value.token.toText .pretty = value.toText := by
  cases value <;> rfl

theorem AttributeMatcher.toText_tokens (matcher : Option AttributeMatcher) :
    TokenRun.toText .pretty (tokens matcher) = (matcher.map toText).getD [] := by
  cases matcher with
  | none => rfl
  | some matcher =>
    have hflag : TokenRun.toText .pretty (CaseFlag.tokens matcher.flag) =
        (matcher.flag.map CaseFlag.toText).getD [] := by
      rcases matcher.flag with _ | _ | _ <;> rfl
    rw [tokens, TokenRun.toText_pretty_append, TokenRun.toText_pretty_cons, hflag,
      AttributeOperator.toText_tokens, AttributeValue.toText_token, Option.map_some,
      Option.getD_some, toText, List.append_assoc]

theorem AttributeSelector.toText_tokens (selector : AttributeSelector) :
    TokenRun.toText .pretty (.opening .square :: (selector.inner ++ [.closing .square])) =
      selector.toText := by
  rw [TokenRun.toText_pretty_cons, TokenRun.toText_pretty_append, inner,
    TokenRun.toText_pretty_cons, AttributeMatcher.toText_tokens]
  rfl

/-- The text of a function with its argument. -/
theorem TokenRun.toText_pretty_call (name : Text) (argument : TokenRun) :
    TokenRun.toText .pretty (.function name :: (argument ++ [.closing .round])) =
      name ++ '(' :: argument.toText .pretty ++ [')'] := by
  rw [toText_pretty_cons, toText_pretty_append]
  simp only [Token.toText, List.append_assoc]
  rfl

theorem TokenRun.toText_pretty_percentage (numeral : Text) :
    TokenRun.toText .pretty [.percentage (.ofText numeral)] = numeral ++ ['%'] :=
  List.append_nil (numeral ++ ['%'])

theorem Combinator.toText_tokens (leading : Bool) (c : Combinator) :
    TokenRun.toText .pretty (c.tokens leading) = c.toText .pretty leading := by
  cases c <;> cases leading <;> rfl

theorem Selector.textFrom_cons (style : Style) (leading : Bool) (component : Component)
    (components : List Component) :
    Selector.textFrom style leading (component :: components) =
      (match component with
        | .combinator c => c.toText style leading
        | component => component.toText style) ++ Selector.textFrom style false components := by
  cases component <;> rfl

mutual

theorem Component.toText_tokens (leading : Bool) : (component : Component) →
    TokenRun.toText .pretty (component.tokens leading) =
      match component with
      | .combinator c => c.toText .pretty leading
      | component => component.toText .pretty
  | .typeName name => List.append_nil name
  | .universal => rfl
  | .nesting => rfl
  | .className name => congrArg ('.' :: ·) (List.append_nil name)
  | .id name => List.append_nil _
  | .attribute selector => selector.toText_tokens
  | .pseudoClass name => congrArg (':' :: ·) (List.append_nil name)
  | .pseudoElement name => congrArg (':' :: ':' :: ·) (List.append_nil name)
  | .selectorFunction name selectors => by
    rw [Component.tokens, TokenRun.toText_pretty_cons, TokenRun.toText_pretty_call,
      SelectorList.toText_tokens selectors]
    rfl
  | .tokenFunction name argument => by
    rw [Component.tokens, TokenRun.toText_pretty_cons, TokenRun.toText_pretty_call]
    rfl
  | .elementFunction name argument => by
    rw [Component.tokens, TokenRun.toText_pretty_cons, TokenRun.toText_pretty_cons,
      TokenRun.toText_pretty_call]
    rfl
  | .combinator c => c.toText_tokens leading
  | .percentage x => by
    show _ = (Component.percentage x).toText .pretty
    rw [Component.tokens, TokenRun.toText_pretty_percentage, Component.toText]

theorem Selector.toText_tokens (leading : Bool) : (selector : List Component) →
    TokenRun.toText .pretty (Selector.tokens leading selector) =
      Selector.textFrom .pretty leading selector
  | [] => rfl
  | component :: components => by
    rw [Selector.tokens, TokenRun.toText_pretty_append, component.toText_tokens leading,
      Selector.toText_tokens false components, Selector.textFrom_cons]

theorem SelectorList.toText_tokens : (selectors : List (List Component)) →
    TokenRun.toText .pretty (SelectorList.tokens selectors) =
      SelectorList.toText .pretty selectors
  | [] => rfl
  | [selector] => Selector.toText_tokens true selector
  | selector :: next :: selectors => by
    rw [SelectorList.tokens, TokenRun.toText_pretty_append, TokenRun.toText_pretty_cons,
      TokenRun.toText_pretty_cons, SelectorList.toText_tokens (next :: selectors),
      Selector.toText_tokens true selector, SelectorList.toText, List.append_assoc]
    rfl

end

end Css
