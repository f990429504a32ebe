import Css.Selector

/-!
# Writing selectors

The text of a selector. A combinator other than the descendant one has readable space on both
sides, except at the start of a relative selector.
-/

namespace Css

def AttributeValue.toText : AttributeValue → Text
  | ident name => name
  | string content quote => quote.enclose content

def CaseFlag.toText : CaseFlag → Text
  | insensitive => [' ', 'i']
  | sensitive => [' ', 's']

def AttributeMatcher.toText (matcher : AttributeMatcher) : Text :=
  matcher.operator.toString.toList ++ matcher.value.toText ++
    (matcher.flag.map CaseFlag.toText).getD []

def AttributeSelector.toText (selector : AttributeSelector) : Text :=
  '[' :: selector.name ++ (selector.matcher.map AttributeMatcher.toText).getD [] ++ [']']

def Combinator.toText (style : Style) (leading : Bool) : Combinator → Text
  | descendant => [' ']
  | combinator => (if leading then [] else style.space) ++ style.delim combinator.toChar

mutual

/-- A component on its own; a combinator has no text outside a selector. -/
def Component.toText (style : Style) : Component → Text
  | .typeName name => name
  | .universal => ['*']
  | .nesting => ['&']
  | .className name => '.' :: name
  | .id name => '#' :: name
  | .attribute selector => selector.toText
  | .pseudoClass name => ':' :: name
  | .pseudoElement name => ':' :: ':' :: name
  | .selectorFunction name selectors =>
    ':' :: name ++ '(' :: SelectorList.toText style selectors ++ [')']
  | .tokenFunction name argument => ':' :: name ++ '(' :: argument.toText style ++ [')']
  | .elementFunction name argument => ':' :: ':' :: name ++ '(' :: argument.toText style ++ [')']
  | .combinator _ => []
  | .percentage x => style.number x ++ ['%']

def Selector.textFrom (style : Style) : (leading : Bool) → List Component → Text
  | _, [] => []
  | leading, .combinator c :: components =>
    c.toText style leading ++ Selector.textFrom style false components
  | _, component :: components =>
    component.toText style ++ Selector.textFrom style false components

def SelectorList.toText (style : Style) : List (List Component) → Text
  | [] => []
  | [selector] => Selector.textFrom style true selector
  | selector :: next :: selectors =>
    Selector.textFrom style true selector ++ style.delim ',' ++
      SelectorList.toText style (next :: selectors)

end

def Selector.toText (style : Style) (selector : Selector) : Text :=
  Selector.textFrom style true selector

end Css
