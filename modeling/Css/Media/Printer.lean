import Css.Media

/-!
# Writing media queries

The text of a media query list. A condition inside another one stands in brackets; a feature always
does.
-/

namespace Css

def MediaFeature.toText (style : Style) (feature : MediaFeature) : Text :=
  let inner := match feature with
    | plain name value => name ++ style.delim ':' ++ value.toText style
    | boolean name => name
    | range run => run.toText style
  '(' :: inner ++ [')']

namespace MediaCondition

mutual

def toText (style : Style) : MediaCondition → Text
  | feature f => f.toText style
  | negation condition => "not ".toList ++ nestedText style condition
  | conjunction conditions => joinText style " and ".toList conditions
  | disjunction conditions => joinText style " or ".toList conditions

def nestedText (style : Style) : MediaCondition → Text
  | feature f => f.toText style
  | negation condition => '(' :: "not ".toList ++ nestedText style condition ++ [')']
  | conjunction conditions => '(' :: joinText style " and ".toList conditions ++ [')']
  | disjunction conditions => '(' :: joinText style " or ".toList conditions ++ [')']

def joinText (style : Style) (word : Text) : List MediaCondition → Text
  | [] => []
  | [condition] => nestedText style condition
  | condition :: next :: conditions =>
    nestedText style condition ++ word ++ joinText style word (next :: conditions)

end

end MediaCondition

def MediaQualifier.toText : MediaQualifier → Text
  | negated => "not ".toList
  | only => "only ".toList

def MediaQuery.toText (style : Style) (query : MediaQuery) : Text :=
  (query.qualifier.map MediaQualifier.toText).getD [] ++
    match query.mediaType, query.condition with
    | some mediaType, some condition => mediaType ++ " and ".toList ++ condition.toText style
    | some mediaType, none => mediaType
    | none, some condition => condition.toText style
    | none, none => []

def MediaList.toText (style : Style) (list : MediaList) : Text :=
  Style.separated (style.delim ',') (list.map (MediaQuery.toText style))

end Css
