import Css.Media
import Css.Selector
import Css.Value

/-!
# Style sheets

A style sheet is a list of rules: style rules, which give declarations to what a selector list
selects, and at-rules, which end at once or hold a block of rules or of declarations.
-/

namespace Css

structure Declaration where
  name : Text
  value : Value
  important : Bool

inductive Prelude where
  | media (queries : MediaList)
  | tokens (run : TokenRun)

def Prelude.isEmpty : Prelude → Bool
  | media queries => queries.isEmpty
  | tokens run => run.isEmpty

inductive Rule where
  | style (selectors : SelectorList) (declarations : List Declaration)
  /-- An at-rule without a block. -/
  | statement (name : Text) (prelude : Prelude)
  /-- An at-rule with a block of rules. -/
  | group (name : Text) (prelude : Prelude) (rules : List Rule)
  /-- An at-rule with a block of declarations. -/
  | descriptors (name : Text) (prelude : Prelude) (declarations : List Declaration)

abbrev Stylesheet := List Rule

def Declaration.last? (declarations : List Declaration) (name : Text) : Option Declaration :=
  declarations.reverse.find? fun declaration => declaration.name.sameKeyword name

def Rule.declarations? : Rule → Option (List Declaration)
  | style _ declarations => some declarations
  | descriptors _ _ declarations => some declarations
  | _ => none

/-! ### Sameness -/

def Declaration.same (left right : Declaration) : Bool :=
  left.name == right.name && left.value.same right.value && left.important == right.important

def Declaration.sameAll : List Declaration → List Declaration → Bool
  | [], [] => true
  | left :: lefts, right :: rights => left.same right && sameAll lefts rights
  | _, _ => false

def Prelude.same : Prelude → Prelude → Bool
  | media queries, media queries' => MediaList.same queries queries'
  | tokens run, tokens run' => run == run'
  | _, _ => false

mutual

def Rule.same : Rule → Rule → Bool
  | .style selectors declarations, .style selectors' declarations' =>
    SelectorList.same selectors selectors' && Declaration.sameAll declarations declarations'
  | .statement name prelude, .statement name' prelude' => name == name' && prelude.same prelude'
  | .group name prelude rules, .group name' prelude' rules' =>
    name == name' && prelude.same prelude' && Stylesheet.same rules rules'
  | .descriptors name prelude declarations, .descriptors name' prelude' declarations' =>
    name == name' && prelude.same prelude' && Declaration.sameAll declarations declarations'
  | _, _ => false

def Stylesheet.same : List Rule → List Rule → Bool
  | [], [] => true
  | left :: lefts, right :: rights => left.same right && Stylesheet.same lefts rights
  | _, _ => false

end

end Css
