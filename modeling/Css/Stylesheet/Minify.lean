import Css.Property
import Css.Stylesheet
import Css.TextProperty

/-!
# Values with shorter forms

What minification does before a style sheet is written: values of text properties become canonical,
and colour names in colour properties become colours that are written in their shortest form.
-/

namespace Css

namespace Value

mutual

/-- A value with every colour name in it replaced by the colour it denotes, except in the arguments
of colour functions. -/
def computeColors : Value → Value
  | color (.named _ rgba) => color (.computed rgba)
  | list separator items => list separator (computeAll items)
  | function name arguments => function name (computeAll arguments)
  | var name fallback => var name (computeOption fallback)
  | value => value

def computeAll : List Value → List Value
  | [] => []
  | value :: values => computeColors value :: computeAll values

def computeOption : Option Value → Option Value
  | none => none
  | some value => some (computeColors value)

end

end Value

def Declaration.minify (declaration : Declaration) : Declaration :=
  let value := (declaration.value.canonical? declaration.name).getD declaration.value
  { declaration with
    value := if Property.isColored declaration.name then value.computeColors else value }

mutual

def Rule.minify : Rule → Rule
  | .style selectors declarations => .style selectors (declarations.map Declaration.minify)
  | .statement name prelude => .statement name prelude
  | .group name prelude rules => .group name prelude (Stylesheet.minify rules)
  | .descriptors name prelude declarations =>
    .descriptors name prelude (declarations.map Declaration.minify)

def Stylesheet.minify : List Rule → List Rule
  | [] => []
  | rule :: rules => rule.minify :: Stylesheet.minify rules

end

end Css
