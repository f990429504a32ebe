import Mathlib.Data.List.Forall2
import Css.Stylesheet.Minify

/-!
# What minification leaves alone

Minification rewrites values in place. The tree of rules stays as it is, with its names, preludes
and selectors, and so do the names and the importance of its declarations; the value of a
declaration that is not one of a text property keeps everything but its colour names, which become
the colours they denote where the property holds colours (`Stylesheet.alike_minify`).
-/

namespace Css

namespace Value

mutual

def namesColor : Value → Bool
  | color (.named _ _) => true
  | list _ items => namesColorAny items
  | function _ arguments => namesColorAny arguments
  | var _ fallback => namesColorOption fallback
  | _ => false

def namesColorAny : List Value → Bool
  | [] => false
  | value :: values => namesColor value || namesColorAny values

def namesColorOption : Option Value → Bool
  | none => false
  | some value => namesColor value

end

/-- Whether the second value is the first with all its colour names, in lists, in the arguments of
functions and in what stands in for a custom property, replaced by the colours they denote. -/
inductive ColorsComputed : Value → Value → Prop
  | unchanged {value : Value} (h : value.namesColor = false) : ColorsComputed value value
  | named (name : Text) (rgba : Rgba) :
    ColorsComputed (color (.named name rgba)) (color (.computed rgba))
  | list (separator : Separator) {items items' : List Value}
      (h : List.Forall₂ ColorsComputed items items') :
    ColorsComputed (list separator items) (list separator items')
  | function (name : Text) {arguments arguments' : List Value}
      (h : List.Forall₂ ColorsComputed arguments arguments') :
    ColorsComputed (function name arguments) (function name arguments')
  | var (name : Text) {fallback fallback' : Option Value}
      (h : Option.Rel ColorsComputed fallback fallback') :
    ColorsComputed (var name fallback) (var name fallback')

mutual

theorem colorsComputed_computeColors (value : Value) :
    value.ColorsComputed value.computeColors := by
  cases value with
  | color c =>
    cases c with
    | named name rgba => exact .named name rgba
    | _ => exact .unchanged rfl
  | list separator items => exact .list separator (forall₂_colorsComputed items)
  | function name arguments => exact .function name (forall₂_colorsComputed arguments)
  | var name fallback => exact .var name (rel_colorsComputed fallback)
  | _ => exact .unchanged rfl

theorem forall₂_colorsComputed (values : List Value) :
    List.Forall₂ ColorsComputed values (computeAll values) := by
  cases values with
  | nil => exact .nil
  | cons value values =>
    exact .cons (colorsComputed_computeColors value) (forall₂_colorsComputed values)

theorem rel_colorsComputed (value : Option Value) :
    Option.Rel ColorsComputed value (computeOption value) := by
  cases value with
  | none => exact .none
  | some value => exact .some (colorsComputed_computeColors value)

end

end Value

/-- What minification does to a declaration. The value of a text property may get another form;
nothing is said about it here. -/
structure Declaration.MinifiesTo (old new : Declaration) : Prop where
  name : new.name = old.name
  important : new.important = old.important
  /-- A value that cannot hold a colour stays. -/
  plain : (Keyword.ofName? old.name : Option TextProperty) = none →
    Property.isColored old.name = false → new.value = old.value
  colored : (Keyword.ofName? old.name : Option TextProperty) = none →
    Property.isColored old.name = true → old.value.ColorsComputed new.value

theorem Declaration.minifiesTo_minify (declaration : Declaration) :
    declaration.MinifiesTo declaration.minify := by
  have hvalue (hother : (Keyword.ofName? declaration.name : Option TextProperty) = none) :
      declaration.minify.value = if Property.isColored declaration.name then
        declaration.value.computeColors else declaration.value := by
    simp only [minify, Value.canonical?, hother, Option.bind_none, Option.getD_none]
  refine ⟨rfl, rfl, fun hother hcolored => ?_, fun hother hcolored => ?_⟩
  · rw [hvalue hother, hcolored]
    rfl
  · rw [hvalue hother, hcolored]
    exact declaration.value.colorsComputed_computeColors

inductive Rule.Alike (related : Declaration → Declaration → Prop) : Rule → Rule → Prop
  | style (selectors : SelectorList) {declarations declarations' : List Declaration}
      (h : List.Forall₂ related declarations declarations') :
    Alike related (style selectors declarations) (style selectors declarations')
  | statement (name : Text) (prelude : Prelude) :
    Alike related (statement name prelude) (statement name prelude)
  | group (name : Text) (prelude : Prelude) {rules rules' : List Rule}
      (h : List.Forall₂ (Alike related) rules rules') :
    Alike related (group name prelude rules) (group name prelude rules')
  | descriptors (name : Text) (prelude : Prelude) {declarations declarations' : List Declaration}
      (h : List.Forall₂ related declarations declarations') :
    Alike related (descriptors name prelude declarations) (descriptors name prelude declarations')

theorem Declaration.forall₂_minifiesTo (declarations : List Declaration) :
    List.Forall₂ MinifiesTo declarations (declarations.map minify) :=
  List.forall₂_map_right_iff.2 (List.forall₂_same.2 fun declaration _ =>
    declaration.minifiesTo_minify)

mutual

theorem Rule.minifiesTo_minify (rule : Rule) : rule.Alike Declaration.MinifiesTo rule.minify := by
  cases rule with
  | style selectors declarations =>
    exact .style selectors (Declaration.forall₂_minifiesTo declarations)
  | statement name prelude => exact .statement name prelude
  | group name prelude rules => exact .group name prelude (Stylesheet.minifiesTo_minify rules)
  | descriptors name prelude declarations =>
    exact .descriptors name prelude (Declaration.forall₂_minifiesTo declarations)

theorem Stylesheet.minifiesTo_minify (rules : List Rule) :
    List.Forall₂ (Rule.Alike Declaration.MinifiesTo) rules (Stylesheet.minify rules) := by
  cases rules with
  | nil => exact .nil
  | cons rule rules => exact .cons rule.minifiesTo_minify (Stylesheet.minifiesTo_minify rules)

end

/-- A minified style sheet has the rules, at every depth, and the declarations that it had, in their
order and under their names; values change in nothing but the form of a text property and the
colours that are named in a colour property. -/
theorem Stylesheet.alike_minify (sheet : Stylesheet) :
    List.Forall₂ (Rule.Alike Declaration.MinifiesTo) sheet (Stylesheet.minify sheet) :=
  Stylesheet.minifiesTo_minify sheet

end Css
