import Css.Proofs.TextProperty.Colors
import Css.Proofs.TextProperty.Roundtrip

/-!
# Minification done twice

Minified values are canonical and have no colour name left to be computed, so a second minification
changes nothing (`Stylesheet.minify_minify`). Only decorations are both made canonical and given
computed colours, and these two changes do not disturb each other.
-/

namespace Css

/-- Of the text properties only a decoration may name a colour. -/
theorem TextProperty.eq_textDecoration {name : Text} {property : TextProperty}
    (hcolored : Property.isColored name = true) (h : Keyword.ofName? name = some property) :
    property = .textDecoration := by
  have hspelling : (Property.colored.any fun keyword =>
      (Keyword.spelling property).toList == keyword.toList) = true := by
    rw [← Keyword.lower_of_ofName? h]
    exact hcolored
  revert hspelling
  cases property <;> decide

namespace Value

/-- Computing its colours does not disturb the canonical form of a value. -/
theorem canonical?_computeColors {name : Text} (hcolored : Property.isColored name = true)
    (value : Value) :
    value.computeColors.canonical? name = (value.canonical? name).map computeColors := by
  unfold Value.canonical?
  cases hname : (Keyword.ofName? name : Option TextProperty) with
  | none => rfl
  | some property =>
    rw [TextProperty.eq_textDecoration hcolored hname]
    exact TextDecoration.canonical?_computeColors value

end Value

namespace Declaration

/-- A value is canonical or has no canonical form, and its colours are computed or stay. -/
theorem minify_idem (declaration : Declaration) :
    declaration.minify.minify = declaration.minify := by
  rcases declaration with ⟨name, value, important⟩
  unfold minify
  dsimp only
  cases hcolored : Property.isColored name with
  | true =>
    simp only [if_true, Value.canonical?_computeColors hcolored]
    cases hcanonical : value.canonical? name with
    | none => simp [hcanonical, Value.computeColors_computeColors]
    | some canonical =>
      simp [Value.canonical?_idem hcanonical, Value.computeColors_computeColors]
  | false =>
    cases hcanonical : value.canonical? name with
    | none => simp [hcanonical]
    | some canonical => simp [Value.canonical?_idem hcanonical]

end Declaration

mutual

theorem Rule.minify_idem (rule : Rule) : rule.minify.minify = rule.minify := by
  have hdeclarations : ∀ declarations : List Declaration,
      (declarations.map Declaration.minify).map Declaration.minify =
        declarations.map Declaration.minify := fun declarations => by
    rw [List.map_map]
    exact List.map_congr_left fun declaration _ => declaration.minify_idem
  cases rule with
  | style selectors declarations => simp only [Rule.minify, hdeclarations]
  | statement name prelude => rfl
  | group name prelude rules => simp only [Rule.minify, Stylesheet.minify_idem rules]
  | descriptors name prelude declarations => simp only [Rule.minify, hdeclarations]

theorem Stylesheet.minify_idem (rules : List Rule) :
    Stylesheet.minify (Stylesheet.minify rules) = Stylesheet.minify rules := by
  cases rules with
  | nil => rfl
  | cons rule rules =>
    simp only [Stylesheet.minify, Rule.minify_idem rule, Stylesheet.minify_idem rules]

end

/-- A style sheet that was minified is not changed by a second minification. -/
theorem Stylesheet.minify_minify (sheet : Stylesheet) :
    Stylesheet.minify (Stylesheet.minify sheet) = Stylesheet.minify sheet :=
  Stylesheet.minify_idem sheet

end Css
