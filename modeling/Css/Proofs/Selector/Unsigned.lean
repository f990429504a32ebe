import Css.Proofs.Value.Unsigned
import Css.Selector

/-!
# Selectors without the signs of zeros

A zero is written without a sign, so this is what is read back of a percentage. Nothing else in a
selector has a sign to lose (`SelectorList.same_unsigned`).
-/

namespace Css

mutual

def Component.unsigned : Component → Component
  | .selectorFunction name selectors => .selectorFunction name (SelectorList.unsigned selectors)
  | .percentage x => .percentage x.unsigned
  | component => component

def Selector.unsigned : List Component → List Component
  | [] => []
  | component :: components => component.unsigned :: Selector.unsigned components

def SelectorList.unsigned : List (List Component) → List (List Component)
  | [] => []
  | selector :: selectors => Selector.unsigned selector :: SelectorList.unsigned selectors

end

mutual

theorem Component.same_unsigned : (component : Component) → component.same component.unsigned = true
  | .typeName _ => beq_self_eq_true _
  | .universal => rfl
  | .nesting => rfl
  | .className _ => beq_self_eq_true _
  | .id _ => beq_self_eq_true _
  | .attribute _ => beq_self_eq_true _
  | .pseudoClass _ => beq_self_eq_true _
  | .pseudoElement _ => beq_self_eq_true _
  | .selectorFunction name selectors =>
    Bool.and_eq_true_iff.2 ⟨beq_self_eq_true name, SelectorList.same_unsigned selectors⟩
  | .tokenFunction name argument =>
    Bool.and_eq_true_iff.2 ⟨beq_self_eq_true name, beq_self_eq_true argument⟩
  | .elementFunction name argument =>
    Bool.and_eq_true_iff.2 ⟨beq_self_eq_true name, beq_self_eq_true argument⟩
  | .combinator _ => beq_self_eq_true _
  | .percentage x => x.sameValue_unsigned

theorem Selector.same_unsigned : (selector : List Component) →
    Selector.same selector (Selector.unsigned selector) = true
  | [] => rfl
  | component :: components =>
    Bool.and_eq_true_iff.2 ⟨component.same_unsigned, Selector.same_unsigned components⟩

/-- A selector list is the same without the signs of its zeros. -/
theorem SelectorList.same_unsigned : (selectors : List (List Component)) →
    SelectorList.same selectors (SelectorList.unsigned selectors) = true
  | [] => rfl
  | selector :: selectors =>
    Bool.and_eq_true_iff.2 ⟨Selector.same_unsigned selector, SelectorList.same_unsigned selectors⟩

end

end Css
