import Css.Proofs.Number.Text
import Css.Proofs.Value.Raw

/-!
# Values whose zeros have no sign

A zero is written without its sign, so a value is read back with `Value.unsigned` zeros. It is the
same value (`Value.same_unsigned`), and it is built the same way of such values, colours included
(`Value.unsigned_call`): a colour is computed from the magnitudes of numbers and their order.
-/

namespace Css

/-! ### Numbers -/

namespace Number

theorem scaled_unsigned (x : Number) : x.unsigned.scaled = x.scaled := by
  unfold unsigned
  split
  · rename_i hunits
    have hzero : zero.scaled = 0 := by decide
    rw [hzero, scaled, hunits]
    split <;> rfl
  · rfl

theorem sameValue_unsigned (x : Number) : x.sameValue x.unsigned = true := by
  rw [sameValue, scaled_unsigned, beq_self_eq_true]

theorem toByte_unsigned (x : Number) : x.unsigned.toByte = x.toByte := by
  unfold unsigned
  split
  · rename_i hunits
    have hzero : zero.toByte = 0 := by decide
    have hhalf : (2 * 0 + unitsPerOne) / (2 * unitsPerOne) = 0 := by decide
    rw [hzero, toByte, hunits, hhalf]
    split <;> rfl
  · rfl

theorem finite?_unsigned (x : Number) : x.unsigned.finite? = x.finite?.map unsigned := by
  unfold finite?
  rw [isFinite_unsigned]
  split <;> rfl

/-! Results depend on the values of numbers, not on the signs of zeros. -/

section Congr

variable {x x' : Number} (h : x.scaled = x'.scaled) (y : Number)

include h

theorem mul_congr : x * y = x' * y :=
  congrArg (fun n => round (n * y.scaled) unitsPerOne) h

theorem div_congr : x / y = x' / y :=
  congrArg (fun n => round (n * y.scaled.sign * unitsPerOne) y.scaled.natAbs) h

theorem mod_congr : x % y = x' % y :=
  congrArg (fun n => round (n % y.scaled) 1) h

theorem scaled_clamp_congr (low high : Number) :
    (x.clamp low high).scaled = (x'.clamp low high).scaled := by
  have hlow : x < low ↔ x' < low := by
    show x.scaled < low.scaled ↔ x'.scaled < low.scaled
    rw [h]
  have hhigh : high < x ↔ high < x' := by
    show high.scaled < x.scaled ↔ high.scaled < x'.scaled
    rw [h]
  unfold clamp
  simp only [hlow, hhigh]
  split
  · rfl
  · split
    · rfl
    · exact h

end Congr

theorem mul?_unsigned (x y : Number) : x.unsigned.mul? y = x.mul? y := by
  rw [mul?, mul?, isFinite_unsigned, mul_congr x.scaled_unsigned]

end Number

namespace Value

/-! ### The same value -/

mutual

def unsigned : Value → Value
  | number x => number x.unsigned
  | percentage x => percentage x.unsigned
  | dimension x unit => dimension x.unsigned unit
  | colorFunction name arguments rgba => colorFunction name (unsignedAll arguments) rgba
  | function name arguments => function name (unsignedAll arguments)
  | var name fallback => var name (unsignedOption fallback)
  | list separator items => list separator (unsignedAll items)
  | value => value

def unsignedAll : List Value → List Value
  | [] => []
  | value :: values => unsigned value :: unsignedAll values

def unsignedOption : Option Value → Option Value
  | none => none
  | some value => some (unsigned value)

end

theorem unsignedAll_eq (values : List Value) : unsignedAll values = values.map unsigned := by
  induction values with
  | nil => rfl
  | cons value values ih => rw [unsignedAll, ih, List.map_cons]

mutual

theorem same_unsigned (value : Value) : value.same value.unsigned = true := by
  cases value <;> simp only [unsigned, same, Number.sameValue_unsigned, sameAll_unsigned,
    sameOption_unsigned, beq_self_eq_true, Bool.and_self]

theorem sameAll_unsigned (values : List Value) : sameAll values (unsignedAll values) = true := by
  cases values with
  | nil => rfl
  | cons value values =>
    rw [unsignedAll, sameAll, same_unsigned value, sameAll_unsigned values]
    rfl

theorem sameOption_unsigned (value : Option Value) :
    sameOption value (unsignedOption value) = true := by
  cases value with
  | none => rfl
  | some value => rw [unsignedOption, sameOption, same_unsigned value]

end

/-! ### Building values -/

theorem keepsShape_unsigned : KeepsShape unsigned where
  list_eq separator items := by rw [unsigned, unsignedAll_eq]
  sign_eq sign := by simp only [unsigned]
  eq_list value separator items h := by
    cases value <;> simp only [unsigned, reduceCtorEq, list.injEq] at h
    exact ⟨_, by rw [h.1]⟩
  eq_sign value sign h := by
    cases value <;> simp only [unsigned, reduceCtorEq] at h
    exact h

/-! ### Colours -/

open ColorFunction

theorem rgbByte?_unsigned (value : Value) : rgbByte? value.unsigned = rgbByte? value := by
  cases value with
  | number x => exact congrArg some x.toByte_unsigned
  | percentage x =>
    simp only [unsigned, rgbByte?, Number.div_congr x.scaled_unsigned]
  | _ => simp only [unsigned, rgbByte?]

theorem alphaByte?_unsigned (value : Value) : alphaByte? value.unsigned = alphaByte? value := by
  cases value with
  | number x =>
    simp only [unsigned, alphaByte?, fractionByte,
      Number.mul_congr (Number.scaled_clamp_congr x.scaled_unsigned _ _)]
  | percentage x =>
    simp only [unsigned, alphaByte?, Number.div_congr x.scaled_unsigned]
  | _ => simp only [unsigned, alphaByte?]

theorem fraction?_unsigned (value : Value) : fraction? value.unsigned = fraction? value := by
  cases value with
  | number x => simp only [unsigned, fraction?, Number.div_congr x.scaled_unsigned]
  | percentage x => simp only [unsigned, fraction?, Number.div_congr x.scaled_unsigned]
  | _ => simp only [unsigned, fraction?]

/-- A hue of unsigned zeros is the same part of a full turn. -/
theorem turn_unsigned (hue : Hue) : turn (hue.map Number.unsigned) = turn hue := by
  cases hue with
  | none => rfl
  | some degrees => simp only [turn, Option.map_some, Number.mod_congr degrees.scaled_unsigned]

theorem hue?_unsigned (value : Value) :
    (hue? value.unsigned).map turn = (hue? value).map turn := by
  cases value with
  | number x =>
    simp only [unsigned, hue?, Option.map_some, Number.finite?_unsigned, turn_unsigned]
  | dimension x unit =>
    simp only [unsigned, hue?]
    cases degreesPer? unit with
    | none => simp only [Option.map_none]
    | some factor =>
      cases factor with
      | none => simp only [Option.map_some, Number.finite?_unsigned, turn_unsigned]
      | some factor => simp only [Option.map_some, Number.mul?_unsigned]
  | _ => simp only [unsigned, hue?]

theorem hslToRgb_congr {hue hue' : Hue} (h : turn hue = turn hue')
    (saturation lightness : Number) :
    hslToRgb hue saturation lightness = hslToRgb hue' saturation lightness := by
  unfold hslToRgb
  rw [h]

/-- What is made of a hue through its turn alone does not depend on signs of zeros. -/
theorem bind_hue?_unsigned (value : Value) {α : Type} {rest : Hue → Option α}
    (hrest : ∀ hue hue', turn hue = turn hue' → rest hue = rest hue') :
    (hue? value.unsigned).bind rest = (hue? value).bind rest := by
  have hturn := hue?_unsigned value
  cases hvalue : hue? value with
  | none =>
    rw [hvalue] at hturn
    rw [Option.map_eq_none_iff.1 hturn]
  | some hue =>
    rw [hvalue] at hturn
    obtain ⟨hue', hvalue', heq⟩ := Option.map_eq_some_iff.1 hturn
    rw [hvalue']
    exact hrest hue' hue heq

theorem resolve?_unsigned (name : Text) (arguments : List Value) :
    resolve? name (arguments.map unsigned) = resolve? name arguments := by
  unfold resolve?
  rw [keepsShape_unsigned.channels?_map]
  cases channels? arguments with
  | none => rfl
  | some channels =>
    obtain ⟨first, second, third, alpha⟩ := channels
    rw [Option.map_some, Option.bind_eq_bind, Option.bind_eq_bind, Option.bind_some,
      Option.bind_some, rgbByte?_unsigned, rgbByte?_unsigned, rgbByte?_unsigned,
      fraction?_unsigned, fraction?_unsigned]
    -- the terms are taken apart by hand: what simplifies them computes with numbers
    obtain _ | alpha := alpha
    on_goal 1 => refine congrArg (Option.bind (some 255)) (funext fun byte => ?_)
    on_goal 2 => refine congrArg₂ Option.bind (alphaByte?_unsigned alpha) (funext fun byte => ?_)
    all_goals
      refine ite_congr rfl (fun _ => rfl) fun _ => ite_congr rfl (fun _ => ?_) fun _ => rfl
      refine bind_hue?_unsigned first fun hue hue' hturn => ?_
      refine congrArg (Option.bind _) (funext fun saturation => ?_)
      refine congrArg (Option.bind _) (funext fun lightness => ?_)
      rw [hslToRgb_congr hturn]

theorem unsigned_call (name : Text) (arguments : List Value) :
    (call name arguments).unsigned = call name (arguments.map unsigned) := by
  unfold call
  split
  · rw [unsigned, unsignedAll_eq, resolve?_unsigned]
  · rw [unsigned, unsignedAll_eq]

end Value

end Css
