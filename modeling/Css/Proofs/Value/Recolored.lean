import Css.Proofs.Color.Shortest
import Css.Proofs.Value.Unsigned

/-!
# Values as they are read back

What is written in some style is read back with zeros without a sign and, where output is minified,
with each hexadecimal or functional colour that is written in its shortest form as what this form is
read as (`Value.reread`). The value that is read back is the same but for such colours
(`Value.recolors_reread`), and the same text is written for it (`Value.toText_reread`).
-/

namespace Css

/-- Whether a colour is one that is read: `#` and digits, or a name. -/
def Color.IsLiteral : Color → Prop
  | computed _ => False
  | _ => True

theorem Rgba.isLiteral_shortest (rgba : Rgba) : rgba.shortest.IsLiteral := by
  obtain ⟨name, -, heq, -⟩ | ⟨heq, -⟩ := rgba.shortest_cases <;> (rw [heq]; trivial)

namespace Value

/-- Whether two values are the same but for the signs of zeros and for some hexadecimal and
functional colours: in their place the second value has hexadecimal or named colours that denote the
same. -/
inductive Recolors : Value → Value → Prop
  | same {value value' : Value} (h : value.same value' = true) : Recolors value value'
  | hex {digits : Text} {c : Color} (h : c.IsLiteral) :
    Recolors (color (.hex digits c.rgba)) (color c)
  | functional {name : Text} {arguments : List Value} {c : Color} (h : c.IsLiteral) :
    Recolors (colorFunction name arguments (some c.rgba)) (color c)
  | colorFunction (name : Text) {arguments arguments' : List Value} (rgba : Option Rgba)
      (h : List.Forall₂ Recolors arguments arguments') :
    Recolors (colorFunction name arguments rgba) (colorFunction name arguments' rgba)
  | function (name : Text) {arguments arguments' : List Value}
      (h : List.Forall₂ Recolors arguments arguments') :
    Recolors (function name arguments) (function name arguments')
  | var (name : Text) {fallback fallback' : Option Value}
      (h : Option.Rel Recolors fallback fallback') :
    Recolors (var name fallback) (var name fallback')
  | list (separator : Separator) {items items' : List Value}
      (h : List.Forall₂ Recolors items items') :
    Recolors (list separator items) (list separator items')

mutual

def recolored : Value → Value
  | color (.hex _ rgba) => color rgba.shortest
  | colorFunction name arguments rgba =>
    match rgba.filter Rgba.isPlain with
    | some rgba => color rgba.shortest
    | none => colorFunction name (recoloredAll arguments) rgba
  | function name arguments => function name (recoloredAll arguments)
  | var name fallback => var name (recoloredOption fallback)
  | list separator items => list separator (recoloredAll items)
  | value => value

def recoloredAll : List Value → List Value
  | [] => []
  | value :: values => recolored value :: recoloredAll values

def recoloredOption : Option Value → Option Value
  | none => none
  | some value => some (recolored value)

end

def reread (style : Style) (value : Value) : Value :=
  if style.minify then value.unsigned.recolored else value.unsigned

theorem recoloredAll_eq (values : List Value) : recoloredAll values = values.map recolored := by
  induction values with
  | nil => rfl
  | cons value values ih => rw [recoloredAll, ih, List.map_cons]

theorem reread_self {value : Value} (hunsigned : value.unsigned = value)
    (hrecolored : value.recolored = value) (style : Style) : value.reread style = value := by
  unfold reread
  rw [hunsigned]
  split
  · exact hrecolored
  · rfl

/-- A value that has no colour is read back with unsigned zeros. -/
theorem reread_of_eq {value : Value} (h : value.unsigned.recolored = value.unsigned)
    (style : Style) : value.reread style = value.unsigned := by
  unfold reread
  split
  · exact h
  · rfl

theorem reread_var (style : Style) (name : Text) (fallback : Option Value) :
    (var name fallback).reread style = var name (fallback.map (reread style)) := by
  cases hminify : style.minify with
  | true =>
    have heq : reread style = fun value => value.unsigned.recolored :=
      funext fun value => if_pos hminify
    rw [heq]
    cases fallback <;> simp only [unsigned, recolored, unsignedOption, recoloredOption,
      Option.map_none, Option.map_some]
  | false =>
    have heq : reread style = unsigned :=
      funext fun value => if_neg (by rw [hminify]; exact Bool.false_ne_true)
    rw [heq]
    cases fallback <;> simp only [unsigned, unsignedOption, Option.map_none, Option.map_some]

/-! ### The same but for colours -/

mutual

theorem recolors_unsigned_recolored (value : Value) : value.Recolors value.unsigned.recolored := by
  cases value with
  | color c =>
    cases c with
    | hex digits rgba =>
      simp only [unsigned, recolored]
      have hhex := @Recolors.hex digits _ rgba.isLiteral_shortest
      rwa [rgba.rgba_shortest] at hhex
    | _ => exact .same (by simp only [unsigned, recolored, Value.same, beq_self_eq_true])
  | colorFunction name arguments rgba =>
    rw [unsigned, recolored]
    cases hplain : rgba.filter Rgba.isPlain with
    | none => exact .colorFunction name rgba (recolorsAll_unsigned_recolored arguments)
    | some plain =>
      obtain ⟨rfl, -⟩ := Option.filter_eq_some_iff.1 hplain
      have hfunctional := @Recolors.functional name arguments _ plain.isLiteral_shortest
      rwa [plain.rgba_shortest] at hfunctional
  | function name arguments =>
    rw [unsigned, recolored]
    exact .function name (recolorsAll_unsigned_recolored arguments)
  | var name fallback =>
    rw [unsigned, recolored]
    exact .var name (recolorsOption_unsigned_recolored fallback)
  | list separator items =>
    rw [unsigned, recolored]
    exact .list separator (recolorsAll_unsigned_recolored items)
  | _ => exact .same (by simp only [unsigned, recolored, Value.same, beq_self_eq_true,
      Number.sameValue_unsigned, Bool.and_self])

theorem recolorsAll_unsigned_recolored (values : List Value) :
    List.Forall₂ Recolors values (recoloredAll (unsignedAll values)) := by
  cases values with
  | nil => exact .nil
  | cons value values =>
    exact .cons (recolors_unsigned_recolored value) (recolorsAll_unsigned_recolored values)

theorem recolorsOption_unsigned_recolored (value : Option Value) :
    Option.Rel Recolors value (recoloredOption (unsignedOption value)) := by
  cases value with
  | none => exact .none
  | some value => exact .some (recolors_unsigned_recolored value)

end

theorem keepsShape_recolored : KeepsShape recolored where
  list_eq separator items := by rw [recolored, recoloredAll_eq]
  sign_eq sign := by simp only [recolored]
  eq_list value separator items h := by
    cases value with
    | list separator' items' =>
      rw [recolored] at h
      exact ⟨items', by rw [(list.inj h).1]⟩
    | colorFunction name arguments rgba =>
      rw [recolored] at h
      split at h <;> contradiction
    | color c =>
      cases c <;> simp [recolored] at h
    | _ =>
      simp only [recolored] at h
      contradiction
  eq_sign value sign h := by
    cases value with
    | delimiter sign' => simpa only [recolored] using h
    | colorFunction name arguments rgba =>
      rw [recolored] at h
      split at h <;> contradiction
    | color c =>
      cases c <;> simp [recolored] at h
    | _ =>
      simp only [recolored] at h
      contradiction

theorem KeepsShape.comp {m m' : Value → Value} (h : KeepsShape m) (h' : KeepsShape m') :
    KeepsShape fun value => m' (m value) where
  list_eq separator items := by rw [h.list_eq, h'.list_eq, List.map_map]; rfl
  sign_eq sign := by rw [h.sign_eq, h'.sign_eq]
  eq_list value separator items heq := by
    obtain ⟨items', hitems⟩ := h'.eq_list _ separator items heq
    exact h.eq_list value separator items' hitems
  eq_sign value sign heq := h.eq_sign value sign (h'.eq_sign _ sign heq)

theorem keepsShape_reread (style : Style) : KeepsShape (reread style) := by
  cases hminify : style.minify with
  | true =>
    have heq : reread style = fun value => value.unsigned.recolored :=
      funext fun value => if_pos hminify
    rw [heq]
    exact keepsShape_unsigned.comp keepsShape_recolored
  | false =>
    have heq : reread style = unsigned :=
      funext fun value => if_neg (by rw [hminify]; exact Bool.false_ne_true)
    rw [heq]
    exact keepsShape_unsigned

/-- A sign stays one, and nothing becomes one. -/
theorem KeepsShape.isTight_eq {m : Value → Value} (h : KeepsShape m) (value : Value) :
    (m value).isTight = value.isTight := by
  by_cases hsign : ∃ sign, value = delimiter sign
  · obtain ⟨sign, rfl⟩ := hsign
    rw [h.sign_eq]
  · have hnone : ∀ {value : Value}, (¬∃ sign, value = delimiter sign) → value.isTight = false := by
      intro value hvalue
      cases value with
      | delimiter sign => exact absurd ⟨sign, rfl⟩ hvalue
      | _ => rfl
    rw [hnone hsign, hnone]
    rintro ⟨sign, heq⟩
    exact hsign ⟨sign, h.eq_sign value sign heq⟩

/-! ### Colours -/

open ColorFunction

/-- What is recolored has no number in it that it did not have, and loses none. -/
theorem recolored_cases (value : Value) :
    value.recolored = value ∨
      ∀ value' ∈ [value, value.recolored], rgbByte? value' = none ∧ alphaByte? value' = none ∧
        fraction? value' = none ∧ hue? value' = none := by
  cases value with
  | color c => exact .inr (by cases c <;> simp [recolored, rgbByte?, alphaByte?, fraction?, hue?])
  | colorFunction name arguments rgba =>
    right
    rw [recolored]
    split <;> simp [rgbByte?, alphaByte?, fraction?, hue?]
  | function => exact .inr (by simp [recolored, rgbByte?, alphaByte?, fraction?, hue?])
  | var => exact .inr (by simp [recolored, rgbByte?, alphaByte?, fraction?, hue?])
  | list => exact .inr (by simp [recolored, rgbByte?, alphaByte?, fraction?, hue?])
  | _ => exact .inl (by simp only [recolored])

theorem resolve?_recolored (name : Text) (arguments : List Value) :
    resolve? name (arguments.map recolored) = resolve? name arguments := by
  have hchannel : ∀ {α : Type} {channel : Value → Option α},
      (∀ value, value.recolored = value ∨
        ∀ value' ∈ [value, value.recolored], channel value' = none) →
        ∀ value, channel value.recolored = channel value := by
    intro α channel hcases value
    obtain heq | hnone := hcases value
    · rw [heq]
    · rw [hnone value (by simp), hnone value.recolored (by simp)]
  refine keepsShape_recolored.resolve?_map (hchannel fun value => ?_) (hchannel fun value => ?_)
    (hchannel fun value => ?_) (hchannel fun value => ?_) name arguments
  · exact value.recolored_cases.imp_right fun h value' hmem => (h value' hmem).1
  · exact value.recolored_cases.imp_right fun h value' hmem => (h value' hmem).2.1
  · exact value.recolored_cases.imp_right fun h value' hmem => (h value' hmem).2.2.1
  · exact value.recolored_cases.imp_right fun h value' hmem => (h value' hmem).2.2.2

theorem recolored_call (name : Text) (arguments : List Value) :
    (call name arguments).recolored =
      if ColorFunction.isName name then
        match (resolve? name arguments).filter Rgba.isPlain with
        | some rgba => color rgba.shortest
        | none => call name (arguments.map recolored)
      else call name (arguments.map recolored) := by
  unfold call
  cases hname : ColorFunction.isName name with
  | false =>
    simp only [Bool.false_eq_true, if_false]
    rw [recolored, recoloredAll_eq]
  | true =>
    simp only [if_true]
    rw [recolored, recoloredAll_eq, resolve?_recolored]

/-- Where output is minified, a colour function is written in the shortest form of a colour that is
opaque or wholly transparent. -/
theorem toText_call (style : Style) (name : Text) (arguments : List Value) :
    (call name arguments).toText style =
      if style.minify && ColorFunction.isName name then
        match (resolve? name arguments).filter Rgba.isPlain with
        | some rgba => rgba.shortestForm
        | none => name ++ '(' :: (commaText style arguments ++ [')'])
      else name ++ '(' :: (commaText style arguments ++ [')']) := by
  unfold call
  cases hname : ColorFunction.isName name with
  | false => simp [toText]
  | true =>
    cases hminify : style.minify with
    | false =>
      simp only [if_true, toText, hminify]
      split <;> simp
    | true =>
      simp only [if_true, toText, hminify]
      cases hrgba : resolve? name arguments with
      | none => simp
      | some rgba => cases hplain : rgba.isPlain <;> simp [Option.filter, hplain]

/-- A function is written as a call, or, where output is minified, in the shortest form of a colour;
and it is read back as what is written. -/
theorem call_cases (style : Style) (name : Text) (arguments : List Value) :
    (style.minify = true ∧ ∃ rgba : Rgba, (call name arguments).toText style = rgba.shortestForm ∧
      (call name arguments).reread style = color rgba.shortest) ∨
    ((call name arguments).toText style = name ++ '(' :: (commaText style arguments ++ [')']) ∧
      (call name arguments).reread style = call name (arguments.map (reread style))) := by
  cases hminify : style.minify with
  | false =>
    have heq : reread style = unsigned :=
      funext fun value => if_neg (by rw [hminify]; exact Bool.false_ne_true)
    right
    rw [toText_call, hminify, heq, unsigned_call]
    exact ⟨rfl, rfl⟩
  | true =>
    have heq : reread style = fun value => value.unsigned.recolored :=
      funext fun value => if_pos hminify
    simp only [heq, toText_call, hminify, unsigned_call, recolored_call, resolve?_unsigned,
      List.map_map, Bool.true_and]
    split
    · split
      · exact .inl ⟨trivial, _, rfl, rfl⟩
      · exact .inr ⟨rfl, rfl⟩
    · exact .inr ⟨rfl, rfl⟩

/-! ### The same text -/

theorem fallbackText_of_ne (style : Style) {value : Value} (h : value ≠ raw []) :
    fallbackText style (some value) = style.delim ',' ++ value.toText style := by
  rw [fallbackText]
  exact h

theorem number_unsigned (style : Style) (x : Number) :
    style.number x.unsigned = style.number x := by
  unfold Number.unsigned
  split
  · rename_i hunits
    have hzero : Number.zero.units = 0 := by decide
    simp only [Style.number, hunits, hzero, if_true]
  · rfl

theorem isTight_unsigned_recolored (value : Value) :
    value.unsigned.recolored.isTight = value.isTight :=
  (keepsShape_unsigned.comp keepsShape_recolored).isTight_eq value

theorem unsigned_recolored_ne_raw {value : Value} (h : value ≠ raw []) :
    value.unsigned.recolored ≠ raw [] := by
  cases value with
  | color c => cases c <;> simp [unsigned, recolored]
  | colorFunction name arguments rgba =>
    rw [unsigned, recolored]
    split <;> exact Value.noConfusion
  | raw text => simpa only [unsigned, recolored] using h
  | _ => simp only [unsigned, recolored]; exact Value.noConfusion

mutual

theorem toText_unsigned_recolored (value : Value) :
    value.unsigned.recolored.toText .minified = value.toText .minified := by
  cases value with
  | number x => simp only [unsigned, recolored, toText, number_unsigned]
  | percentage x => simp only [unsigned, recolored, toText, number_unsigned]
  | dimension x unit => simp only [unsigned, recolored, toText, number_unsigned]
  | color c =>
    cases c with
    | hex digits rgba =>
      simp only [unsigned, recolored, toText]
      exact rgba.toText_shortest
    | _ => simp only [unsigned, recolored]
  | colorFunction name arguments rgba =>
    have hall := commaText_unsigned_recolored arguments
    rw [unsigned, recolored]
    cases rgba with
    | none => simp only [Option.filter, toText, hall]
    | some rgba =>
      cases hplain : rgba.isPlain with
      | false =>
        simp only [Option.filter, hplain, toText, hall, Bool.false_eq_true, if_false,
          Bool.and_false]
      | true =>
        simp only [Option.filter, hplain, toText, if_true]
        exact rgba.toText_shortest
  | function name arguments =>
    simp only [unsigned, recolored, toText, commaText_unsigned_recolored arguments]
  | var name fallback =>
    simp only [unsigned, recolored, toText, fallbackText_unsigned_recolored fallback]
  | list separator items =>
    cases separator with
    | comma => simp only [unsigned, recolored, toText, commaText_unsigned_recolored items]
    | space => simp only [unsigned, recolored, toText, spaceText_unsigned_recolored items]
  | _ => simp only [unsigned, recolored]

theorem commaText_unsigned_recolored (values : List Value) :
    commaText .minified (recoloredAll (unsignedAll values)) = commaText .minified values := by
  match values with
  | [] => rfl
  | [value] => simp only [unsignedAll, recoloredAll, commaText, toText_unsigned_recolored value]
  | value :: next :: values =>
    have hmore := commaText_unsigned_recolored (next :: values)
    simp only [unsignedAll, recoloredAll] at hmore ⊢
    simp only [commaText, toText_unsigned_recolored value, hmore]

theorem spaceText_unsigned_recolored (items : List Value) :
    spaceText .minified (recoloredAll (unsignedAll items)) = spaceText .minified items := by
  match items with
  | [] => rfl
  | [value] => simp only [unsignedAll, recoloredAll, spaceText, toText_unsigned_recolored value]
  | value :: next :: items =>
    have hmore := spaceText_unsigned_recolored (next :: items)
    simp only [unsignedAll, recoloredAll] at hmore ⊢
    simp only [spaceText, spaceBetween, isTight_unsigned_recolored,
      toText_unsigned_recolored value, hmore]

theorem fallbackText_unsigned_recolored (fallback : Option Value) :
    fallbackText .minified (recoloredOption (unsignedOption fallback)) =
      fallbackText .minified fallback := by
  match fallback with
  | none => rfl
  | some value =>
    simp only [unsignedOption, recoloredOption]
    by_cases hraw : value = raw []
    · rw [hraw]
      simp only [unsigned, recolored]
    · rw [fallbackText_of_ne _ hraw, fallbackText_of_ne _ (unsigned_recolored_ne_raw hraw),
        toText_unsigned_recolored value]

end

end Value

end Css
