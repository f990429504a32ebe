import Css.Value.Parser
import Mathlib.Data.List.Forall2
import Mathlib.Data.Option.Basic

/-!
# Raw texts of values

A value keeps source text where it has no structure of its own: as a whole, or in what stands in for
a custom property. `Value.mapRaw` changes these texts and nothing else, and what is built of values
does not depend on them.
-/

namespace Css

namespace Value

mutual

def mapRaw (f : Text → Text) : Value → Value
  | colorFunction name arguments rgba => colorFunction name (mapRawAll f arguments) rgba
  | function name arguments => function name (mapRawAll f arguments)
  | var name fallback => var name (mapRawOption f fallback)
  | list separator items => list separator (mapRawAll f items)
  | raw text => raw (f text)
  | value => value

def mapRawAll (f : Text → Text) : List Value → List Value
  | [] => []
  | value :: values => mapRaw f value :: mapRawAll f values

def mapRawOption (f : Text → Text) : Option Value → Option Value
  | none => none
  | some value => some (mapRaw f value)

end

variable (f : Text → Text)

theorem mapRawAll_eq (values : List Value) : mapRawAll f values = values.map (mapRaw f) := by
  induction values with
  | nil => rfl
  | cons value values ih => rw [mapRawAll, ih, List.map_cons]

mutual

theorem mapRaw_id (value : Value) : mapRaw id value = value := by
  cases value <;> simp only [mapRaw, mapRawAll_id, mapRawOption_id, id_eq]

theorem mapRawAll_id (values : List Value) : mapRawAll id values = values := by
  cases values with
  | nil => rfl
  | cons value values => rw [mapRawAll, mapRaw_id value, mapRawAll_id values]

theorem mapRawOption_id (value : Option Value) : mapRawOption id value = value := by
  cases value with
  | none => rfl
  | some value => rw [mapRawOption, mapRaw_id value]

end

inductive EqUpTo (alike : Text → Text → Prop) : Value → Value → Prop
  | refl (value : Value) : EqUpTo alike value value
  | raw {text text' : Text} (h : alike text text') : EqUpTo alike (raw text) (raw text')
  | colorFunction (name : Text) {arguments arguments' : List Value} (rgba : Option Rgba)
      (h : List.Forall₂ (EqUpTo alike) arguments arguments') :
    EqUpTo alike (colorFunction name arguments rgba) (colorFunction name arguments' rgba)
  | function (name : Text) {arguments arguments' : List Value}
      (h : List.Forall₂ (EqUpTo alike) arguments arguments') :
    EqUpTo alike (function name arguments) (function name arguments')
  | var (name : Text) {fallback fallback' : Option Value}
      (h : Option.Rel (EqUpTo alike) fallback fallback') :
    EqUpTo alike (var name fallback) (var name fallback')
  | list (separator : Separator) {items items' : List Value}
      (h : List.Forall₂ (EqUpTo alike) items items') :
    EqUpTo alike (list separator items) (list separator items')

section EqUpTo

variable {f} {alike : Text → Text → Prop}

mutual

/-- Values that become the same once their raw texts are replaced are equal up to these. -/
theorem eqUpTo_of_mapRaw (halike : ∀ text text', f text = f text' → alike text text')
    {value value' : Value} (h : value.mapRaw f = value'.mapRaw f) :
    value.EqUpTo alike value' := by
  cases value with
  | raw text =>
    cases value' <;> simp only [mapRaw, reduceCtorEq, raw.injEq] at h
    exact .raw (halike _ _ h)
  | colorFunction name arguments rgba =>
    cases value' <;> simp only [mapRaw, reduceCtorEq, colorFunction.injEq] at h
    obtain ⟨rfl, harguments, rfl⟩ := h
    exact .colorFunction name rgba (eqUpTo_of_mapRawAll halike harguments)
  | function name arguments =>
    cases value' <;> simp only [mapRaw, reduceCtorEq, function.injEq] at h
    obtain ⟨rfl, harguments⟩ := h
    exact .function name (eqUpTo_of_mapRawAll halike harguments)
  | var name fallback =>
    cases value' <;> simp only [mapRaw, reduceCtorEq, var.injEq] at h
    obtain ⟨rfl, hfallback⟩ := h
    exact .var name (eqUpTo_of_mapRawOption halike hfallback)
  | list separator items =>
    cases value' <;> simp only [mapRaw, reduceCtorEq, list.injEq] at h
    obtain ⟨rfl, hitems⟩ := h
    exact .list separator (eqUpTo_of_mapRawAll halike hitems)
  | _ =>
    cases value' <;> simp only [mapRaw, reduceCtorEq] at h
    exact h ▸ .refl _

theorem eqUpTo_of_mapRawAll (halike : ∀ text text', f text = f text' → alike text text')
    {values values' : List Value} (h : mapRawAll f values = mapRawAll f values') :
    List.Forall₂ (EqUpTo alike) values values' := by
  cases values with
  | nil =>
    cases values' with
    | nil => exact .nil
    | cons value' values' => contradiction
  | cons value values =>
    cases values' with
    | nil => contradiction
    | cons value' values' =>
      obtain ⟨hvalue, hvalues⟩ := List.cons.inj h
      exact .cons (eqUpTo_of_mapRaw halike hvalue) (eqUpTo_of_mapRawAll halike hvalues)

theorem eqUpTo_of_mapRawOption (halike : ∀ text text', f text = f text' → alike text text')
    {value value' : Option Value} (h : mapRawOption f value = mapRawOption f value') :
    Option.Rel (EqUpTo alike) value value' := by
  cases value with
  | none =>
    cases value' with
    | none => exact .none
    | some value' => contradiction
  | some value =>
    cases value' with
    | none => contradiction
    | some value' => exact .some (eqUpTo_of_mapRaw halike (Option.some.inj h))

end

end EqUpTo

/-! ### Building values -/

structure KeepsShape (m : Value → Value) : Prop where
  list_eq : ∀ separator items, m (list separator items) = list separator (items.map m)
  sign_eq : ∀ sign, m (delimiter sign) = delimiter sign
  eq_list : ∀ value separator items, m value = list separator items →
    ∃ items', value = list separator items'
  eq_sign : ∀ value sign, m value = delimiter sign → value = delimiter sign

namespace KeepsShape

variable {m : Value → Value} (h : KeepsShape m)

include h

theorem spaceList_map (items : List Value) : m (spaceList items) = spaceList (items.map m) := by
  rcases items with _ | ⟨first, _ | ⟨second, items⟩⟩
  · exact h.list_eq .space []
  · rfl
  · exact h.list_eq .space (first :: second :: items)

theorem ofGroups_map (values : List Value) : m (ofGroups values) = ofGroups (values.map m) := by
  rcases values with _ | ⟨first, _ | ⟨second, values⟩⟩
  · exact h.list_eq .comma []
  · rfl
  · exact h.list_eq .comma (first :: second :: values)

end KeepsShape

theorem keepsShape_mapRaw : KeepsShape (mapRaw f) where
  list_eq separator items := by rw [mapRaw, mapRawAll_eq]
  sign_eq sign := by simp only [mapRaw]
  eq_list value separator items h := by
    cases value <;> simp only [mapRaw, reduceCtorEq, list.injEq] at h
    exact ⟨_, by rw [h.1]⟩
  eq_sign value sign h := by
    cases value <;> simp only [mapRaw, reduceCtorEq] at h
    exact h

theorem mapRaw_spaceList (items : List Value) :
    (spaceList items).mapRaw f = spaceList (items.map (mapRaw f)) :=
  (keepsShape_mapRaw f).spaceList_map items

theorem mapRaw_ofGroups (values : List Value) :
    (ofGroups values).mapRaw f = ofGroups (values.map (mapRaw f)) :=
  (keepsShape_mapRaw f).ofGroups_map values

/-! ### Colours -/

open ColorFunction

theorem rgbByte?_mapRaw (value : Value) : rgbByte? (value.mapRaw f) = rgbByte? value := by
  cases value <;> simp only [mapRaw, rgbByte?]

theorem alphaByte?_mapRaw (value : Value) : alphaByte? (value.mapRaw f) = alphaByte? value := by
  cases value <;> simp only [mapRaw, alphaByte?]

theorem fraction?_mapRaw (value : Value) : fraction? (value.mapRaw f) = fraction? value := by
  cases value <;> simp only [mapRaw, fraction?]

theorem hue?_mapRaw (value : Value) : hue? (value.mapRaw f) = hue? value := by
  cases value <;> simp only [mapRaw, hue?]

/-- The channels of a colour function are changed one by one. -/
theorem KeepsShape.channels?_map {m : Value → Value} (h : KeepsShape m) (arguments : List Value) :
    channels? (arguments.map m) =
      (channels? arguments).map fun channels =>
        ⟨m channels.first, m channels.second, m channels.third, channels.alpha.map m⟩ := by
  have hother : ∀ value, (∀ separator items, value ≠ list separator items) →
      channels? [value] = none := by
    intro value hvalue
    cases value with
    | list separator items => exact absurd rfl (hvalue separator items)
    | _ => rfl
  have hslash : ∀ x y z slash alpha : Value, slash ≠ .delimiter .slash →
      channels? [.list .space [x, y, z, slash, alpha]] = none := by
    intro x y z slash alpha hne
    cases slash with
    | delimiter sign =>
      cases sign with
      | slash => exact absurd rfl hne
      | _ => rfl
    | _ => rfl
  have hlist : ∀ separator items, channels? [m (list separator items)] =
      (channels? [list separator items]).map fun channels =>
        ⟨m channels.first, m channels.second, m channels.third, channels.alpha.map m⟩ := by
    intro separator items
    rw [h.list_eq]
    cases separator with
    | comma => rfl
    | space =>
      rcases items with _ | ⟨x, _ | ⟨y, _ | ⟨z, _ | ⟨slash, _ | ⟨alpha, _ | ⟨more, items⟩⟩⟩⟩⟩⟩
      · rfl
      · rfl
      · rfl
      · rfl
      · simp [channels?]
      · by_cases hne : slash = .delimiter .slash
        · rw [hne]
          simp only [List.map_cons, List.map_nil, h.sign_eq]
          rfl
        · simp only [List.map_cons, List.map_nil]
          rw [hslash _ _ _ _ _ hne, hslash _ _ _ _ _ fun heq => hne (h.eq_sign _ _ heq)]
          rfl
      · simp [channels?]
  rcases arguments with _ | ⟨x, _ | ⟨y, _ | ⟨z, _ | ⟨alpha, _ | ⟨more, arguments⟩⟩⟩⟩⟩
  · rfl
  · by_cases hx : ∃ separator items, x = list separator items
    · obtain ⟨separator, items, rfl⟩ := hx
      exact hlist separator items
    · have hx' : ∀ separator items, x ≠ list separator items :=
        fun separator items heq => hx ⟨separator, items, heq⟩
      rw [List.map_singleton, hother x hx', hother (m x)]
      · rfl
      · intro separator items heq
        obtain ⟨items', rfl⟩ := h.eq_list x separator items heq
        exact hx' separator items' rfl
  all_goals rfl

/-- A colour function resolves to the same colour where each argument gives the same channel. -/
theorem KeepsShape.resolve?_map {m : Value → Value} (h : KeepsShape m)
    (hrgb : ∀ value, rgbByte? (m value) = rgbByte? value)
    (halpha : ∀ value, alphaByte? (m value) = alphaByte? value)
    (hfraction : ∀ value, fraction? (m value) = fraction? value)
    (hhue : ∀ value, hue? (m value) = hue? value) (name : Text) (arguments : List Value) :
    resolve? name (arguments.map m) = resolve? name arguments := by
  unfold resolve?
  rw [h.channels?_map]
  cases channels? arguments with
  | none => rfl
  | some channels =>
    rcases channels with ⟨first, second, third, alpha⟩
    rw [Option.map_some, Option.bind_eq_bind, Option.bind_eq_bind, Option.bind_some,
      Option.bind_some, hrgb, hrgb, hrgb, hhue, hfraction, hfraction]
    cases alpha with
    | none => rfl
    | some alpha => exact congrArg (Option.bind · _) (halpha alpha)

theorem resolve?_mapRaw (name : Text) (arguments : List Value) :
    resolve? name (arguments.map (mapRaw f)) = resolve? name arguments :=
  (keepsShape_mapRaw f).resolve?_map (rgbByte?_mapRaw f) (alphaByte?_mapRaw f)
    (fraction?_mapRaw f) (hue?_mapRaw f) name arguments

theorem mapRaw_call (name : Text) (arguments : List Value) :
    (call name arguments).mapRaw f = call name (arguments.map (mapRaw f)) := by
  unfold call
  split
  · rw [mapRaw, mapRawAll_eq, resolve?_mapRaw]
  · rw [mapRaw, mapRawAll_eq]

end Value

end Css
