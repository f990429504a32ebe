import Css.Proofs.TextProperty.Decoration
import Css.Stylesheet.Minify

/-!
# Decorations and their colours

A decoration may name a colour, and minification has the colour computed. The value is still a
decoration then, with the same lines and the same other parts
(`TextDecoration.ofValue?_computeColors`).
-/

namespace Css

namespace Value

theorem computeAll_eq (values : List Value) : computeAll values = values.map computeColors := by
  induction values with
  | nil => rfl
  | cons value values ih => rw [computeAll, ih, List.map_cons]

mutual

/-- No colour name is left to be computed. -/
theorem computeColors_computeColors (value : Value) :
    value.computeColors.computeColors = value.computeColors := by
  cases value with
  | color c => cases c <;> rfl
  | list separator items => simp only [computeColors, computeAll_computeAll items]
  | function name arguments => simp only [computeColors, computeAll_computeAll arguments]
  | var name fallback => simp only [computeColors, computeOption_computeOption fallback]
  | _ => rfl

theorem computeAll_computeAll (values : List Value) :
    computeAll (computeAll values) = computeAll values := by
  cases values with
  | nil => rfl
  | cons value values =>
    simp only [computeAll, computeColors_computeColors value, computeAll_computeAll values]

theorem computeOption_computeOption (value : Option Value) :
    computeOption (computeOption value) = computeOption value := by
  cases value with
  | none => rfl
  | some value => simp only [computeOption, computeColors_computeColors value]

end

@[simp]
theorem ident?_computeColors (value : Value) : value.computeColors.ident? = value.ident? := by
  cases value with
  | color c => cases c <;> rfl
  | _ => rfl

@[simp] theorem isIdent_computeColors (value : Value) (keyword : String) :
    value.computeColors.isIdent keyword = value.isIdent keyword := by
  cases value with
  | color c => cases c <;> rfl
  | _ => rfl

@[simp] theorem isLengthOrPercentage_computeColors (value : Value) :
    value.computeColors.isLengthOrPercentage = value.isLengthOrPercentage := by
  cases value with
  | color c => cases c <;> rfl
  | _ => rfl

@[simp]
theorem isColor_computeColors (value : Value) : value.computeColors.isColor = value.isColor := by
  cases value with
  | color c => cases c <;> rfl
  | _ => rfl

theorem spaceItems_computeColors (value : Value) :
    value.computeColors.spaceItems = value.spaceItems.map computeColors := by
  cases value with
  | color c => cases c <;> rfl
  | list separator items =>
    cases separator with
    | space => simp only [computeColors, computeAll_eq, spaceItems]
    | comma => simp only [computeColors, spaceItems, List.map_cons, List.map_nil]
  | _ => rfl

theorem computeColors_spaceList (items : List Value) :
    (spaceList items).computeColors = spaceList (items.map computeColors) := by
  match items with
  | [] => rfl
  | [_] => rfl
  | _ :: _ :: _ => simp only [spaceList, computeColors, computeAll_eq, List.map_cons]

end Value

/-! ### Lines -/

namespace DecorationLine

open Value (computeColors)

theorem soleOf?_computeColors (item : Value) : soleOf? item.computeColors = soleOf? item := by
  rw [soleOf?, Value.ident?_computeColors, soleOf?]

theorem lineOf?_computeColors (item : Value) : lineOf? item.computeColors = lineOf? item := by
  rw [lineOf?, Value.ident?_computeColors, lineOf?]

theorem cutLines?_computeColors (set : LineSet) (items : List Value) :
    cutLines? set (items.map computeColors) =
      (cutLines? set items).map fun (set, rest) => (set, rest.map computeColors) := by
  induction items generalizing set with
  | nil => rfl
  | cons item items ih =>
    simp only [List.map_cons, cutLines?, soleOf?_computeColors, lineOf?_computeColors, ih]
    cases soleOf? item with
    | some _ => rfl
    | none =>
      cases lineOf? item with
      | none => rfl
      | some line => cases hcontains : set.contains line <;> simp [hcontains]

theorem cut?_computeColors (items : List Value) :
    cut? (items.map computeColors) =
      (cut? items).map fun (line, rest) => (line, rest.map computeColors) := by
  cases items with
  | nil => rfl
  | cons item items =>
    have hhead : (items.map computeColors).head? = items.head?.map computeColors := by
      cases items <;> rfl
    simp only [List.map_cons, cut?, soleOf?_computeColors, lineOf?_computeColors, hhead,
      cutLines?_computeColors, Option.any_map, Function.comp_def, Option.map_map]
    cases soleOf? item with
    | some sole =>
      cases items.head?.any fun next => (soleOf? next).isSome || (lineOf? next).isSome <;> rfl
    | none =>
      cases lineOf? item with
      | none => rfl
      | some line => simp only [Option.map_map, Function.comp_def]

theorem map_computeColors_items (line : DecorationLine) :
    line.items.map computeColors = line.items := by
  have hmembers : ∀ lines : List Line,
      (lines.map Value.ofMember).map computeColors = lines.map Value.ofMember := fun lines => by
    rw [List.map_map]
    rfl
  unfold items
  split
  · split
    · rfl
    · exact hmembers _
  · rfl
  · rfl

theorem computeColors_toValue (line : DecorationLine) :
    line.toValue.computeColors = line.toValue := by
  rw [toValue, Value.computeColors_spaceList, map_computeColors_items]

end DecorationLine

/-! ### The other parts -/

namespace DecorationThickness

def computeColors : DecorationThickness → DecorationThickness
  | auto => auto
  | fromFont => fromFont
  | length value => length value.computeColors

theorem ofItem?_computeColors (item : Value) :
    ofItem? item.computeColors = (ofItem? item).map computeColors := by
  simp only [ofItem?, Value.isIdent_computeColors, Value.isLengthOrPercentage_computeColors]
  cases item.isIdent "auto" <;> cases item.isIdent "from-font" <;>
    cases item.isLengthOrPercentage <;> rfl

theorem isAuto_computeColors (thickness : DecorationThickness) :
    thickness.computeColors.isAuto = thickness.isAuto := by
  cases thickness <;> rfl

theorem toValue_computeColors (thickness : DecorationThickness) :
    thickness.computeColors.toValue = thickness.toValue.computeColors := by
  cases thickness <;> rfl

end DecorationThickness

namespace TextDecoration

namespace Role

def computeColors : Role → Role
  | thickness value => thickness value.computeColors
  | style value => style value
  | color value => color value.computeColors

end Role

theorem role?_computeColors (item : Value) :
    role? item.computeColors = (role? item).map Role.computeColors := by
  simp only [role?, Value.ident?_computeColors, Value.isColor_computeColors,
    DecorationThickness.ofItem?_computeColors]
  cases DecorationThickness.ofItem? item with
  | some thickness => rfl
  | none =>
    cases item.ident?.bind (Keyword.ofName? (α := DecorationStyle)) with
    | some style => rfl
    | none => cases item.isColor <;> rfl

namespace Parts

def computeColors (parts : Parts) : Parts where
  line := parts.line
  thickness := parts.thickness.map DecorationThickness.computeColors
  style := parts.style
  color := parts.color.map Value.computeColors

theorem add?_computeColors (parts : Parts) (item : Value) :
    parts.computeColors.add? item.computeColors = (parts.add? item).map computeColors := by
  rw [add?_eq, add?_eq, role?_computeColors]
  cases role? item with
  | none => rfl
  | some role =>
    rcases parts with ⟨line, thickness, style, color⟩
    cases role <;> cases thickness <;> cases style <;> cases color <;> rfl

theorem cutLine?_computeColors (parts : Parts) (items : List Value) :
    parts.computeColors.cutLine? (items.map Value.computeColors) =
      (parts.cutLine? items).map fun (line, rest) => (line, rest.map Value.computeColors) := by
  have hline : parts.computeColors.line = parts.line := rfl
  simp only [cutLine?, hline, DecorationLine.cut?_computeColors]
  split <;> rfl

theorem addAll?_computeColors (parts : Parts) (items : List Value) :
    parts.computeColors.addAll? (items.map Value.computeColors) =
      (parts.addAll? items).map computeColors := by
  fun_induction addAll? parts items with
  | case1 parts => rw [List.map_nil, addAll?, Option.map_some]
  | case2 parts item items line rest hcut _ ih =>
    have hcut' := cutLine?_computeColors parts (item :: items)
    rw [hcut, Option.map_some, List.map_cons] at hcut'
    rw [List.map_cons, addAll?]
    split
    case h_1 heq =>
      obtain ⟨⟩ := hcut'.symm.trans heq
      exact ih
    case h_2 heq => rw [heq] at hcut'; contradiction
  | case3 parts item items hcut ih =>
    have hcut' := cutLine?_computeColors parts (item :: items)
    rw [hcut, Option.map_none, List.map_cons] at hcut'
    rw [List.map_cons, addAll?]
    split
    case h_1 heq => rw [heq] at hcut'; contradiction
    case h_2 =>
      rw [add?_computeColors]
      cases parts.add? item with
      | none => rfl
      | some next => exact ih next

end Parts

def computeColors (decoration : TextDecoration) : TextDecoration where
  line := decoration.line
  thickness := decoration.thickness.computeColors
  style := decoration.style
  color := decoration.color.map Value.computeColors

theorem ofParts_computeColors (parts : Parts) :
    ofParts parts.computeColors = (ofParts parts).computeColors := by
  have hthickness : (parts.thickness.map DecorationThickness.computeColors).getD .auto =
      (parts.thickness.getD .auto).computeColors := by
    cases parts.thickness <;> rfl
  have hcolor : (parts.color.map Value.computeColors).filter
        (fun color => !color.isIdent "currentcolor") =
      (parts.color.filter fun color => !color.isIdent "currentcolor").map Value.computeColors := by
    simp only [Option.filter_map, Function.comp_def, Value.isIdent_computeColors]
  simp only [ofParts, Parts.computeColors, computeColors, hthickness, hcolor]

/-- A decoration whose colour is computed is read as a decoration with this colour. -/
theorem ofValue?_computeColors (value : Value) :
    ofValue? value.computeColors = (ofValue? value).map computeColors := by
  rw [ofValue?_eq, ofValue?_eq, Value.spaceItems_computeColors, Option.map_map]
  have hread := Parts.addAll?_computeColors ⟨none, none, none, none⟩ value.spaceItems
  rw [show (⟨none, none, none, none⟩ : Parts).computeColors = ⟨none, none, none, none⟩ from rfl]
    at hread
  rw [hread, Option.map_map]
  exact congrArg (Option.map · _) (funext ofParts_computeColors)

theorem toValue_computeColors (decoration : TextDecoration) :
    decoration.computeColors.toValue = decoration.toValue.computeColors := by
  rcases decoration with ⟨line, thickness, style, color⟩
  unfold toValue computeColors
  dsimp only
  split
  case isTrue => exact (DecorationLine.computeColors_toValue line).symm
  case isFalse =>
    have hstyle : (Value.ofMember style).computeColors = Value.ofMember style := rfl
    rw [Value.computeColors_spaceList]
    simp only [List.map_append, DecorationLine.map_computeColors_items, apply_ite (List.map _),
      DecorationThickness.isAuto_computeColors, DecorationThickness.toValue_computeColors, hstyle,
      List.map_nil, List.map_cons, Option.toList_map]

theorem canonical?_computeColors (value : Value) :
    TextProperty.textDecoration.canonical? value.computeColors =
      (TextProperty.textDecoration.canonical? value).map Value.computeColors := by
  simp only [TextProperty.canonical?, ofValue?_computeColors, Option.map_map, Function.comp_def,
    toValue_computeColors]

end TextDecoration

end Css
