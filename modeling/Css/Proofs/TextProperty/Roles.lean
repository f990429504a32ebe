import Css.Proofs.TextProperty.Keywords
import Mathlib.Data.List.Basic
import Mathlib.Data.List.Perm.Basic

/-!
# The roles of items

An item of a text property that combines several parts plays one role, whatever stands around it
(`add?_eq`): no word is a length, and no two keywords are spelled alike. Each role is played once at
most, so it says nothing in which order the items come (`put?_comm`).
-/

namespace Css

namespace Value

def word? (value : Value) : Option Text := value.ident?.map Text.lower

variable {value : Value}

theorem isIdent_iff {keyword : String} :
    value.isIdent keyword = true ↔ value.word? = some keyword.toList := by
  cases value with
  | ident name => simp [isIdent, word?, ident?, Text.isKeyword]
  | _ => simp [isIdent, word?, ident?]

theorem member_eq_some_iff {α : Type} [Keyword α] [LawfulKeyword α] {member : α} :
    value.ident?.bind Keyword.ofName? = some member ↔
      value.word? = some (Keyword.spelling member).toList := by
  cases value with
  | ident name => simp [ident?, word?, Keyword.ofName?_eq_some_iff]
  | _ => simp [ident?, word?]

theorem isIdent_of_word? {word : Text} {keyword : String} (h : value.word? = some word)
    (hne : word ≠ keyword.toList) : value.isIdent keyword = false := by
  rw [← Bool.not_eq_true, isIdent_iff, h, Option.some.injEq]
  exact hne

/-- A value spells one keyword at most. -/
theorem isIdent_eq_false {keyword other : String} (h : value.isIdent keyword = true)
    (hne : keyword.toList ≠ other.toList) : value.isIdent other = false :=
  isIdent_of_word? (isIdent_iff.1 h) hne

theorem member_eq_none {α : Type} [Keyword α] [LawfulKeyword α] {word : Text}
    (h : value.word? = some word) (hne : ∀ member : α, word ≠ (Keyword.spelling member).toList) :
    value.ident?.bind (Keyword.ofName? (α := α)) = none :=
  Option.eq_none_iff_forall_ne_some.2 fun member hmember =>
    hne member (Option.some.inj (h.symm.trans (member_eq_some_iff.1 hmember)))

theorem word?_of_isLengthOrPercentage (h : value.isLengthOrPercentage = true) :
    value.word? = none := by
  cases value <;> first | rfl | contradiction

theorem isIdent_of_word?_eq_none (h : value.word? = none) (keyword : String) :
    value.isIdent keyword = false := by
  rw [← Bool.not_eq_true, isIdent_iff, h]
  exact nofun

/-! ### Lists separated by spaces -/

def IsItem (value : Value) : Prop := value.spaceItems = [value]

theorem isItem_ofSpelling (spelling : String) : (ofSpelling spelling).IsItem := rfl

theorem isItem_of_isLengthOrPercentage (h : value.isLengthOrPercentage = true) : value.IsItem := by
  cases value <;> first | rfl | contradiction

/-- What is written as a list has the items of the list. -/
theorem spaceItems_spaceList {items : List Value} (h : ∀ item ∈ items, item.IsItem) :
    (spaceList items).spaceItems = items := by
  match items with
  | [] => rfl
  | [item] => exact h item (List.mem_singleton_self item)
  | _ :: _ :: _ => rfl

end Value

/-- Where two items can be added in either order, a whole list can be added in any order. -/
theorem foldlM_perm {α β : Type} {add? : β → α → Option β}
    (hcomm : ∀ b x y, (add? b x).bind (add? · y) = (add? b y).bind (add? · x)) {xs ys : List α}
    (h : xs.Perm ys) (b : β) : xs.foldlM add? b = ys.foldlM add? b := by
  have hright : RightCommutative fun (found : Option β) x => found >>= (add? · x) := by
    constructor
    intro found x y
    cases found with
    | none => rfl
    | some b => exact hcomm b x y
  rw [List.foldlM_eq_foldl, List.foldlM_eq_foldl]
  exact h.foldl_eq _

/-- What each item preserves is preserved by a whole list. -/
theorem foldlM_invariant {α β : Type} {add? : β → α → Option β} (invariant : β → Prop)
    (hstep : ∀ b x b', add? b x = some b' → invariant b → invariant b') {xs : List α} {b b' : β}
    (h : xs.foldlM add? b = some b') (hb : invariant b) : invariant b' := by
  induction xs generalizing b with
  | nil => exact Option.some.inj h ▸ hb
  | cons x xs ih =>
    rw [List.foldlM_cons] at h
    obtain ⟨c, hadd, hrest⟩ := Option.bind_eq_some_iff.1 h
    exact ih hrest (hstep b x c hadd hb)

/-- Items whose roles can be played in either order can be added in either order. -/
theorem bind_role_comm {α β ρ : Type} {role? : α → Option ρ} {put? : β → ρ → Option β}
    (hcomm : ∀ b r s, (put? b r).bind (put? · s) = (put? b s).bind (put? · r)) (b : β) (x y : α) :
    ((role? x).bind (put? b)).bind (fun c => (role? y).bind (put? c)) =
      ((role? y).bind (put? b)).bind (fun c => (role? x).bind (put? c)) := by
  cases role? x with
  | none => simp
  | some r =>
    cases role? y with
    | none => simp
    | some s => exact hcomm b r s

/-! ### Values with one item -/

def single? : List Value → Option Value
  | [item] => some item
  | _ => none

theorem single?_perm {items items' : List Value} (h : items.Perm items') :
    single? items = single? items' := by
  match items, items', h with
  | [], items', h => rw [List.nil_perm.1 h]
  | [_], items', h => rw [List.singleton_perm.1 h]
  | _ :: _ :: _, [], h => exact absurd (List.perm_nil.1 h) (by simp)
  | _ :: _ :: _, [_], h => exact absurd (List.perm_singleton.1 h) (by simp)
  | _ :: _ :: _, _ :: _ :: _, _ => rfl

theorem bind_single? {α : Type} (items : List Value) (ofItem? : Value → Option α) :
    (single? items).bind ofItem? =
      match items with
      | [item] => ofItem? item
      | _ => none := by
  match items with
  | [] => rfl
  | [_] => rfl
  | _ :: _ :: _ => rfl

theorem Keyword.ofValue?_eq {α : Type} [Keyword α] (value : Value) :
    (ofValue? value : Option α) =
      (single? value.spaceItems).bind fun item => item.ident?.bind ofName? := by
  unfold ofValue? single?
  match value.spaceItems with
  | [] => rfl
  | [item] => cases item <;> rfl
  | item :: _ :: _ => cases item <;> rfl

def Spacing.ofItem? (item : Value) : Option Spacing :=
  if item.isIdent "normal" then some normal
  else if item.isLength then some (length item)
  else none

theorem Spacing.ofValue?_eq (value : Value) :
    ofValue? value = (single? value.spaceItems).bind ofItem? :=
  (bind_single? ..).symm

theorem DecorationThickness.ofValue?_eq (value : Value) :
    ofValue? value = (single? value.spaceItems).bind ofItem? :=
  (bind_single? ..).symm

/-! ### Transformations -/

namespace TextTransform

inductive Role where
  | letterCase (letterCase : TextCase)
  | fullWidth
  | fullSizeKana

def role? (item : Value) : Option Role :=
  match item.ident?.bind (Keyword.ofName? (α := TextCase)) with
  | some letterCase => some (.letterCase letterCase)
  | none =>
    if item.isIdent "full-width" then some .fullWidth
    else if item.isIdent "full-size-kana" then some .fullSizeKana
    else none

namespace Parts

def put? (parts : Parts) : Role → Option Parts
  | .letterCase letterCase =>
    if parts.letterCase.isNone then some { parts with letterCase := some letterCase } else none
  | .fullWidth => if !parts.fullWidth then some { parts with fullWidth := true } else none
  | .fullSizeKana =>
    if !parts.fullSizeKana then some { parts with fullSizeKana := true } else none

theorem put?_comm (parts : Parts) (r s : Role) :
    (parts.put? r).bind (·.put? s) = (parts.put? s).bind (·.put? r) := by
  rcases parts with ⟨letterCase, fullWidth, fullSizeKana⟩
  cases r <;> cases s <;> cases letterCase <;> cases fullWidth <;> cases fullSizeKana <;> rfl

theorem add?_eq (parts : Parts) (item : Value) :
    parts.add? item = (role? item).bind parts.put? := by
  cases item with
  | ident name =>
    have hmember : (Value.ident name).ident?.bind (Keyword.ofName? (α := TextCase)) =
        Keyword.ofName? name := rfl
    have hident : ∀ keyword, (Value.ident name).isIdent keyword = name.isKeyword keyword :=
      fun _ => rfl
    rw [role?, hmember]
    simp only [add?, ← hident]
    cases hcase : (Keyword.ofName? name : Option TextCase) with
    | some letterCase =>
      have hword : (Value.ident name).word? = some (Keyword.spelling letterCase).toList :=
        Value.member_eq_some_iff.1 hcase
      have hwidth : (Value.ident name).isIdent "full-width" = false :=
        Value.isIdent_of_word? hword (by cases letterCase <;> decide)
      have hkana : (Value.ident name).isIdent "full-size-kana" = false :=
        Value.isIdent_of_word? hword (by cases letterCase <;> decide)
      cases hletter : parts.letterCase <;> simp [hwidth, hkana, put?, hletter]
    | none =>
      by_cases hwidth : (Value.ident name).isIdent "full-width" = true
      · have hkana : (Value.ident name).isIdent "full-size-kana" = false :=
          Value.isIdent_eq_false hwidth (by decide)
        simp [hwidth, hkana, put?]
      by_cases hkana : (Value.ident name).isIdent "full-size-kana" = true
      · simp [hwidth, hkana, put?]
      · simp [hwidth, hkana]
  | _ => rfl

theorem add?_comm (parts : Parts) (x y : Value) :
    (parts.add? x).bind (·.add? y) = (parts.add? y).bind (·.add? x) := by
  simp only [add?_eq]
  exact bind_role_comm put?_comm parts x y

end Parts

end TextTransform

/-! ### Indentations -/

namespace TextIndent

inductive Role where
  | length (length : Value)
  | hanging
  | eachLine

def role? (item : Value) : Option Role :=
  if item.isLengthOrPercentage then some (.length item)
  else if item.isIdent "hanging" then some .hanging
  else if item.isIdent "each-line" then some .eachLine
  else none

namespace Parts

def put? (parts : Parts) : Role → Option Parts
  | .length length =>
    if parts.length.isNone then some { parts with length := some length } else none
  | .hanging => if !parts.hanging then some { parts with hanging := true } else none
  | .eachLine => if !parts.eachLine then some { parts with eachLine := true } else none

theorem put?_comm (parts : Parts) (r s : Role) :
    (parts.put? r).bind (·.put? s) = (parts.put? s).bind (·.put? r) := by
  rcases parts with ⟨length, hanging, eachLine⟩
  cases r <;> cases s <;> cases length <;> cases hanging <;> cases eachLine <;> rfl

theorem add?_eq (parts : Parts) (item : Value) :
    parts.add? item = (role? item).bind parts.put? := by
  unfold add? role?
  by_cases hlength : item.isLengthOrPercentage = true
  · have hnone := Value.isIdent_of_word?_eq_none (Value.word?_of_isLengthOrPercentage hlength)
    simp [hlength, hnone, put?]
  by_cases hhanging : item.isIdent "hanging" = true
  · have hline : item.isIdent "each-line" = false :=
      Value.isIdent_eq_false hhanging (by decide)
    simp [hlength, hhanging, hline, put?]
  by_cases hline : item.isIdent "each-line" = true
  · simp [hlength, hhanging, hline, put?]
  · simp [hlength, hhanging, hline]

theorem add?_comm (parts : Parts) (x y : Value) :
    (parts.add? x).bind (·.add? y) = (parts.add? y).bind (·.add? x) := by
  simp only [add?_eq]
  exact bind_role_comm put?_comm parts x y

end Parts

end TextIndent

/-! ### Decorations -/

namespace DecorationThickness

/-- A keyword for a thickness is no other word. -/
theorem ofItem?_eq_none {item : Value} {word : Text} (h : item.word? = some word)
    (hauto : word ≠ "auto".toList) (hfont : word ≠ "from-font".toList) : ofItem? item = none := by
  have hlength : item.isLengthOrPercentage = false :=
    Bool.eq_false_iff.2 fun hlength => by simp [Value.word?_of_isLengthOrPercentage hlength] at h
  simp [ofItem?, Value.isIdent_of_word? h hauto, Value.isIdent_of_word? h hfont, hlength]

/-- An item that gives a thickness is a length or one of two keywords. -/
theorem word?_of_ofItem? {item : Value} {thickness : DecorationThickness}
    (h : ofItem? item = some thickness) :
    item.word? = some "auto".toList ∨ item.word? = some "from-font".toList ∨
      item.isLengthOrPercentage = true := by
  unfold ofItem? at h
  split at h
  case isTrue hauto => exact .inl (Value.isIdent_iff.1 hauto)
  case isFalse =>
    split at h
    case isTrue hfont => exact .inr (.inl (Value.isIdent_iff.1 hfont))
    case isFalse =>
      split at h
      case isTrue hlength => exact .inr (.inr hlength)
      case isFalse => contradiction

end DecorationThickness

namespace Value

theorem isColor_of_word? {item : Value} {word : Text} (h : item.word? = some word)
    (hne : word ≠ "currentcolor".toList) : item.isColor = false := by
  cases item with
  | ident name => exact isIdent_of_word? h hne
  | _ => simp [word?, ident?] at h

end Value

namespace TextDecoration

inductive Role where
  | thickness (thickness : DecorationThickness)
  | style (style : DecorationStyle)
  | color (color : Value)

def role? (item : Value) : Option Role :=
  match DecorationThickness.ofItem? item,
    item.ident?.bind (Keyword.ofName? (α := DecorationStyle)) with
  | some thickness, _ => some (.thickness thickness)
  | none, some style => some (.style style)
  | none, none => if item.isColor then some (.color item) else none

namespace Parts

def put? (parts : Parts) : Role → Option Parts
  | .thickness thickness =>
    if parts.thickness.isNone then some { parts with thickness := some thickness } else none
  | .style style => if parts.style.isNone then some { parts with style := some style } else none
  | .color color => if parts.color.isNone then some { parts with color := some color } else none

theorem put?_comm (parts : Parts) (r s : Role) :
    (parts.put? r).bind (·.put? s) = (parts.put? s).bind (·.put? r) := by
  rcases parts with ⟨line, thickness, style, color⟩
  cases r <;> cases s <;> cases thickness <;> cases style <;> cases color <;> rfl

theorem add?_eq (parts : Parts) (item : Value) :
    parts.add? item = (role? item).bind parts.put? := by
  unfold add? role?
  cases hthickness : DecorationThickness.ofItem? item with
  | some thickness =>
    have hother : item.ident?.bind (Keyword.ofName? (α := DecorationStyle)) = none ∧
        item.isColor = false := by
      obtain h | h | h := DecorationThickness.word?_of_ofItem? hthickness
      · exact ⟨Value.member_eq_none h (by intro style; cases style <;> decide),
          Value.isColor_of_word? h (by decide)⟩
      · exact ⟨Value.member_eq_none h (by intro style; cases style <;> decide),
          Value.isColor_of_word? h (by decide)⟩
      · cases item <;> first | exact ⟨rfl, rfl⟩ | contradiction
    cases hfilled : parts.thickness <;> simp [hother, put?, hfilled]
  | none =>
    cases hstyle : item.ident?.bind (Keyword.ofName? (α := DecorationStyle)) with
    | some style =>
      have hcolor : item.isColor = false :=
        Value.isColor_of_word? (Value.member_eq_some_iff.1 hstyle) (by cases style <;> decide)
      cases hfilled : parts.style <;> simp [hcolor, put?, hfilled]
    | none => cases hcolor : item.isColor <;> simp [put?]

theorem add?_comm (parts : Parts) (x y : Value) :
    (parts.add? x).bind (·.add? y) = (parts.add? y).bind (·.add? x) := by
  simp only [add?_eq]
  exact bind_role_comm put?_comm parts x y

/-- The line is no part of an item's role. -/
theorem line_of_add? {parts parts' : Parts} {item : Value} (h : parts.add? item = some parts') :
    parts'.line = parts.line := by
  rw [add?_eq] at h
  obtain ⟨role, -, hput⟩ := Option.bind_eq_some_iff.1 h
  cases role <;> simp only [put?, Option.ite_none_right_eq_some, Option.some.injEq] at hput <;>
    exact hput.2 ▸ rfl

end Parts

end TextDecoration

end Css
