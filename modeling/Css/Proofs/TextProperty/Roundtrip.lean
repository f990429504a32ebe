import Css.Proofs.TextProperty.Decoration
import Css.TextProperty

/-!
# Typed values are read back

What a text property makes of a value says everything about it: the canonical value that is written
is read as the same typed value again. A decoration without a line is the exception: it shows
nothing, and only `none` is left of it.
-/

namespace Css

/-! ### One item -/

/-- What is read from one item is read again where an item is written for it. -/
theorem single?_toValue {α : Type} {ofItem? : Value → Option α} {toValue : α → Value}
    (hread : ∀ {item typed}, ofItem? item = some typed → ofItem? (toValue typed) = some typed)
    (hitem : ∀ {item}, (ofItem? item).isSome → item.IsItem) {items : List Value} {typed : α}
    (h : (single? items).bind ofItem? = some typed) :
    (single? (toValue typed).spaceItems).bind ofItem? = some typed := by
  obtain ⟨item, -, hfound⟩ := Option.bind_eq_some_iff.1 h
  have hagain := hread hfound
  rw [hitem (Option.isSome_of_eq_some hagain)]
  exact hagain

namespace Spacing

theorem ofItem?_toValue {item : Value} {spacing : Spacing} (h : ofItem? item = some spacing) :
    ofItem? spacing.toValue = some spacing := by
  have hread := h
  unfold ofItem? at hread
  split at hread
  case isTrue => exact Option.some.inj hread ▸ rfl
  case isFalse =>
    obtain ⟨-, ⟨⟩⟩ := Option.ite_none_right_eq_some.1 hread
    exact h

theorem isItem_of_ofItem? {item : Value} (h : (ofItem? item).isSome) : item.IsItem := by
  cases item <;> first | rfl | contradiction

theorem ofValue?_toValue {value : Value} {spacing : Spacing} (h : ofValue? value = some spacing) :
    ofValue? spacing.toValue = some spacing := by
  rw [ofValue?_eq] at h ⊢
  exact single?_toValue ofItem?_toValue isItem_of_ofItem? h

end Spacing

namespace DecorationThickness

theorem ofItem?_toValue {item : Value} {thickness : DecorationThickness}
    (h : ofItem? item = some thickness) : ofItem? thickness.toValue = some thickness := by
  have hread := h
  unfold ofItem? at hread
  split at hread
  case isTrue => exact Option.some.inj hread ▸ rfl
  case isFalse =>
    split at hread
    case isTrue => exact Option.some.inj hread ▸ rfl
    case isFalse =>
      obtain ⟨-, ⟨⟩⟩ := Option.ite_none_right_eq_some.1 hread
      exact h

theorem isItem_of_ofItem? {item : Value} (h : (ofItem? item).isSome) : item.IsItem := by
  cases item <;> first | rfl | contradiction

theorem ofValue?_toValue {value : Value} {thickness : DecorationThickness}
    (h : ofValue? value = some thickness) : ofValue? thickness.toValue = some thickness := by
  rw [ofValue?_eq] at h ⊢
  exact single?_toValue ofItem?_toValue isItem_of_ofItem? h

end DecorationThickness

/-! ### Several items -/

theorem TextTransform.ofValue?_toValue (transform : TextTransform) :
    ofValue? transform.toValue = some transform := by
  rcases transform with ⟨letterCase, fullWidth, fullSizeKana⟩
  cases letterCase <;> cases fullWidth <;> cases fullSizeKana <;> decide

namespace TextIndent

/-- The length of an indentation was an item. -/
theorem isLengthOrPercentage_of_ofValue? {value : Value} {indent : TextIndent}
    (h : ofValue? value = some indent) : indent.length.isLengthOrPercentage = true := by
  obtain ⟨parts, hparts, hindent⟩ := Option.bind_eq_some_iff.1 h
  obtain ⟨length, hlength, ⟨⟩⟩ := Option.bind_eq_some_iff.1 hindent
  have hall : ∀ length ∈ parts.length, length.isLengthOrPercentage = true := by
    refine foldlM_invariant (fun parts : Parts =>
      ∀ length ∈ parts.length, length.isLengthOrPercentage = true) ?_ hparts nofun
    intro parts item next hadd hlengths
    unfold Parts.add? at hadd
    split at hadd
    case isTrue hitem =>
      obtain ⟨⟩ := hadd
      intro length hlength
      obtain ⟨⟩ := hlength
      exact (Bool.and_eq_true_iff.1 hitem).2
    case isFalse =>
      split at hadd
      case isTrue => exact Option.some.inj hadd ▸ hlengths
      case isFalse =>
        obtain ⟨-, ⟨⟩⟩ := Option.ite_none_right_eq_some.1 hadd
        exact hlengths
  exact hall length hlength

theorem ofValue?_toValue {value : Value} {indent : TextIndent} (h : ofValue? value = some indent) :
    ofValue? indent.toValue = some indent := by
  have hlength := isLengthOrPercentage_of_ofValue? h
  rcases indent with ⟨length, hanging, eachLine⟩
  have hitems : ∀ item ∈ length ::
      ((if hanging then [Value.ofSpelling "hanging"] else []) ++
        (if eachLine then [Value.ofSpelling "each-line"] else [])), item.IsItem := by
    refine List.forall_mem_cons.2 ⟨Value.isItem_of_isLengthOrPercentage hlength, ?_⟩
    cases hanging <;> cases eachLine <;> simp [Value.isItem_ofSpelling]
  rw [toValue, ofValue?, Value.spaceItems_spaceList hitems]
  have hhanging : (Value.ofSpelling "hanging").isIdent "hanging" = true := by decide
  have hline : (Value.ofSpelling "each-line").isIdent "each-line" = true := by decide
  have hother : (Value.ofSpelling "each-line").isIdent "hanging" = false := by decide
  cases hanging <;> cases eachLine <;>
    simp [Parts.add?, hlength, hhanging, hline, hother]

end TextIndent

theorem DecorationLine.ofValue?_toValue (line : DecorationLine) :
    ofValue? line.toValue = some line := by
  have hitems : ∀ item ∈ line.items, item.IsItem := fun item hitem =>
    isItem_of_isLine (isLine_of_mem_items item hitem)
  rw [ofValue?_eq, toValue, Value.spaceItems_spaceList hitems, ofItems?_items]

/-! ### Decorations -/

namespace TextDecoration

open DecorationLine (isLine isItem_of_isLine isLine_of_mem_items)

namespace Role

def toValue : Role → Value
  | thickness value => value.toValue
  | style value => Value.ofMember value
  | color value => value

end Role

theorem role?_ofMember (style : DecorationStyle) :
    role? (Value.ofMember style) = some (.style style) := by
  have hmember : (Value.ofMember style).ident?.bind Keyword.ofName? = some style :=
    Keyword.ofName?_spelling style
  have hthickness : DecorationThickness.ofItem? (Value.ofMember style) = none :=
    DecorationThickness.ofItem?_eq_none (Value.member_eq_some_iff.1 hmember)
      (by cases style <;> decide) (by cases style <;> decide)
  simp [role?, hmember, hthickness]

theorem isItem_of_role? {item : Value} (h : (role? item).isSome) : item.IsItem := by
  cases item <;> first | rfl | contradiction

theorem not_isLine_of_role? {item : Value} (h : (role? item).isSome) : isLine item = false := by
  rw [← Bool.not_eq_true]
  intro hline
  rw [role?_of_isLine hline] at h
  contradiction

/-- A role is played again by what is written of it. -/
theorem role?_toValue {item : Value} {role : Role} (h : role? item = some role) :
    role? role.toValue = some role := by
  have hrole := h
  unfold role? at hrole
  split at hrole
  case h_1 hthickness =>
    obtain ⟨⟩ := hrole
    simp [role?, Role.toValue, DecorationThickness.ofItem?_toValue hthickness]
  case h_2 =>
    obtain ⟨⟩ := hrole
    exact role?_ofMember _
  case h_3 =>
    obtain ⟨-, ⟨⟩⟩ := Option.ite_none_right_eq_some.1 hrole
    exact h

structure Parts.IsRead (parts : Parts) : Prop where
  thickness : ∀ thickness ∈ parts.thickness,
    role? thickness.toValue = some (.thickness thickness)
  color : ∀ color ∈ parts.color, role? color = some (.color color)

namespace Parts

theorem IsRead.add? {parts parts' : Parts} {item : Value} (hparts : parts.IsRead)
    (h : parts.add? item = some parts') : parts'.IsRead := by
  rw [add?_eq] at h
  obtain ⟨role, hrole, hput⟩ := Option.bind_eq_some_iff.1 h
  have hread := role?_toValue hrole
  cases role with
  | thickness =>
    obtain ⟨-, ⟨⟩⟩ := Option.ite_none_right_eq_some.1 hput
    exact ⟨fun _ hmem => Option.some.inj hmem ▸ hread, hparts.color⟩
  | style =>
    obtain ⟨-, ⟨⟩⟩ := Option.ite_none_right_eq_some.1 hput
    exact ⟨hparts.thickness, hparts.color⟩
  | color =>
    obtain ⟨-, ⟨⟩⟩ := Option.ite_none_right_eq_some.1 hput
    exact ⟨hparts.thickness, fun _ hmem => Option.some.inj hmem ▸ hread⟩

theorem IsRead.addAll? {parts parts' : Parts} {items : List Value} (hparts : parts.IsRead)
    (h : parts.addAll? items = some parts') : parts'.IsRead := by
  fun_induction Parts.addAll? parts items with
  | case1 => exact Option.some.inj h ▸ hparts
  | case2 parts item items line rest _ _ ih => exact ih ⟨hparts.thickness, hparts.color⟩ h
  | case3 parts item items _ ih =>
    obtain ⟨next, hadd, hrest⟩ := Option.bind_eq_some_iff.1 h
    exact ih next (hparts.add? hadd) hrest

end Parts

/-- Lines that are written first are read first, and then the other items one by one. -/
theorem ofValue?_spaceList (line : DecorationLine) {items : List Value}
    (hitems : ∀ item ∈ items, (role? item).isSome) :
    ofValue? (Value.spaceList (line.items ++ items)) =
      (items.foldlM Parts.add? ⟨some line, none, none, none⟩).map ofParts := by
  have hall : ∀ item ∈ line.items ++ items, item.IsItem := by
    intro item hitem
    obtain hitem | hitem := List.mem_append.1 hitem
    · exact isItem_of_isLine (isLine_of_mem_items item hitem)
    · exact isItem_of_role? (hitems item hitem)
  rw [ofValue?_eq, Value.spaceItems_spaceList hall,
    Parts.addAll?_lines rfl isLine_of_mem_items fun item hitem =>
      not_isLine_of_role? (hitems item hitem),
    DecorationLine.choice?_items, Option.bind_some]

theorem toValue_of_noLine {decoration : TextDecoration} (h : decoration.line = .noLine) :
    decoration.toValue = Value.ofSpelling "none" := by
  rw [toValue, if_pos h, h]
  rfl

/-- The parts that are written are read, and the others have their initial values. -/
theorem ofValue?_toValue_of_roles {decoration : TextDecoration}
    (hline : decoration.line ≠ .noLine)
    (hthickness : role? decoration.thickness.toValue = some (.thickness decoration.thickness))
    (hcolor : ∀ color ∈ decoration.color,
      role? color = some (.color color) ∧ color.isIdent "currentcolor" = false) :
    ofValue? decoration.toValue = some decoration := by
  rcases decoration with ⟨line, thickness, style, color⟩
  have hstyle := role?_ofMember style
  have hauto : thickness.isAuto = true → thickness = .auto := by
    cases thickness <;> simp [DecorationThickness.isAuto]
  rw [toValue, if_neg hline, List.append_assoc, List.append_assoc, ofValue?_spaceList]
  · by_cases hsolid : style = .solid <;> cases hthin : thickness.isAuto <;>
      cases color <;> simp_all [Parts.add?_eq, Parts.put?, ofParts]
  · intro item hitem
    simp only [List.mem_append, Option.mem_toList] at hitem
    obtain hitem | hitem | hitem := hitem
    · split at hitem <;> simp_all
    · split at hitem <;> simp_all
    · rw [(hcolor item hitem).1]
      rfl

theorem canonical?_none :
    TextProperty.textDecoration.canonical? (Value.ofSpelling "none") =
      some (Value.ofSpelling "none") := by
  have hread : ofValue? (Value.spaceList (DecorationLine.noLine.items ++ [])) =
      some ⟨.noLine, .auto, .solid, none⟩ :=
    ofValue?_spaceList .noLine nofun
  have hvalue : Value.spaceList (DecorationLine.noLine.items ++ []) = Value.ofSpelling "none" := rfl
  rw [hvalue] at hread
  rw [TextProperty.canonical?, hread]
  rfl

theorem ofValue?_toValue {value : Value} {decoration : TextDecoration}
    (h : ofValue? value = some decoration) (hline : decoration.line ≠ .noLine) :
    ofValue? decoration.toValue = some decoration := by
  rw [ofValue?_eq] at h
  obtain ⟨parts, hparts, rfl⟩ := Option.map_eq_some_iff.1 h
  have hread : parts.IsRead := Parts.IsRead.addAll? ⟨by simp, by simp⟩ hparts
  refine ofValue?_toValue_of_roles hline ?_ ?_
  · cases hthickness : parts.thickness with
    | none => simp [ofParts, hthickness]; rfl
    | some thickness => simpa [ofParts, hthickness] using hread.thickness thickness hthickness
  · intro color hcolor
    obtain ⟨hmem, hother⟩ := Option.mem_filter_iff.1 hcolor
    exact ⟨hread.color color hmem, by simpa using hother⟩

end TextDecoration

/-! ### Every text property -/

structure ValueType where
  Typed : Type
  ofValue? : Value → Option Typed
  toValue : Typed → Value

namespace ValueType

def keyword (α : Type) [Keyword α] : ValueType := ⟨α, Keyword.ofValue?, Value.ofMember⟩

theorem ofValue?_keyword {α : Type} [Keyword α] [LawfulKeyword α] (member : (keyword α).Typed) :
    (keyword α).ofValue? ((keyword α).toValue member) = some member :=
  Keyword.ofValue?_ofMember (α := α) member

end ValueType

namespace TextProperty

def type : TextProperty → ValueType
  | textTransform => ⟨TextTransform, TextTransform.ofValue?, TextTransform.toValue⟩
  | whiteSpace => .keyword WhiteSpace
  | wordBreak => .keyword WordBreak
  | lineBreak => .keyword LineBreak
  | hyphens => .keyword Hyphens
  | overflowWrap | wordWrap => .keyword OverflowWrap
  | textAlign => .keyword TextAlign
  | textAlignLast => .keyword TextAlignLast
  | textJustify => .keyword TextJustify
  | wordSpacing | letterSpacing => ⟨Spacing, Spacing.ofValue?, Spacing.toValue⟩
  | textIndent => ⟨TextIndent, TextIndent.ofValue?, TextIndent.toValue⟩
  | decorationLine => ⟨DecorationLine, DecorationLine.ofValue?, DecorationLine.toValue⟩
  | decorationStyle => .keyword DecorationStyle
  | decorationThickness =>
    ⟨DecorationThickness, DecorationThickness.ofValue?, DecorationThickness.toValue⟩
  | textDecoration => ⟨TextDecoration, TextDecoration.ofValue?, TextDecoration.toValue⟩

def HasNoLine : (property : TextProperty) → property.type.Typed → Prop
  | textDecoration, decoration => TextDecoration.line decoration = .noLine
  | _, _ => False

/-- The canonical form of a value is its typed form written again. -/
theorem canonical?_eq (property : TextProperty) (value : Value) :
    property.canonical? value = (property.type.ofValue? value).map property.type.toValue := by
  cases property <;> rfl

variable {property : TextProperty} {value : Value} {typed : property.type.Typed}

theorem ofValue?_toValue_of_line (h : property.type.ofValue? value = some typed)
    (hline : ¬ property.HasNoLine typed) :
    property.type.ofValue? (property.type.toValue typed) = some typed := by
  cases property with
  | textTransform => exact TextTransform.ofValue?_toValue typed
  | wordSpacing | letterSpacing => exact Spacing.ofValue?_toValue h
  | textIndent => exact TextIndent.ofValue?_toValue h
  | decorationLine => exact DecorationLine.ofValue?_toValue typed
  | decorationThickness => exact DecorationThickness.ofValue?_toValue h
  | textDecoration => exact TextDecoration.ofValue?_toValue h hline
  | _ => exact ValueType.ofValue?_keyword typed

theorem toValue_of_noLine (h : property.HasNoLine typed) :
    property.type.toValue typed = Value.ofSpelling "none" := by
  cases property with
  | textDecoration => exact TextDecoration.toValue_of_noLine h
  | _ => exact h.elim

theorem canonical?_canonical {canonical : Value} (h : property.canonical? value = some canonical) :
    property.canonical? canonical = some canonical := by
  rw [canonical?_eq] at h
  obtain ⟨typed, hread, rfl⟩ := Option.map_eq_some_iff.1 h
  by_cases hline : property.HasNoLine typed
  · rw [toValue_of_noLine hline]
    cases property with
    | textDecoration => exact TextDecoration.canonical?_none
    | _ => exact hline.elim
  · rw [canonical?_eq, ofValue?_toValue_of_line hread hline, Option.map_some]

end TextProperty

namespace Value

/-- A canonical value is its own canonical form. -/
theorem canonical?_idem {name : Text} {value canonical : Value}
    (h : value.canonical? name = some canonical) : canonical.canonical? name = some canonical := by
  obtain ⟨property, hproperty, hcanonical⟩ := Option.bind_eq_some_iff.1 h
  exact Option.bind_eq_some_iff.2
    ⟨property, hproperty, TextProperty.canonical?_canonical hcanonical⟩

/-- What a text property makes of a value is read back from what is written of it, except that a
decoration without a line is written as `none`. So a canonical value is its own canonical form. -/
theorem canonical?_faithful (value : Value) :
    (∀ (property : TextProperty) (typed : property.type.Typed),
      property.type.ofValue? value = some typed →
        (¬ property.HasNoLine typed →
          property.type.ofValue? (property.type.toValue typed) = some typed) ∧
        (property.HasNoLine typed → property.type.toValue typed = ofSpelling "none")) ∧
    ∀ (name : Text) (canonical : Value), value.canonical? name = some canonical →
      canonical.canonical? name = some canonical :=
  ⟨fun _ _ hread => ⟨TextProperty.ofValue?_toValue_of_line hread, TextProperty.toValue_of_noLine⟩,
    fun _ _ => canonical?_idem⟩

theorem canonical?_faithful_overline_underline :
    let value := list .space [ofSpelling "Overline", ofSpelling "underline"]
    let line : DecorationLine := .lines ⟨true, true, false, false⟩
    DecorationLine.ofValue? value = some line ∧ DecorationLine.ofValue? line.toValue = some line ∧
      line.toValue.canonical? "text-decoration-line".toList = some line.toValue := by
  intro value line
  have hread : DecorationLine.ofValue? value = some line := by decide
  have hfaithful := canonical?_faithful value
  exact ⟨hread, (hfaithful.1 .decorationLine line hread).1 id, hfaithful.2 _ _ rfl⟩

end Value

end Css
