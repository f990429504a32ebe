import Css.Proofs.TextProperty.Lines

/-!
# Reading decorations

Where the lines among the items of a decoration stand side by side, they are read together, and the
other items as if there were no lines between them (`addAll?_append`).
-/

namespace Css

namespace DecorationLine

def choice? : List Value → Option (Option DecorationLine)
  | [] => some none
  | item :: items => (ofItems? (item :: items)).map some

theorem choice?_perm {items items' : List Value} (h : items.Perm items') :
    choice? items = choice? items' := by
  match items, items', h with
  | [], items', h => rw [List.nil_perm.1 h]
  | _ :: _, [], h => exact absurd (List.perm_nil.1 h) (by simp)
  | _ :: _, _ :: _, h => rw [choice?, choice?, ofItems?_perm h]

theorem choice?_items (line : DecorationLine) : choice? line.items = some (some line) := by
  cases h : line.items with
  | nil => exact absurd h (items_ne_nil line)
  | cons item items => rw [choice?, ← h, ofItems?_items, Option.map_some]

end DecorationLine

namespace TextDecoration

open DecorationLine (isLine ofItems? choice? soleOf? lineOf?)

variable {item : Value} {items before lines after : List Value} {parts : Parts}

/-- A line is no other part. -/
theorem role?_of_isLine (h : isLine item = true) : role? item = none := by
  obtain ⟨word, hword, hauto, hfont, hcolor, hstyle⟩ : ∃ word, item.word? = some word ∧
      word ≠ "auto".toList ∧ word ≠ "from-font".toList ∧ word ≠ "currentcolor".toList ∧
      ∀ style : DecorationStyle, word ≠ (Keyword.spelling style).toList := by
    simp only [isLine, Bool.or_eq_true, Option.isSome_iff_exists] at h
    obtain ⟨sole, hsole⟩ | ⟨line, hline⟩ := h
    · exact ⟨_, Value.member_eq_some_iff.1 hsole, by cases sole <;> decide,
        by cases sole <;> decide, by cases sole <;> decide,
        fun style => by cases sole <;> cases style <;> decide⟩
    · exact ⟨_, Value.member_eq_some_iff.1 hline, by cases line <;> decide,
        by cases line <;> decide, by cases line <;> decide,
        fun style => by cases line <;> cases style <;> decide⟩
  simp [role?, DecorationThickness.ofItem?_eq_none hword hauto hfont,
    Value.member_eq_none hword hstyle, Value.isColor_of_word? hword hcolor]

namespace Parts

theorem add?_of_isLine (h : isLine item = true) : parts.add? item = none := by
  rw [add?_eq, role?_of_isLine h, Option.bind_none]

/-- Which line there is says nothing about the other parts. -/
theorem add?_line (line : Option DecorationLine) (item : Value) :
    ({ parts with line } : Parts).add? item =
      (parts.add? item).map fun parts => { parts with line } := by
  simp only [add?_eq]
  cases role? item with
  | none => rfl
  | some role =>
    rcases parts with ⟨-, thickness, style, color⟩
    cases role <;> cases thickness <;> cases style <;> cases color <;> rfl

theorem foldlM_add?_line (line : Option DecorationLine) (items : List Value) :
    items.foldlM add? { parts with line } =
      (items.foldlM add? parts).map fun parts => { parts with line } := by
  induction items generalizing parts with
  | nil => rfl
  | cons item items ih =>
    rw [List.foldlM_cons, List.foldlM_cons, add?_line]
    cases parts.add? item with
    | none => rfl
    | some parts => exact ih

theorem line_of_foldlM {parts' : Parts} (h : items.foldlM add? parts = some parts') :
    parts'.line = parts.line :=
  foldlM_invariant (·.line = parts.line) (fun _ _ _ hadd hline => (line_of_add? hadd).trans hline)
    h rfl

theorem cutLine?_of_not_isLine (h : isLine item = false) :
    parts.cutLine? (item :: items) = none := by
  simp [cutLine?, DecorationLine.cut?_eq_none h]

/-- Items before every line are added one by one. -/
theorem addAll?_of_not_isLine (hbefore : ∀ item ∈ before, isLine item = false) :
    parts.addAll? (before ++ items) = (before.foldlM add? parts).bind (·.addAll? items) := by
  induction before generalizing parts with
  | nil => rfl
  | cons item before ih =>
    obtain ⟨hitem, hrest⟩ := List.forall_mem_cons.1 hbefore
    rw [List.cons_append, addAll?, List.foldlM_cons]
    split
    case h_1 hcut => simp [cutLine?_of_not_isLine hitem] at hcut
    case h_2 =>
      cases parts.add? item with
      | none => rfl
      | some parts => exact ih hrest

theorem addAll?_eq_foldlM (hitems : ∀ item ∈ items, isLine item = false) :
    parts.addAll? items = items.foldlM add? parts := by
  have h : parts.addAll? (items ++ []) = (items.foldlM add? parts).bind (·.addAll? []) :=
    addAll?_of_not_isLine hitems
  rw [List.append_nil] at h
  rw [h]
  cases items.foldlM add? parts <;> simp [addAll?]

/-- The first lines are read together. -/
theorem addAll?_lines (hparts : parts.line = none) (hlines : ∀ item ∈ lines, isLine item = true)
    (hafter : ∀ item ∈ after, isLine item = false) :
    parts.addAll? (lines ++ after) = (choice? lines).bind fun line =>
      after.foldlM add? { parts with line } := by
  match lines with
  | [] =>
    have hsame : ({ parts with line := none } : Parts) = parts := by rw [← hparts]
    simp only [choice?, Option.bind_some, List.nil_append, hsame, addAll?_eq_foldlM hafter]
  | item :: lines =>
    have hcut : parts.cutLine? (item :: (lines ++ after)) =
        (ofItems? (item :: lines)).map (·, after) := by
      rw [cutLine?, hparts, ← List.cons_append]
      exact DecorationLine.cut?_append (by simp) hlines fun item hitem =>
        hafter item (List.mem_of_mem_head? hitem)
    rw [List.cons_append, addAll?]
    split
    case h_1 line rest h =>
      rw [hcut] at h
      obtain ⟨_, hline, ⟨⟩⟩ := Option.map_eq_some_iff.1 h
      simp only [choice?, hline, Option.map_some, Option.bind_some, addAll?_eq_foldlM hafter]
    case h_2 h =>
      rw [hcut, Option.map_eq_none_iff] at h
      simp [choice?, h, add?_of_isLine (hlines item List.mem_cons_self)]

/-- The lines of a decoration that stand side by side are read together, the other items as if
nothing stood between them. -/
theorem addAll?_append (hparts : parts.line = none)
    (hlines : ∀ item ∈ lines, isLine item = true)
    (hothers : ∀ item ∈ before ++ after, isLine item = false) :
    parts.addAll? (before ++ (lines ++ after)) = (choice? lines).bind fun line =>
      (before ++ after).foldlM add? { parts with line } := by
  obtain ⟨hbefore, hafter⟩ := List.forall_mem_append.1 hothers
  have hall : ∀ line, (before ++ after).foldlM add? { parts with line } =
      (before.foldlM add? parts).bind fun front => after.foldlM add? { front with line } := by
    intro line
    rw [List.foldlM_append, foldlM_add?_line]
    cases before.foldlM add? parts <;> rfl
  rw [addAll?_of_not_isLine hbefore, funext hall]
  cases hfront : before.foldlM add? parts with
  | none => cases choice? lines <;> rfl
  | some front => exact addAll?_lines (line_of_foldlM hfront ▸ hparts) hlines hafter

end Parts

def ofParts (parts : Parts) : TextDecoration where
  line := parts.line.getD .noLine
  thickness := parts.thickness.getD .auto
  style := parts.style.getD .solid
  color := parts.color.filter fun color => !color.isIdent "currentcolor"

theorem ofValue?_eq (value : Value) :
    ofValue? value =
      ((⟨none, none, none, none⟩ : Parts).addAll? value.spaceItems).map ofParts := by
  rw [ofValue?]
  cases (⟨none, none, none, none⟩ : Parts).addAll? value.spaceItems <;> rfl

end TextDecoration

end Css
