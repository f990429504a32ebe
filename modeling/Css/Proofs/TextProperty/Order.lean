import Css.Proofs.TextProperty.Decoration
import Css.TextProperty
import Css.Value.Printer

/-!
# The order of items

A text property takes its items in any order, and its canonical value does not depend on that order
(`Value.canonical?_perm`). Only the lines of a decoration have to stand side by side.
-/

namespace Css

/-! ### Decorations -/

namespace TextDecoration

open DecorationLine (isLine choice?)

def LinesTogether (items : List Value) : Prop :=
  ∃ before lines after, items = before ++ (lines ++ after) ∧
    (∀ item ∈ lines, isLine item = true) ∧ ∀ item ∈ before ++ after, isLine item = false

/-- Lines that stand side by side are read apart from the other items. -/
theorem addAll?_of_linesTogether {items : List Value} (h : LinesTogether items) :
    (⟨none, none, none, none⟩ : Parts).addAll? items =
      (choice? (items.filter isLine)).bind fun line =>
        (items.filter fun item => !isLine item).foldlM Parts.add? ⟨line, none, none, none⟩ := by
  obtain ⟨before, lines, after, rfl, hlines, hothers⟩ := h
  obtain ⟨hbefore, hafter⟩ := List.forall_mem_append.1 hothers
  have hfilter : (before ++ (lines ++ after)).filter isLine = lines := by
    have hlines : lines.filter isLine = lines := List.filter_eq_self.2 hlines
    have hbefore : before.filter isLine = [] := List.filter_eq_nil_iff.2 (by simpa using hbefore)
    have hafter : after.filter isLine = [] := List.filter_eq_nil_iff.2 (by simpa using hafter)
    simp only [List.filter_append, hlines, hbefore, hafter, List.nil_append, List.append_nil]
  have hrest : (before ++ (lines ++ after)).filter (fun item => !isLine item) =
      before ++ after := by
    have hlines : lines.filter (fun item => !isLine item) = [] :=
      List.filter_eq_nil_iff.2 (by simpa using hlines)
    have hbefore : before.filter (fun item => !isLine item) = before :=
      List.filter_eq_self.2 (by simpa using hbefore)
    have hafter : after.filter (fun item => !isLine item) = after :=
      List.filter_eq_self.2 (by simpa using hafter)
    simp only [List.filter_append, hlines, hbefore, hafter, List.nil_append]
  rw [hfilter, hrest]
  exact Parts.addAll?_append rfl hlines hothers

theorem addAll?_perm {items items' : List Value} (h : items.Perm items')
    (htogether : LinesTogether items) (htogether' : LinesTogether items') :
    (⟨none, none, none, none⟩ : Parts).addAll? items =
      (⟨none, none, none, none⟩ : Parts).addAll? items' := by
  rw [addAll?_of_linesTogether htogether, addAll?_of_linesTogether htogether',
    DecorationLine.choice?_perm (h.filter isLine)]
  congr 1
  funext line
  exact foldlM_perm Parts.add?_comm (h.filter _) _

end TextDecoration

/-! ### Every text property -/

/-- In which order the items stand does not matter for what a text property makes of them, if the
lines of a decoration stand side by side in both orders. -/
theorem Value.canonical?_perm (name : Text) {items items' : List Value} (h : items.Perm items')
    (htogether : Keyword.ofName? name = some TextProperty.textDecoration →
      TextDecoration.LinesTogether items ∧ TextDecoration.LinesTogether items') :
    (Value.list .space items).canonical? name = (Value.list .space items').canonical? name := by
  have hitems : ∀ items, (Value.list .space items).spaceItems = items := fun _ => rfl
  unfold Value.canonical?
  cases hname : (Keyword.ofName? name : Option TextProperty) with
  | none => rfl
  | some property =>
    cases property with
    | textTransform =>
      simp only [Option.bind_some, TextProperty.canonical?, TextTransform.ofValue?, hitems,
        foldlM_perm TextTransform.Parts.add?_comm h]
    | textIndent =>
      simp only [Option.bind_some, TextProperty.canonical?, TextIndent.ofValue?, hitems,
        foldlM_perm TextIndent.Parts.add?_comm h]
    | decorationLine =>
      simp only [Option.bind_some, TextProperty.canonical?, DecorationLine.ofValue?_eq, hitems,
        DecorationLine.ofItems?_perm h]
    | textDecoration =>
      obtain ⟨hleft, hright⟩ := htogether hname
      simp only [Option.bind_some, TextProperty.canonical?, TextDecoration.ofValue?_eq, hitems,
        TextDecoration.addAll?_perm h hleft hright]
    | wordSpacing | letterSpacing =>
      simp only [Option.bind_some, TextProperty.canonical?, Spacing.ofValue?_eq, hitems,
        single?_perm h]
    | decorationThickness =>
      simp only [Option.bind_some, TextProperty.canonical?, DecorationThickness.ofValue?_eq, hitems,
        single?_perm h]
    | _ =>
      simp only [Option.bind_some, TextProperty.canonical?, TextProperty.respell?,
        Keyword.ofValue?_eq, hitems, single?_perm h]

/-- The lines of a decoration in either order, in front of its style and behind it. -/
theorem Value.canonical?_perm_dotted_lines :
    let name := "text-decoration".toList
    let lines := [ofSpelling "Overline", ofSpelling "underline"]
    let printed := some "underline overline dotted".toList
    ((list .space (lines ++ [ofSpelling "dotted"])).canonical? name).map (toText .minified) =
        printed ∧
      ((list .space (ofSpelling "dotted" :: lines.reverse)).canonical? name).map
        (toText .minified) = printed := by
  intro name lines printed
  have htogether : TextDecoration.LinesTogether (lines ++ [ofSpelling "dotted"]) ∧
      TextDecoration.LinesTogether (ofSpelling "dotted" :: lines.reverse) :=
    ⟨⟨[], lines, [ofSpelling "dotted"], rfl, by decide, by decide⟩,
      ⟨[ofSpelling "dotted"], lines.reverse, [], rfl, by decide, by decide⟩⟩
  have hprinted : ((list .space (ofSpelling "dotted" :: lines.reverse)).canonical? name).map
      (toText .minified) = printed := by decide +kernel
  rw [canonical?_perm name (List.reverse_perm _).symm fun _ => htogether]
  exact ⟨hprinted, hprinted⟩

end Css
