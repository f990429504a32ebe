import Css.Proofs.TextProperty.Roles
import Mathlib.Data.List.TakeWhile

/-!
# Lines side by side

The keywords in front of some items are the whole of what a cut of lines looks at
(`DecorationLine.cut?_append`): lines that go together make a set, whatever their order, and a
choice that excludes other lines stands alone.
-/

namespace Css

namespace LineSet

def put? (set : LineSet) (line : Line) : Option LineSet :=
  if set.contains line then none else some (set.insert line)

def add? (set : LineSet) (item : Value) : Option LineSet :=
  (DecorationLine.lineOf? item).bind set.put?

theorem add?_comm (set : LineSet) (x y : Value) :
    (set.add? x).bind (·.add? y) = (set.add? y).bind (·.add? x) := by
  have hcomm : ∀ (set : LineSet) (r s : Line), (set.put? r).bind (·.put? s) =
      (set.put? s).bind (·.put? r) := fun set r s => by
    rcases set with ⟨underline, overline, lineThrough, blink⟩
    cases r <;> cases s <;> cases underline <;> cases overline <;> cases lineThrough <;>
      cases blink <;> rfl
  exact bind_role_comm hcomm set x y

end LineSet

namespace DecorationLine

variable {item : Value} {items before lines after : List Value}

def isLine (item : Value) : Bool := (soleOf? item).isSome || (lineOf? item).isSome

/-- No line excludes the others. -/
theorem lineOf?_of_soleOf? {sole : SoleLine} (h : soleOf? item = some sole) :
    lineOf? item = none :=
  Value.member_eq_none (Value.member_eq_some_iff.1 h)
    (by intro line; cases sole <;> cases line <;> decide)

theorem isLine_eq_false_iff : isLine item = false ↔ soleOf? item = none ∧ lineOf? item = none := by
  simp [isLine]

theorem isItem_of_isLine (h : isLine item = true) : item.IsItem := by
  cases item <;> first | rfl | contradiction

def ofItems? (items : List Value) : Option DecorationLine :=
  match cut? items with
  | some (line, []) => some line
  | _ => none

theorem ofValue?_eq (value : Value) : ofValue? value = ofItems? value.spaceItems := rfl

/-- Lines that go together are added one after the other, up to the first other item. -/
theorem cutLines?_append (set : LineSet) (hlines : ∀ item ∈ lines, isLine item = true)
    (hafter : ∀ item ∈ after.head?, isLine item = false) :
    cutLines? set (lines ++ after) = (lines.foldlM LineSet.add? set).map (·, after) := by
  induction lines generalizing set with
  | nil =>
    cases after with
    | nil => rfl
    | cons item rest =>
      obtain ⟨hsole, hline⟩ := isLine_eq_false_iff.1 (hafter item rfl)
      simp [cutLines?, hsole, hline]
  | cons item lines ih =>
    obtain ⟨hitem, hrest⟩ := List.forall_mem_cons.1 hlines
    cases hsole : soleOf? item with
    | some sole => simp [cutLines?, LineSet.add?, hsole, lineOf?_of_soleOf? hsole]
    | none =>
      obtain ⟨line, hline⟩ : ∃ line, lineOf? item = some line := by
        simpa [isLine, hsole, Option.isSome_iff_exists] using hitem
      cases hcontains : set.contains line <;>
        simp [cutLines?, LineSet.add?, LineSet.put?, hsole, hline, hcontains, ih _ hrest]

theorem cutLines?_of_lines (set : LineSet) (hlines : ∀ item ∈ lines, isLine item = true) :
    cutLines? set lines = (lines.foldlM LineSet.add? set).map (·, []) := by
  have h : cutLines? set (lines ++ []) = (lines.foldlM LineSet.add? set).map (·, []) :=
    cutLines?_append set hlines nofun
  rwa [List.append_nil] at h

theorem cut?_eq_none (h : isLine item = false) : cut? (item :: items) = none := by
  obtain ⟨hsole, hline⟩ := isLine_eq_false_iff.1 h
  simp [cut?, hsole, hline]

/-- What a cut gives is decided by the keywords in front. -/
theorem cut?_append (hne : lines ≠ []) (hlines : ∀ item ∈ lines, isLine item = true)
    (hafter : ∀ item ∈ after.head?, isLine item = false) :
    cut? (lines ++ after) = (ofItems? lines).map (·, after) := by
  match lines with
  | item :: lines =>
    obtain ⟨hitem, hrest⟩ := List.forall_mem_cons.1 hlines
    cases hsole : soleOf? item with
    | some sole =>
      cases lines with
      | nil =>
        have hany : (after.head?.any fun next =>
            (soleOf? next).isSome || (lineOf? next).isSome) = false :=
          (Option.any_eq_false _ _).2 fun next hnext => by simpa [isLine] using hafter next hnext
        simp [ofItems?, cut?, hsole, hany]
      | cons next lines =>
        have hnext : ((soleOf? next).isSome || (lineOf? next).isSome) = true :=
          hrest next List.mem_cons_self
        simp [ofItems?, cut?, hsole, hnext]
    | none =>
      obtain ⟨line, hline⟩ : ∃ line, lineOf? item = some line := by
        simpa [isLine, hsole, Option.isSome_iff_exists] using hitem
      rw [ofItems?, List.cons_append]
      simp only [cut?, hsole, hline, cutLines?_append _ hrest hafter, cutLines?_of_lines _ hrest]
      cases lines.foldlM LineSet.add? (LineSet.empty.insert line) <;> rfl

/-- Items that make a choice of lines are lines. -/
theorem isLine_of_ofItems? {line : DecorationLine} (h : ofItems? items = some line) :
    ∀ item ∈ items, isLine item = true := by
  have hfront : ∀ item ∈ items.takeWhile isLine, isLine item = true :=
    fun item => List.mem_takeWhile_imp
  have hsplit : items.takeWhile isLine ++ items.dropWhile isLine = items :=
    List.takeWhile_append_dropWhile
  cases hafter : items.dropWhile isLine with
  | nil =>
    rw [hafter, List.append_nil] at hsplit
    exact hsplit ▸ hfront
  | cons next after =>
    -- A cut leaves the first item that is no line, so it does not use up the items.
    have hnext : isLine next = false := by
      simpa [hafter] using List.head?_dropWhile_not isLine items
    rw [hafter] at hsplit
    rw [ofItems?, ← hsplit] at h
    by_cases hempty : items.takeWhile isLine = []
    · simp [hempty, cut?_eq_none hnext] at h
    · rw [cut?_append hempty hfront (by simpa using hnext)] at h
      cases hread : ofItems? (items.takeWhile isLine) <;> simp [hread] at h

/-- Two or more lines make a set. -/
theorem ofItems?_of_two {next : Value}
    (h : ∀ line ∈ item :: next :: items, isLine line = true) :
    ofItems? (item :: next :: items) =
      ((item :: next :: items).foldlM LineSet.add? LineSet.empty).map DecorationLine.lines := by
  obtain ⟨hitem, hrest⟩ := List.forall_mem_cons.1 h
  have hnext : ((soleOf? next).isSome || (lineOf? next).isSome) = true :=
    hrest next List.mem_cons_self
  cases hsole : soleOf? item with
  | some sole => simp [ofItems?, cut?, LineSet.add?, hsole, hnext, lineOf?_of_soleOf? hsole]
  | none =>
    obtain ⟨line, hline⟩ : ∃ line, lineOf? item = some line := by
      simpa [isLine, hsole, Option.isSome_iff_exists] using hitem
    have hadd : LineSet.empty.add? item = some (LineSet.empty.insert line) := by
      cases line <;> simp [LineSet.add?, LineSet.put?, hline, LineSet.contains, LineSet.empty]
    rw [List.foldlM_cons, hadd, Option.bind_eq_bind, Option.bind_some]
    simp only [ofItems?, cut?, hsole, hline, cutLines?_of_lines _ hrest]
    cases (next :: items).foldlM LineSet.add? (LineSet.empty.insert line) <;> rfl

/-- The order of items does not matter for the choice of lines that they make. -/
theorem ofItems?_perm {items items' : List Value} (h : items.Perm items') :
    ofItems? items = ofItems? items' := by
  by_cases hlines : ∀ item ∈ items, isLine item = true
  · match items, items', h with
    | [], items', h => rw [List.nil_perm.1 h]
    | [_], items', h => rw [List.singleton_perm.1 h]
    | _ :: _ :: _, [], h => exact absurd (List.perm_nil.1 h) (by simp)
    | _ :: _ :: _, [_], h => exact absurd (List.perm_singleton.1 h) (by simp)
    | _ :: _ :: _, _ :: _ :: _, h =>
      rw [ofItems?_of_two hlines, ofItems?_of_two fun item hitem => hlines item (h.mem_iff.2 hitem),
        foldlM_perm LineSet.add?_comm h]
  · have hnone : ∀ {items : List Value}, ¬ (∀ item ∈ items, isLine item = true) →
        ofItems? items = none := fun hnot =>
      Option.eq_none_iff_forall_ne_some.2 fun line hline => hnot (isLine_of_ofItems? hline)
    rw [hnone hlines, hnone fun hall => hlines fun item hitem => hall item (h.mem_iff.1 hitem)]

/-- The lines of a choice are read back as that choice. -/
theorem ofItems?_items (line : DecorationLine) : ofItems? line.items = some line := by
  cases line with
  | lines set =>
    rcases set with ⟨underline, overline, lineThrough, blink⟩
    cases underline <;> cases overline <;> cases lineThrough <;> cases blink <;> decide
  | spellingError => decide
  | grammarError => decide

theorem isLine_of_mem_items {line : DecorationLine} : ∀ item ∈ line.items, isLine item = true :=
  isLine_of_ofItems? (ofItems?_items line)

theorem items_ne_nil (line : DecorationLine) : line.items ≠ [] := by
  intro h
  have hread := ofItems?_items line
  rw [h] at hread
  contradiction

end DecorationLine

end Css
