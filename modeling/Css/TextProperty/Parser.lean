import Css.TextProperty.Basic

/-!
# Reading the values of the text properties

The typed form of a value that a text property takes, and nothing for any other value.
-/

namespace Css

def Keyword.ofValue? {α : Type} [Keyword α] (value : Value) : Option α :=
  match value.spaceItems with
  | [.ident name] => ofName? name
  | _ => none

/-! ### Lengths and colours -/

namespace Value

def lengthUnits : List String :=
  ["px", "em", "rem", "ex", "rex", "ch", "rch", "cap", "ic", "lh", "rlh", "vw", "vh", "vi", "vb",
    "vmin", "vmax", "svw", "svh", "lvw", "lvh", "dvw", "dvh", "cqw", "cqh", "cqi", "cqb", "cqmin",
    "cqmax", "cm", "mm", "q", "in", "pt", "pc"]

def mathFunctions : List String := ["calc", "min", "max", "clamp"]

/-- Whether a value is a length: a dimension, zero, or a computation. -/
def isLength : Value → Bool
  | dimension _ unit => unit.isOneOf lengthUnits
  | number x => x.units == 0
  | function name _ => name.isOneOf mathFunctions
  | _ => false

def isLengthOrPercentage : Value → Bool
  | percentage _ => true
  | value => value.isLength

def isColor : Value → Bool
  | color _ => true
  | colorFunction .. => true
  | value => value.isIdent "currentcolor"

end Value

/-! ### Transformations, spacing and indentation -/

namespace TextTransform

structure Parts where
  letterCase : Option TextCase
  fullWidth : Bool
  fullSizeKana : Bool

/-- Adds a keyword; no part is given twice. -/
def Parts.add? (parts : Parts) : Value → Option Parts
  | .ident name =>
    match parts.letterCase, (Keyword.ofName? name : Option TextCase) with
    | none, some letterCase => some { parts with letterCase }
    | _, _ =>
      if name.isKeyword "full-width" && !parts.fullWidth then some { parts with fullWidth := true }
      else if name.isKeyword "full-size-kana" && !parts.fullSizeKana then
        some { parts with fullSizeKana := true }
      else none
  | _ => none

/-- The transformation of some parts: `none` on its own, or at least one other part. -/
def ofParts? (parts : Parts) : Option TextTransform :=
  let wide := parts.fullWidth || parts.fullSizeKana
  match parts.letterCase with
  | some .none => if wide then none else some ⟨.none, false, false⟩
  | some letterCase => some ⟨letterCase, parts.fullWidth, parts.fullSizeKana⟩
  | none => if wide then some ⟨.none, parts.fullWidth, parts.fullSizeKana⟩ else none

def ofValue? (value : Value) : Option TextTransform :=
  (value.spaceItems.foldlM Parts.add? ⟨none, false, false⟩).bind ofParts?

end TextTransform

def Spacing.ofValue? (value : Value) : Option Spacing :=
  match value.spaceItems with
  | [item] =>
    if item.isIdent "normal" then some normal
    else if item.isLength then some (length item)
    else none
  | _ => none

namespace TextIndent

structure Parts where
  length : Option Value
  hanging : Bool
  eachLine : Bool

/-- Adds an item; no part is given twice. -/
def Parts.add? (parts : Parts) (item : Value) : Option Parts :=
  if parts.length.isNone && item.isLengthOrPercentage then some { parts with length := some item }
  else if !parts.hanging && item.isIdent "hanging" then some { parts with hanging := true }
  else if !parts.eachLine && item.isIdent "each-line" then some { parts with eachLine := true }
  else none

def ofValue? (value : Value) : Option TextIndent := do
  let parts ← value.spaceItems.foldlM Parts.add? ⟨none, false, false⟩
  return ⟨← parts.length, parts.hanging, parts.eachLine⟩

end TextIndent

/-! ### Decorations -/

namespace DecorationLine

def lineOf? (item : Value) : Option Line := item.ident?.bind Keyword.ofName?

def soleOf? (item : Value) : Option SoleLine := item.ident?.bind Keyword.ofName?

/-- Adds the lines in front to some lines, and gives the items after them. There is no such set
where a line is repeated or one follows that excludes the others. -/
def cutLines? (lines : LineSet) : List Value → Option (LineSet × List Value)
  | [] => some (lines, [])
  | item :: items =>
    if (soleOf? item).isSome then none
    else match lineOf? item with
      | none => some (lines, item :: items)
      | some line => if lines.contains line then none else cutLines? (lines.insert line) items

def cut? : List Value → Option (DecorationLine × List Value)
  | [] => none
  | item :: items =>
    match soleOf? item, lineOf? item with
    | some sole, _ =>
      if items.head?.any fun next => (soleOf? next).isSome || (lineOf? next).isSome then none
      else some (ofSole sole, items)
    | none, some line =>
      (cutLines? (LineSet.empty.insert line) items).map fun (set, rest) => (lines set, rest)
    | none, none => none

def ofValue? (value : Value) : Option DecorationLine :=
  match cut? value.spaceItems with
  | some (line, []) => some line
  | _ => none

theorem length_of_cutLines? {lines lines' : LineSet} {items rest : List Value}
    (h : cutLines? lines items = some (lines', rest)) : rest.length ≤ items.length := by
  fun_induction cutLines? lines items with
  | case1 =>
    simp only [Option.some.injEq, Prod.mk.injEq] at h
    obtain ⟨-, rfl⟩ := h
    simp
  | case2 => simp at h
  | case3 =>
    simp only [Option.some.injEq, Prod.mk.injEq] at h
    obtain ⟨-, rfl⟩ := h
    simp
  | case4 => simp at h
  | case5 _ _ _ _ _ _ _ ih => exact Nat.le_succ_of_le (ih h)

theorem length_of_cut? {items rest : List Value} {line : DecorationLine}
    (h : cut? items = some (line, rest)) : rest.length < items.length := by
  unfold cut? at h
  split at h
  · simp at h
  · split at h
    · split at h
      · simp at h
      · simp only [Option.some.injEq, Prod.mk.injEq] at h
        obtain ⟨-, rfl⟩ := h
        simp
    · obtain ⟨found, hfound, heq⟩ := Option.map_eq_some_iff.1 h
      simp only [Prod.mk.injEq] at heq
      obtain ⟨-, rfl⟩ := heq
      exact Nat.lt_succ_of_le (length_of_cutLines? hfound)
    · simp at h

end DecorationLine

namespace DecorationThickness

def ofItem? (item : Value) : Option DecorationThickness :=
  if item.isIdent "auto" then some auto
  else if item.isIdent "from-font" then some fromFont
  else if item.isLengthOrPercentage then some (length item)
  else none

def ofValue? (value : Value) : Option DecorationThickness :=
  match value.spaceItems with
  | [item] => ofItem? item
  | _ => none

end DecorationThickness

namespace TextDecoration

structure Parts where
  line : Option DecorationLine
  thickness : Option DecorationThickness
  style : Option DecorationStyle
  color : Option Value

def Parts.add? (parts : Parts) (item : Value) : Option Parts :=
  match parts.thickness, DecorationThickness.ofItem? item with
  | none, some thickness => some { parts with thickness }
  | _, _ =>
    match parts.style, item.ident?.bind (Keyword.ofName? (α := DecorationStyle)) with
    | none, some style => some { parts with style }
    | _, _ =>
      if parts.color.isNone && item.isColor then some { parts with color := some item } else none

def Parts.cutLine? (parts : Parts) (items : List Value) : Option (DecorationLine × List Value) :=
  if parts.line.isNone then DecorationLine.cut? items else none

theorem length_of_cutLine? {parts : Parts} {items rest : List Value} {line : DecorationLine}
    (h : parts.cutLine? items = some (line, rest)) : rest.length < items.length := by
  unfold Parts.cutLine? at h
  split at h
  · exact DecorationLine.length_of_cut? h
  · simp at h

def Parts.addAll? (parts : Parts) : List Value → Option Parts
  | [] => some parts
  | item :: items =>
    match h : parts.cutLine? (item :: items) with
    | some (line, rest) =>
      have := length_of_cutLine? h
      addAll? { parts with line } rest
    | none => (parts.add? item).bind fun parts => addAll? parts items
termination_by items => items.length
decreasing_by all_goals (simp only [List.length_cons] at *; omega)

def ofValue? (value : Value) : Option TextDecoration := do
  let parts ← (⟨none, none, none, none⟩ : Parts).addAll? value.spaceItems
  return {
    line := parts.line.getD .noLine
    thickness := parts.thickness.getD .auto
    style := parts.style.getD .solid
    color := parts.color.filter fun color => !color.isIdent "currentcolor" }

end TextDecoration

end Css
