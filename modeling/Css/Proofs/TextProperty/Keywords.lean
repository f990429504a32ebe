import Css.TextProperty
import Mathlib.Data.List.Nodup

/-!
# Keywords as they are spelled

A keyword type lists its members, no two of them spelled alike and each in lower case. So a name
gives the one member that it spells (`Keyword.ofName?_eq_some_iff`), and a member that is written is
read back.
-/

namespace Css

/-- A keyword type whose list of members is complete, each of them spelled in lower case and in its
own way. -/
class LawfulKeyword (α : Type) [Keyword α] : Prop where
  mem_all : ∀ member : α, member ∈ (Keyword.all : List α)
  nodup : ((Keyword.all : List α).map fun member => (Keyword.spelling member).toList).Nodup :=
    by decide
  lower : ∀ member ∈ (Keyword.all : List α),
    Text.lower (Keyword.spelling member).toList = (Keyword.spelling member).toList := by decide

instance : LawfulKeyword TextCase where
  mem_all member := by cases member <;> decide

instance : LawfulKeyword WhiteSpace where
  mem_all member := by cases member <;> decide

instance : LawfulKeyword WordBreak where
  mem_all member := by cases member <;> decide

instance : LawfulKeyword LineBreak where
  mem_all member := by cases member <;> decide

instance : LawfulKeyword Hyphens where
  mem_all member := by cases member <;> decide

instance : LawfulKeyword OverflowWrap where
  mem_all member := by cases member <;> decide

instance : LawfulKeyword TextAlign where
  mem_all member := by cases member <;> decide

instance : LawfulKeyword TextAlignLast where
  mem_all member := by cases member <;> decide

instance : LawfulKeyword TextJustify where
  mem_all member := by cases member <;> decide

instance : LawfulKeyword DecorationStyle where
  mem_all member := by cases member <;> decide

instance : LawfulKeyword Line where
  mem_all member := by cases member <;> decide

instance : LawfulKeyword SoleLine where
  mem_all member := by cases member <;> decide

instance : LawfulKeyword TextProperty where
  mem_all member := by cases member <;> decide

namespace Keyword

variable {α : Type} [Keyword α]

theorem lower_of_ofName? {name : Text} {member : α} (h : ofName? name = some member) :
    name.lower = (spelling member).toList :=
  beq_iff_eq.1 (@List.find?_some α _ _ _ h)

variable [LawfulKeyword α]

/-- A name gives the member that it spells, and no other. -/
theorem ofName?_eq_some_iff {name : Text} {member : α} :
    ofName? name = some member ↔ name.lower = (spelling member).toList := by
  refine ⟨lower_of_ofName?, fun h => ?_⟩
  have hmem : ∀ member : α, member ∈ (all : List α) := LawfulKeyword.mem_all
  cases hfound : (ofName? name : Option α) with
  | none => exact absurd (beq_iff_eq.2 h) (List.find?_eq_none.1 hfound member (hmem member))
  | some found =>
    have hsame : (spelling found).toList = (spelling member).toList :=
      (lower_of_ofName? hfound).symm.trans h
    rw [List.inj_on_of_nodup_map LawfulKeyword.nodup (hmem found) (hmem member) hsame]

theorem ofName?_spelling (member : α) : ofName? (spelling member).toList = some member :=
  ofName?_eq_some_iff.2 (LawfulKeyword.lower member (LawfulKeyword.mem_all member))

/-- A member that is written as an identifier is read back. -/
theorem ofValue?_ofMember (member : α) : ofValue? (Value.ofMember member) = some member :=
  ofName?_spelling member

end Keyword

end Css
