import Css.Proofs.TextProperty.Colors
import Css.Proofs.Value.Components

/-!
# The parts of a value

A reader builds every part of a value, at any depth, out of what it has read: the numbers are
finite, and a colour is the one that its digits, its name or its arguments denote
(`Value.isResolvedThroughout_of_parse`). Computing colours leaves the parts as they are but for the
names of colours (`Value.exists_of_contains_computeColors`).
-/

namespace Css

namespace Value

open Lexeme

/-- Whether a value is another one, or stands in it as an item, an argument or a fallback, at any
depth. -/
inductive Contains : (value part : Value) → Prop
  | self (value : Value) : Contains value value
  | item {separator : Separator} {items : List Value} {item part : Value} :
    item ∈ items → Contains item part → Contains (list separator items) part
  | argument {name : Text} {arguments : List Value} {argument part : Value} :
    argument ∈ arguments → Contains argument part → Contains (function name arguments) part
  | channel {name : Text} {arguments : List Value} {rgba : Option Rgba} {argument part : Value} :
    argument ∈ arguments → Contains argument part →
    Contains (colorFunction name arguments rgba) part
  | fallback {name : Text} {fallback part : Value} :
    Contains fallback part → Contains (var name (some fallback)) part

theorem Contains.trans {value part inner : Value} (h : value.Contains part)
    (hinner : part.Contains inner) : value.Contains inner := by
  induction h with
  | self => exact hinner
  | item hmem _ ih => exact .item hmem (ih hinner)
  | argument hmem _ ih => exact .argument hmem (ih hinner)
  | channel hmem _ ih => exact .channel hmem (ih hinner)
  | fallback _ ih => exact .fallback (ih hinner)

theorem contains_of_mem_spaceItems {value item : Value} (h : item ∈ value.spaceItems) :
    value.Contains item := by
  unfold spaceItems at h
  split at h
  · exact .item h (.self item)
  · obtain rfl := List.mem_singleton.1 h
    exact .self item

/-- Whether a part of a value is what it is read as: its number is finite, and its colour the one
that its digits, its name or its arguments denote. -/
def IsResolved : Value → Prop
  | number x => x.isFinite = true
  | percentage x => x.isFinite = true
  | dimension x _ => x.isFinite = true
  | color (.hex digits rgba) => Rgba.ofHex? digits = some rgba
  | color (.named name rgba) => ofName name = color (.named name rgba)
  | colorFunction name arguments rgba => call name arguments = colorFunction name arguments rgba
  | _ => True

def IsResolvedThroughout (value : Value) : Prop := ∀ part, value.Contains part → part.IsResolved

theorem IsResolvedThroughout.of_contains {value part : Value} (h : value.IsResolvedThroughout)
    (hpart : value.Contains part) : part.IsResolvedThroughout :=
  fun inner hinner => h inner (hpart.trans hinner)

/-! ### Parts that are read -/

section Build

variable {values : List Value} (h : ∀ value ∈ values, value.IsResolvedThroughout)

include h

theorem isResolvedThroughout_list (separator : Separator) :
    (list separator values).IsResolvedThroughout := by
  intro part hpart
  cases hpart with
  | self => trivial
  | item hmem hitem => exact h _ hmem part hitem

theorem isResolvedThroughout_call (name : Text) : (call name values).IsResolvedThroughout := by
  unfold call
  split
  · rename_i hname
    intro part hpart
    cases hpart with
    | self => exact if_pos hname
    | channel hmem hargument => exact h _ hmem part hargument
  · intro part hpart
    cases hpart with
    | self => trivial
    | argument hmem hargument => exact h _ hmem part hargument

theorem isResolvedThroughout_spaceList : (spaceList values).IsResolvedThroughout := by
  unfold spaceList
  split
  · exact h _ List.mem_cons_self
  · exact isResolvedThroughout_list h .space

theorem isResolvedThroughout_ofGroups : (ofGroups values).IsResolvedThroughout := by
  unfold ofGroups
  split
  · exact h _ List.mem_cons_self
  · exact isResolvedThroughout_list h .comma

end Build

variable {lineComments : Bool}

theorem isResolvedThroughout_ofName (name : Text) : (ofName name).IsResolvedThroughout := by
  intro part hpart
  unfold ofName at hpart
  split at hpart
  · cases hpart
    trivial
  · rename_i hkeyword hrgba
    cases hpart
    rw [IsResolved, ofName, hkeyword, hrgba]
  · cases hpart
    trivial

/-- A component on its own has no parts but itself. -/
theorem isResolvedThroughout_of_isRead {lexeme : Lexeme} {behind : Text} {value : Value}
    (h : IsRead lineComments lexeme behind) (hread : ofToken lexeme.token = .ok value) :
    value.IsResolvedThroughout := by
  have hfinite : ∀ {numeric : Numeric}, lexeme.token.numeric? = some numeric →
      numeric.value.isFinite = true := isFinite_numeric h
  generalize lexeme.token = token at hread hfinite
  intro part hpart
  cases token with
  | number numeric =>
    obtain rfl := Except.ok.inj hread
    cases hpart
    exact hfinite rfl
  | percentage numeric =>
    obtain rfl := Except.ok.inj hread
    cases hpart
    exact hfinite rfl
  | dimension numeric unit =>
    obtain rfl := Except.ok.inj hread
    cases hpart
    exact hfinite rfl
  | ident name =>
    obtain rfl := Except.ok.inj hread
    exact isResolvedThroughout_ofName name part hpart
  | hash digits isId =>
    simp only [ofToken] at hread
    split at hread
    · rename_i hrgba
      obtain rfl := Except.ok.inj hread
      cases hpart
      exact hrgba
    · contradiction
  | string content quote =>
    obtain rfl := Except.ok.inj hread
    cases hpart
    trivial
  | url target =>
    obtain rfl := Except.ok.inj hread
    cases hpart
    trivial
  | delim c =>
    simp only [ofToken] at hread
    split at hread
    · obtain rfl := Except.ok.inj hread
      cases hpart
      trivial
    · contradiction
  | _ => contradiction

theorem isResolvedThroughout_of_parseQuotedUrl {inner : List Lexeme} {value : Value}
    (h : parseQuotedUrl inner = .ok value) : value.IsResolvedThroughout := by
  unfold parseQuotedUrl at h
  split at h
  · split at h
    · obtain rfl := Except.ok.inj h
      intro part hpart
      cases hpart
      trivial
    · contradiction
  · contradiction

theorem isResolvedThroughout_var (name : Text) {fallback : Option Value}
    (h : ∀ value ∈ fallback, value.IsResolvedThroughout) :
    (var name fallback).IsResolvedThroughout := by
  intro part hpart
  cases hpart with
  | self => trivial
  | fallback hvalue => exact h _ rfl part hvalue

theorem isResolvedThroughout_ofFallback {behind : List Lexeme}
    (h : ∀ {values : List Value}, parseGroups (splitCommas behind).toList = .ok values →
      ∀ value ∈ values, value.IsResolvedThroughout) : (ofFallback behind).IsResolvedThroughout := by
  have hraw : ∀ text : Text, (raw text).IsResolvedThroughout := fun text part hpart => by
    cases hpart
    trivial
  unfold ofFallback
  split
  · exact hraw []
  · split
    · exact isResolvedThroughout_ofGroups (h ‹_›)
    · exact hraw _

/-! A reader makes nothing else, by its recursion. -/

mutual

theorem isResolvedThroughout_of_parseItems {lexemes : List Lexeme} {items : List Value}
    (hread : ∀ lexeme ∈ lexemes, ∃ behind, IsRead lineComments lexeme behind)
    (h : parseItems lexemes = .ok items) : ∀ item ∈ items, item.IsResolvedThroughout := by
  match lexemes with
  | [] =>
    rw [parseItems_nil] at h
    obtain rfl := Except.ok.inj h
    exact List.forall_mem_nil _
  | lexeme :: lexemes =>
    obtain ⟨⟨behind, hlexeme⟩, hlexemes⟩ := List.forall_mem_cons.1 hread
    rw [parseItems_cons] at h
    split at h
    · exact isResolvedThroughout_of_parseItems hlexemes h
    split at h
    · cases hcut : cutBlock? lexemes with
      | none =>
        rw [hcut] at h
        contradiction
      | some block =>
        have hlength := length_of_cutBlock? hcut
        rw [cutBlock?_eq_some hcut] at hlexemes
        rw [hcut] at h
        obtain ⟨value, more, hcall, hitems, rfl⟩ := exists_of_cons_eq_ok h
        refine List.forall_mem_cons.2 ⟨isResolvedThroughout_of_parseCall ?_ hcall,
          isResolvedThroughout_of_parseItems ?_ hitems⟩
        · exact fun lexeme hmem => hlexemes lexeme (List.mem_append_left _ hmem)
        · exact fun lexeme hmem =>
            hlexemes lexeme (List.mem_append_right _ (List.mem_cons_of_mem _ hmem))
    · obtain ⟨value, more, hvalue, hitems, rfl⟩ := exists_of_cons_eq_ok h
      exact List.forall_mem_cons.2 ⟨isResolvedThroughout_of_isRead hlexeme hvalue,
        isResolvedThroughout_of_parseItems hlexemes hitems⟩
termination_by 2 * lexemes.length
decreasing_by all_goals (simp only [List.length_cons]; omega)

theorem isResolvedThroughout_of_parseGroups {groups : List (List Lexeme)} {values : List Value}
    (hread : ∀ group ∈ groups, ∀ lexeme ∈ group, ∃ behind, IsRead lineComments lexeme behind)
    (h : parseGroups groups = .ok values) : ∀ value ∈ values, value.IsResolvedThroughout := by
  match groups with
  | [] =>
    rw [parseGroups_nil] at h
    obtain rfl := Except.ok.inj h
    exact List.forall_mem_nil _
  | group :: groups =>
    obtain ⟨hgroup, hgroups⟩ := List.forall_mem_cons.1 hread
    obtain ⟨items, more, hitems, -, hvalues, rfl⟩ := exists_of_parseGroups_cons h
    exact List.forall_mem_cons.2
      ⟨isResolvedThroughout_spaceList (isResolvedThroughout_of_parseItems hgroup hitems),
        isResolvedThroughout_of_parseGroups hgroups hvalues⟩
termination_by 2 * totalLength groups
decreasing_by all_goals (simp only [totalLength]; omega)

theorem isResolvedThroughout_of_parseCall {name : Text} {inner : List Lexeme} {value : Value}
    (hread : ∀ lexeme ∈ inner, ∃ behind, IsRead lineComments lexeme behind)
    (h : parseCall name inner = .ok value) : value.IsResolvedThroughout := by
  have hgroups : ∀ {part : List Lexeme} {values : List Value}, part <:+ inner →
      parseGroups (splitCommas part).toList = .ok values →
        ∀ value ∈ values, value.IsResolvedThroughout := fun hpart hvalues =>
    isResolvedThroughout_of_parseGroups (fun group hgroup lexeme hmem => hread lexeme
      (hpart.subset ((infix_of_mem_splitCommas hgroup).subset hmem))) hvalues
  cases hurl : name.isKeyword "url" with
  | true =>
    rw [parseCall_eq, if_pos hurl] at h
    exact isResolvedThroughout_of_parseQuotedUrl h
  | false =>
    cases hvar : name.isKeyword "var" with
    | true =>
      rw [parseCall_eq_var hurl hvar] at h
      obtain ⟨⟨property, fallback⟩, hcut, rfl⟩ := exists_of_map_eq_ok h
      refine isResolvedThroughout_var property fun value hvalue => ?_
      obtain ⟨behind, rfl, rfl⟩ := Option.map_eq_some_iff.1 hvalue
      exact isResolvedThroughout_ofFallback (hgroups (suffix_of_cutVariable hcut))
    | false =>
      rw [parseCall_eq, hurl, hvar] at h
      simp only [Bool.false_eq_true, if_false] at h
      split at h
      · obtain rfl := Except.ok.inj h
        exact isResolvedThroughout_call (List.forall_mem_nil _) name
      · obtain ⟨values, hvalues, rfl⟩ := exists_of_map_eq_ok (f := call name) h
        exact isResolvedThroughout_call (hgroups List.suffix_rfl hvalues) name
termination_by 2 * inner.length + 3
decreasing_by
  all_goals
    have := hpart.length_le
    rw [totalLength_splitCommas]
    omega

end

/-- Every part of a value that is read from a text is what it is read as. -/
theorem isResolvedThroughout_of_parse {text : Text} {value : Value}
    (h : parse ((Reading.all lineComments 0 text).map (·.lexeme)) = .ok value) :
    value.IsResolvedThroughout := by
  have hall := Reading.eachStands_all lineComments 0 text
  generalize (Reading.all lineComments 0 text).map (·.lexeme) = lexemes at h hall
  have hread : ∀ lexeme ∈ lexemes, ∃ behind, IsRead lineComments lexeme behind := by
    intro lexeme hmem
    obtain ⟨front, back, rfl⟩ := List.append_of_mem hmem
    exact ⟨_, (eachStands_append.1 hall).2.1⟩
  obtain ⟨-, values, hvalues, rfl⟩ := exists_of_parse h
  have hgroups : ∀ group ∈ (splitCommas lexemes).toList, ∀ lexeme ∈ group,
      ∃ behind, IsRead lineComments lexeme behind := fun group hgroup lexeme hmem =>
    hread lexeme ((infix_of_mem_splitCommas hgroup).subset hmem)
  exact isResolvedThroughout_ofGroups (isResolvedThroughout_of_parseGroups hgroups hvalues)

/-! ### Parts whose colours are computed -/

/-- What stands in a value whose colours are computed stood in the value, or is a part of it whose
colours are computed. -/
theorem exists_of_contains_computeColors {value part : Value}
    (h : value.computeColors.Contains part) :
    ∃ old, value.Contains old ∧ (part = old ∨ part = old.computeColors) := by
  cases value with
  | list separator items =>
    rw [computeColors] at h
    cases h with
    | self => exact ⟨_, .self _, .inr (by rw [computeColors])⟩
    | item hcomputed hitem =>
      rw [computeAll_eq] at hcomputed
      obtain ⟨item, hmem, rfl⟩ := List.mem_map.1 hcomputed
      obtain ⟨old, hold, hpart⟩ := exists_of_contains_computeColors hitem
      exact ⟨old, .item hmem hold, hpart⟩
  | function name arguments =>
    rw [computeColors] at h
    cases h with
    | self => exact ⟨_, .self _, .inr (by rw [computeColors])⟩
    | argument hcomputed hargument =>
      rw [computeAll_eq] at hcomputed
      obtain ⟨argument, hmem, rfl⟩ := List.mem_map.1 hcomputed
      obtain ⟨old, hold, hpart⟩ := exists_of_contains_computeColors hargument
      exact ⟨old, .argument hmem hold, hpart⟩
  | var name fallback =>
    rw [computeColors] at h
    cases fallback with
    | none =>
      cases h
      exact ⟨_, .self _, .inl rfl⟩
    | some value =>
      cases h with
      | self => exact ⟨_, .self _, .inr (by rw [computeColors])⟩
      | fallback hvalue =>
        obtain ⟨old, hold, hpart⟩ := exists_of_contains_computeColors hvalue
        exact ⟨old, .fallback hold, hpart⟩
  | color c =>
    cases c with
    | named name rgba =>
      cases h
      exact ⟨_, .self _, .inr rfl⟩
    | _ => exact ⟨part, h, .inl rfl⟩
  | _ => exact ⟨part, h, .inl rfl⟩

theorem IsResolved.computeColors {value : Value} (h : value.IsResolved) :
    value.computeColors.IsResolved := by
  cases value with
  | color c => cases c <;> first | exact h | trivial
  | _ => exact h

theorem IsResolvedThroughout.computeColors {value : Value} (h : value.IsResolvedThroughout) :
    value.computeColors.IsResolvedThroughout := by
  intro part hpart
  obtain ⟨old, hold, rfl | rfl⟩ := exists_of_contains_computeColors hpart
  · exact h part hold
  · exact (h old hold).computeColors

end Value

end Css
