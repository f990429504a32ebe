import Css.Proofs.Token.Depth
import Css.Proofs.Token.Run
import Css.Proofs.Value.Reading

/-!
# How deep function calls nest in a value

Every function of a value was read from brackets of its own, so the calls of a value nest at most as
deep as the brackets of the lexemes that it was read from.
-/

namespace Css

namespace Value

mutual

/-- The most function calls inside one another, `var()` and colour functions among them. -/
def callDepth : Value → Nat
  | colorFunction _ arguments _ => callDepthAll arguments + 1
  | function _ arguments => callDepthAll arguments + 1
  | var _ fallback => callDepthOption fallback + 1
  | list _ items => callDepthAll items
  | _ => 0

def callDepthAll : List Value → Nat
  | [] => 0
  | value :: values => max (callDepth value) (callDepthAll values)

def callDepthOption : Option Value → Nat
  | none => 0
  | some value => callDepth value

end

theorem callDepth_call (name : Text) (arguments : List Value) :
    (call name arguments).callDepth = callDepthAll arguments + 1 := by
  unfold call
  split <;> simp only [callDepth]

theorem callDepth_spaceList (items : List Value) :
    (spaceList items).callDepth = callDepthAll items := by
  unfold spaceList
  split
  · simp [callDepthAll]
  · simp only [callDepth]

theorem callDepth_ofGroups (values : List Value) :
    (ofGroups values).callDepth = callDepthAll values := by
  unfold ofGroups
  split
  · simp [callDepthAll]
  · simp only [callDepth]

theorem callDepth_ofToken {token : Token} {value : Value} (h : ofToken token = .ok value) :
    value.callDepth = 0 := by
  unfold ofToken ofName at h
  split at h <;> try split at h
  all_goals first
    | contradiction
    | (obtain rfl := Except.ok.inj h; simp only [callDepth])

theorem no_bracket_of_ofToken {token : Token} {value : Value} (h : ofToken token = .ok value) :
    token.opens? = none ∧ token.closes? = none := by
  cases token with
  | function name => simp [ofToken] at h
  | opening bracket => simp [ofToken] at h
  | closing bracket => simp [ofToken] at h
  | _ => exact ⟨rfl, rfl⟩

open Lexeme

theorem callDepth_of_parseQuotedUrl {inner : List Lexeme} {value : Value}
    (h : parseQuotedUrl inner = .ok value) : value.callDepth = 0 := by
  unfold parseQuotedUrl at h
  split at h
  · split at h
    · obtain rfl := Except.ok.inj h
      simp only [callDepth]
    · contradiction
  · contradiction

theorem deepest_of_cutVariable {inner fallback : List Lexeme} {name : Text}
    (h : cutVariable inner = .ok (name, some fallback)) :
    deepest 0 fallback ≤ deepest 0 inner := by
  unfold cutVariable at h
  split at h
  · contradiction
  · rename_i name' rest hrest
    split at h
    · simp at h
    · rename_i fallback' hfallback
      obtain ⟨-, hfallback'⟩ := Prod.mk.inj (Except.ok.inj h)
      obtain rfl := Option.some.inj hfallback'
      exact Nat.le_trans (deepest_of_next?_plain hfallback rfl rfl 0)
        (deepest_of_next?_plain hrest rfl rfl 0)
    · contradiction
  · contradiction

mutual

theorem callDepth_of_parseItems {lexemes : List Lexeme} {items : List Value}
    (h : parseItems lexemes = .ok items) : callDepthAll items ≤ deepest 0 lexemes := by
  match lexemes with
  | [] =>
    rw [parseItems_nil] at h
    obtain rfl := Except.ok.inj h
    exact Nat.zero_le _
  | lexeme :: lexemes =>
    rw [parseItems_cons] at h
    split at h
    · rename_i htrivia
      exact Nat.le_trans (callDepth_of_parseItems h)
        (deepest_tail_le_of_isTrivia htrivia 0 lexemes)
    split at h
    · rename_i name htoken
      cases hcut : cutBlock? lexemes with
      | none => rw [hcut] at h; contradiction
      | some block =>
        have hlength := length_of_cutBlock? hcut
        obtain ⟨hinner, hrest⟩ :=
          @deepest_of_cutBlock? lexeme _ _ (by rw [htoken]; rfl) hcut
        rw [hcut] at h
        obtain ⟨value, more, hcall, hitems, rfl⟩ := exists_of_cons_eq_ok h
        have hvalue := callDepth_of_parseCall hcall
        have hmore := callDepth_of_parseItems hitems
        simp only [callDepthAll]
        omega
    · rename_i token hfunction
      obtain ⟨value, more, hvalue, hitems, rfl⟩ := exists_of_cons_eq_ok h
      have hmore := callDepth_of_parseItems hitems
      obtain ⟨hopens, hcloses⟩ := no_bracket_of_ofToken hvalue
      have hbehind := deepest_tail_le hopens hcloses 0 lexemes
      simp only [callDepthAll, callDepth_ofToken hvalue]
      omega
termination_by 2 * lexemes.length

theorem callDepth_of_parseGroups {groups : List (List Lexeme)} {values : List Value}
    (h : parseGroups groups = .ok values) : callDepthAll values ≤ deepestAll groups := by
  match groups with
  | [] =>
    rw [parseGroups_nil] at h
    obtain rfl := Except.ok.inj h
    exact Nat.zero_le _
  | group :: groups =>
    have hlength : totalLength (group :: groups) = group.length + 1 + totalLength groups := rfl
    obtain ⟨items, more, hitems, -, hvalues, rfl⟩ := exists_of_parseGroups_cons h
    have hfirst := callDepth_of_parseItems hitems
    have hmore := callDepth_of_parseGroups hvalues
    simp only [callDepthAll, callDepth_spaceList, deepestAll]
    omega
termination_by 2 * totalLength groups

/-- A call nests one deeper than what its brackets hold. -/
theorem callDepth_of_parseCall {name : Text} {inner : List Lexeme} {value : Value}
    (h : parseCall name inner = .ok value) : value.callDepth ≤ deepest 0 inner + 1 := by
  rw [parseCall_eq] at h
  split at h
  · rw [callDepth_of_parseQuotedUrl h]
    exact Nat.zero_le _
  split at h
  · split at h
    · contradiction
    · obtain rfl := Except.ok.inj h
      simp only [callDepth, callDepthOption]
      omega
    · rename_i name' fallback hcut
      have hshorter := length_of_cutVariable hcut
      have hlength := totalLength_splitCommas fallback
      have hfallback := deepest_of_cutVariable hcut
      have hgroups := deepestAll_splitCommas_le fallback
      split at h
      · obtain rfl := Except.ok.inj h
        simp only [callDepth, callDepthOption]
        omega
      · split at h
        · rename_i values hvalues
          obtain rfl := Except.ok.inj h
          have := callDepth_of_parseGroups hvalues
          simp only [callDepth, callDepthOption, callDepth_ofGroups]
          omega
        · obtain rfl := Except.ok.inj h
          simp only [callDepth, callDepthOption]
          omega
  split at h
  · obtain rfl := Except.ok.inj h
    simp only [callDepth_call, callDepthAll]
    omega
  · obtain ⟨values, hvalues, rfl⟩ := exists_of_map_eq_ok (f := call name) h
    have hlength := totalLength_splitCommas inner
    have hgroups := deepestAll_splitCommas_le inner
    have := callDepth_of_parseGroups hvalues
    rw [callDepth_call]
    omega
termination_by 2 * inner.length + 3

end

/-- The calls of a value nest no deeper than the lexemes it is read from. -/
theorem callDepth_of_parse {lexemes : List Lexeme} {value : Value}
    (h : parse lexemes = .ok value) : value.callDepth ≤ deepest 0 lexemes := by
  obtain ⟨-, values, hvalues, rfl⟩ := exists_of_parse h
  rw [callDepth_ofGroups]
  exact Nat.le_trans (callDepth_of_parseGroups hvalues) (deepestAll_splitCommas_le lexemes)

end Value

namespace Declaration

open Lexeme

theorem deepest_of_cutName {lexemes value : List Lexeme} {name : Text}
    (h : cutName lexemes = .ok (name, value)) : deepest 0 value ≤ deepest 0 lexemes := by
  unfold cutName at h
  split at h
  · rename_i name' rest hname
    split at h
    · rename_i value' hcolon
      obtain ⟨-, rfl⟩ := Prod.mk.inj (Except.ok.inj h)
      exact Nat.le_trans (deepest_of_next?_plain hcolon rfl rfl 0)
        (deepest_of_next?_plain hname rfl rfl 0)
    · contradiction
  · contradiction

/-- A value without `!important` is a front of the value. -/
theorem callDepth_readValue (name : Text) (value : List Lexeme) :
    (readValue name value).callDepth ≤ deepest 0 value := by
  unfold readValue
  split
  · split
    · exact Value.callDepth_of_parse ‹_›
    · simp only [Value.callDepth, Nat.zero_le]
  · simp only [Value.callDepth, Nat.zero_le]

/-- The calls of a declared value nest no deeper than the lexemes of its declaration. -/
theorem callDepth_value {isClosed : Bool} {lexemes : List Lexeme} {declaration : Declaration}
    (h : parse isClosed lexemes = .ok declaration) :
    declaration.value.callDepth ≤ deepest 0 lexemes := by
  unfold parse at h
  cases hname : cutName lexemes with
  | error error => rw [hname] at h; contradiction
  | ok cut =>
    obtain ⟨name, value⟩ := cut
    simp only [hname, bind, Except.bind] at h
    split at h
    · contradiction
    split at h
    · contradiction
    split at h
    · contradiction
    · obtain rfl := Except.ok.inj h
      obtain ⟨back, hback⟩ := prefix_of_cutImportant value
      have hfront := deepest_append_left 0 (cutImportant value).1 back
      rw [hback] at hfront
      exact Nat.le_trans (callDepth_readValue ..)
        (Nat.le_trans hfront (deepest_of_cutName hname))

end Declaration

end Css
