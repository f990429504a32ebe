import Css.Proofs.Media.Reading
import Css.Proofs.Token.Depth

/-!
# How deep conditions nest

Every `not`, `and` and `or` of a condition reads its parts from brackets of their own, so a
condition nests at most as deep as the brackets of the lexemes that it was read from.
-/

namespace Css

namespace MediaCondition

mutual

def nesting : MediaCondition → Nat
  | feature _ => 0
  | negation condition => nesting condition + 1
  | conjunction conditions => nestingAll conditions + 1
  | disjunction conditions => nestingAll conditions + 1

def nestingAll : List MediaCondition → Nat
  | [] => 0
  | condition :: conditions => max (nesting condition) (nestingAll conditions)

end

theorem nesting_join (junction : Junction) (conditions : List MediaCondition) :
    (junction.join conditions).nesting = nestingAll conditions + 1 := by
  cases junction <;> rfl

open Lexeme

theorem deepest_of_cutBrackets? {lexemes : List Lexeme} {block : Block}
    (h : cutBrackets? lexemes = some block) :
    deepest 0 block.inner < deepest 0 lexemes ∧ deepest 0 block.rest ≤ deepest 0 lexemes := by
  unfold cutBrackets? at h
  split at h
  · rename_i rest hrest
    obtain ⟨lexeme, htoken, hle⟩ := deepest_of_next? hrest 0
    rw [depthBehind_of_opens? (by rw [htoken]; rfl)] at hle
    exact ⟨Nat.lt_of_lt_of_le (deepest_inner_lt h) hle, Nat.le_trans (deepest_rest_le 0 h) hle⟩
  · contradiction

theorem deepest_of_cutNot? {lexemes rest : List Lexeme} (h : cutNot? lexemes = some rest) :
    deepest 0 rest ≤ deepest 0 lexemes := by
  unfold cutNot? at h
  split at h
  · contradiction
  · rename_i token rest' hrest
    obtain ⟨lexeme, rfl, hle⟩ := deepest_of_next? hrest 0
    split at h
    · rename_i hident
      obtain rfl := Option.some.inj h
      rwa [depthBehind_of_isIdent hident] at hle
    · contradiction

theorem deepest_of_cutJunction? {allowOr : Bool} {lexemes rest : List Lexeme}
    {junction : Junction} (h : cutJunction? allowOr lexemes = some (junction, rest)) :
    deepest 0 rest ≤ deepest 0 lexemes := by
  unfold cutJunction? at h
  split at h
  · contradiction
  · rename_i token rest' hrest
    obtain ⟨lexeme, rfl, hle⟩ := deepest_of_next? hrest 0
    split at h
    · rename_i hident
      obtain ⟨-, rfl⟩ := Prod.mk.inj (Option.some.inj h)
      rwa [depthBehind_of_isIdent hident] at hle
    split at h
    · rename_i hident
      obtain ⟨-, rfl⟩ := Prod.mk.inj (Option.some.inj h)
      rw [Bool.and_eq_true] at hident
      rwa [depthBehind_of_isIdent hident.2] at hle
    · contradiction

mutual

/-- A condition nests no deeper than the lexemes it is read from, and neither do those left. -/
theorem nesting_of_parse? {allowOr : Bool} {lexemes rest : List Lexeme}
    {condition : MediaCondition} (h : parse? allowOr lexemes = some (condition, rest)) :
    condition.nesting ≤ deepest 0 lexemes ∧ deepest 0 rest ≤ deepest 0 lexemes := by
  rw [parse?_eq] at h
  cases hnot : cutNot? lexemes with
  | some behind =>
    simp only [hnot] at h
    obtain ⟨block, hcut, hnested⟩ := Option.bind_eq_some_iff.1 h
    obtain ⟨inner, hinner, heq⟩ := Option.map_eq_some_iff.1 hnested
    obtain ⟨rfl, rfl⟩ := Prod.mk.inj heq
    have hshorter := length_of_cutNot? hnot
    have hlength := length_of_cutBrackets? hcut
    have hbehind := deepest_of_cutNot? hnot
    obtain ⟨hblock, hrest⟩ := deepest_of_cutBrackets? hcut
    have := nesting_of_parseNested? hinner
    rw [nesting]
    omega
  | none =>
    simp only [hnot] at h
    obtain ⟨block, hcut, h⟩ := Option.bind_eq_some_iff.1 h
    obtain ⟨first, hfirst, h⟩ := Option.bind_eq_some_iff.1 h
    have hlength := length_of_cutBrackets? hcut
    obtain ⟨hblock, hrest⟩ := deepest_of_cutBrackets? hcut
    have hnested := nesting_of_parseNested? hfirst
    cases hjunction : cutJunction? allowOr block.rest with
    | none =>
      simp only [hjunction] at h
      obtain ⟨rfl, rfl⟩ := Prod.mk.inj (Option.some.inj h)
      omega
    | some cut =>
      obtain ⟨junction, behind⟩ := cut
      simp only [hjunction] at h
      obtain ⟨⟨more, left⟩, hmore, heq⟩ := Option.bind_eq_some_iff.1 h
      obtain ⟨rfl, rfl⟩ := Prod.mk.inj (Option.some.inj heq)
      have hall := nesting_of_parseMore? hmore
      simp only [nesting_join, nestingAll]
      obtain ⟨hmore | rfl, hleft⟩ := hall
      · omega
      · simp only [nestingAll]
        omega
termination_by 2 * lexemes.length

theorem nesting_of_parseNested? {inner : List Lexeme} {condition : MediaCondition}
    (h : parseNested? inner = some condition) : condition.nesting ≤ deepest 0 inner := by
  rw [parseNested?_eq] at h
  split at h
  · obtain ⟨⟨read, rest⟩, hread, h⟩ := Option.bind_eq_some_iff.1 h
    have hnesting := (nesting_of_parse? hread).1
    simp only at h
    split at h
    · obtain rfl := Option.some.inj h
      exact hnesting
    · contradiction
  · obtain ⟨feature, -, rfl⟩ := Option.map_eq_some_iff.1 h
    exact Nat.zero_le _
termination_by 2 * inner.length + 1

theorem nesting_of_parseMore? {allowOr : Bool} {junction : Junction}
    {lexemes rest : List Lexeme} {more : List MediaCondition}
    (h : parseMore? allowOr junction lexemes = some (more, rest)) :
    (nestingAll more < deepest 0 lexemes ∨ more = []) ∧ deepest 0 rest ≤ deepest 0 lexemes := by
  rw [parseMore?_eq] at h
  cases hjunction : cutJunction? allowOr lexemes with
  | none =>
    simp only [hjunction] at h
    obtain ⟨rfl, rfl⟩ := Prod.mk.inj (Option.some.inj h)
    exact ⟨.inr rfl, Nat.le_refl _⟩
  | some cut =>
    obtain ⟨junction', behind⟩ := cut
    simp only [hjunction] at h
    split at h
    · contradiction
    · obtain ⟨block, hcut, h⟩ := Option.bind_eq_some_iff.1 h
      obtain ⟨condition, hcondition, h⟩ := Option.bind_eq_some_iff.1 h
      obtain ⟨⟨others, left⟩, hothers, heq⟩ := Option.bind_eq_some_iff.1 h
      obtain ⟨rfl, rfl⟩ := Prod.mk.inj (Option.some.inj heq)
      have hshorter := length_of_cutJunction? hjunction
      have hlength := length_of_cutBrackets? hcut
      have hbehind := deepest_of_cutJunction? hjunction
      obtain ⟨hblock, hrest⟩ := deepest_of_cutBrackets? hcut
      have hnested := nesting_of_parseNested? hcondition
      obtain ⟨hall, hleft⟩ := nesting_of_parseMore? hothers
      refine ⟨.inl ?_, by simp only; omega⟩
      simp only [nestingAll]
      obtain hall | rfl := hall
      · omega
      · simp only [nestingAll]
        omega
termination_by 2 * lexemes.length

end

end MediaCondition

namespace MediaQuery

open Lexeme

theorem deepest_of_next?_ident {lexemes rest : List Lexeme} {name : Text}
    (h : next? lexemes = some (.ident name, rest)) : deepest 0 rest ≤ deepest 0 lexemes := by
  obtain ⟨lexeme, htoken, hle⟩ := deepest_of_next? h 0
  have hbehind : lexeme.depthBehind 0 = 0 := by
    rw [depthBehind, htoken]
    rfl
  rwa [hbehind] at hle

theorem deepest_cutQualifier (lexemes : List Lexeme) :
    deepest 0 (cutQualifier lexemes).2 ≤ deepest 0 lexemes := by
  unfold cutQualifier
  split
  · rename_i word rest hword
    have := deepest_of_next?_ident hword
    split
    · split
      · exact this
      split
      · exact this
      · exact Nat.le_refl _
    · exact Nat.le_refl _
  · exact Nat.le_refl _

theorem deepest_of_cutType? {lexemes rest : List Lexeme} {name : Text}
    (h : cutType? lexemes = some (name, rest)) : deepest 0 rest ≤ deepest 0 lexemes := by
  unfold cutType? at h
  split at h
  · rename_i word rest' hword
    split at h
    · contradiction
    · obtain ⟨rfl, rfl⟩ := Prod.mk.inj (Option.some.inj h)
      exact deepest_of_next?_ident hword
  · contradiction

theorem nesting_of_cut? {lexemes rest : List Lexeme} {query : MediaQuery}
    (h : cut? lexemes = some (query, rest)) :
    ∀ condition ∈ query.condition, condition.nesting ≤ deepest 0 lexemes := by
  have hqualifier := deepest_cutQualifier lexemes
  unfold cut? at h
  simp only at h
  intro condition hmem
  split at h
  · rename_i mediaType behind htype
    have hbehind := deepest_of_cutType? htype
    split at h
    · obtain ⟨rfl, -⟩ := Prod.mk.inj (Option.some.inj h)
      contradiction
    · rename_i junction behind' hjunction
      have hbehind' := MediaCondition.deepest_of_cutJunction? hjunction
      obtain ⟨⟨read, left⟩, hread, heq⟩ := Option.map_eq_some_iff.1 h
      obtain ⟨rfl, -⟩ := Prod.mk.inj heq
      obtain rfl := Option.some.inj hmem
      have hread := (MediaCondition.nesting_of_parse? hread).1
      exact Nat.le_trans hread (by omega)
  · split at h
    · contradiction
    · obtain ⟨⟨read, left⟩, hread, heq⟩ := Option.map_eq_some_iff.1 h
      obtain ⟨rfl, -⟩ := Prod.mk.inj heq
      obtain rfl := Option.some.inj hmem
      have hread := (MediaCondition.nesting_of_parse? hread).1
      exact Nat.le_trans hread (by omega)

theorem nesting_of_query {lexemes : List Lexeme} {query : MediaQuery}
    (h : parse? lexemes = some query) :
    ∀ condition ∈ query.condition, condition.nesting ≤ deepest 0 lexemes := by
  obtain ⟨⟨read, rest⟩, hread, h⟩ := Option.bind_eq_some_iff.1 h
  simp only at h
  split at h
  · obtain rfl := Option.some.inj h
    exact nesting_of_cut? hread
  · contradiction

end MediaQuery

theorem exists_of_mem_mapM {α β : Type} {f : α → Option β} {xs : List α} {ys : List β}
    (h : xs.mapM f = some ys) {y : β} (hmem : y ∈ ys) : ∃ x ∈ xs, f x = some y := by
  induction xs generalizing ys with
  | nil =>
    rw [List.mapM_nil] at h
    obtain rfl := Option.some.inj h
    contradiction
  | cons x xs ih =>
    rw [List.mapM_cons] at h
    obtain ⟨first, hfirst, h⟩ := Option.bind_eq_some_iff.1 h
    obtain ⟨others, hothers, h⟩ := Option.bind_eq_some_iff.1 h
    obtain rfl := Option.some.inj h
    obtain rfl | hmem := List.mem_cons.1 hmem
    · exact ⟨x, List.mem_cons_self, hfirst⟩
    · obtain ⟨x', hmem', hx'⟩ := ih hothers hmem
      exact ⟨x', List.mem_cons_of_mem _ hmem', hx'⟩

/-- The conditions of a media query list nest no deeper than the lexemes it is read from. -/
theorem MediaList.nesting_of_parse? {lexemes : List Lexeme} {queries : MediaList}
    (h : MediaList.parse? lexemes = some queries) :
    ∀ query ∈ queries, ∀ condition ∈ query.condition,
      condition.nesting ≤ Lexeme.deepest 0 lexemes := by
  intro query hquery condition hcondition
  unfold MediaList.parse? at h
  split at h
  · obtain rfl := Option.some.inj h
    contradiction
  · obtain ⟨group, hgroup, hread⟩ := exists_of_mem_mapM h hquery
    exact Nat.le_trans (MediaQuery.nesting_of_query hread condition hcondition)
      (Lexeme.deepest_of_mem_splitCommas hgroup)

end Css
