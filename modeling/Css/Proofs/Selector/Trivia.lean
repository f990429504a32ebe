import Css.Proofs.Selector.Parsing
import Css.Proofs.Value.Trivia

/-!
# Trivia around selectors

Trivia at the end of a selector list do not matter (`SelectorList.parse_append_void`): they are
left behind by every simple selector, and a selector that may end may end behind them.
-/

namespace Css

open Lexeme

variable {after : List Lexeme}

namespace SimpleSelector

theorem cutPseudo_of_isTrivia {lexeme : Lexeme} (h : lexeme.isTrivia = true) (isElement : Bool)
    (lexemes : List Lexeme) :
    cutPseudo isElement (lexeme :: lexemes) = .error .missingPseudoName := by
  rw [isTrivia] at h
  rw [cutPseudo]
  generalize lexeme.token = token at h ⊢
  cases token <;> first | rfl | contradiction

theorem cutPseudo_append_void (hafter : isVoid after = true) (isElement : Bool)
    (lexemes : List Lexeme) :
    cutPseudo isElement (lexemes ++ after) =
      (cutPseudo isElement lexemes).map fun (simple, rest) => (simple, rest ++ after) := by
  cases lexemes with
  | nil =>
    cases after with
    | nil => rfl
    | cons trivia after =>
      exact cutPseudo_of_isTrivia (List.all_eq_true.1 hafter trivia List.mem_cons_self) ..
  | cons lexeme lexemes =>
    rw [List.cons_append, cutPseudo, cutBlock?, cutBlockFrom?_append_void hafter, cutPseudo]
    cases lexeme.token with
    | ident name => rfl
    | function name =>
      rw [← cutBlock?]
      cases cutBlock? lexemes with
      | none => rfl
      | some block =>
        simp only [Option.map_some]
        split
        · rfl
        split <;> rfl
    | _ => rfl

theorem cut_append_void (hafter : isVoid after = true) (isFirst : Bool) (lexeme : Lexeme)
    (lexemes : List Lexeme) :
    cut isFirst lexeme (lexemes ++ after) =
      (cut isFirst lexeme lexemes).map fun (simple, rest) => (simple, rest ++ after) := by
  unfold cut
  split
  · split <;> rfl
  · split <;> rfl
  · rfl
  · cases lexemes with
    | nil =>
      cases after with
      | nil => rfl
      | cons trivia after =>
        have htrivia := List.all_eq_true.1 hafter trivia List.mem_cons_self
        rw [isTrivia] at htrivia
        simp only [List.nil_append]
        generalize trivia.token = token at htrivia ⊢
        cases token <;> first | rfl | contradiction
    | cons next lexemes =>
      simp only [List.cons_append]
      cases next.token <;> rfl
  · rfl
  · rfl
  · rw [cutBlock?, cutBlockFrom?_append_void hafter, ← cutBlock?]
    cases cutBlock? lexemes with
    | none => rfl
    | some block =>
      simp only [Option.map_some]
      cases AttributeSelector.parse block.inner <;> rfl
  · cases lexemes with
    | nil =>
      cases after with
      | nil => rfl
      | cons trivia after =>
        have htrivia := List.all_eq_true.1 hafter trivia List.mem_cons_self
        have hcolon : trivia.token ≠ .colon := fun hcolon => by
          rw [isTrivia, hcolon] at htrivia
          contradiction
        simp only [List.nil_append, if_neg hcolon, cutPseudo_of_isTrivia htrivia]
        rfl
    | cons next rest =>
      have hpseudo := cutPseudo_append_void hafter false (next :: rest)
      rw [List.cons_append] at hpseudo
      simp only [List.cons_append]
      split
      · exact cutPseudo_append_void hafter true rest
      · exact hpseudo
  · rfl
  · rfl
  · rfl

end SimpleSelector

namespace Selector

/-- Behind trivia a selector ends where it may end in front of them. -/
theorem parseFrom_of_isVoid (hafter : isVoid after = true) (relative : Bool) (place : Place) :
    parseFrom relative place after = parseFrom relative place [] := by
  induction after generalizing place with
  | nil => rfl
  | cons trivia after ih =>
    rw [isVoid, List.all_cons, Bool.and_eq_true] at hafter
    rw [parseFrom_of_isTrivia hafter.1, ih hafter.2, parseFrom_nil, parseFrom_nil]
    cases place <;> rfl

theorem parseFrom_append_void (hafter : isVoid after = true) (relative : Bool) (place : Place)
    (lexemes : List Lexeme) :
    parseFrom relative place (lexemes ++ after) = parseFrom relative place lexemes := by
  cases lexemes with
  | nil => exact parseFrom_of_isVoid hafter relative place
  | cons lexeme lexemes =>
    rw [List.cons_append, parseFrom_cons, parseFrom_cons, SimpleSelector.cut_append_void hafter]
    split
    · exact parseFrom_append_void hafter relative place.afterTrivia lexemes
    split
    · cases place.afterCombinator relative _ with
      | error error => rfl
      | ok behind => exact parseFrom_append_void hafter relative behind lexemes
    · cases hcut : SimpleSelector.cut (place != .compound) lexeme lexemes with
      | error error => rfl
      | ok result =>
        obtain ⟨simple, rest⟩ := result
        have hlength := SimpleSelector.length_of_cut hcut
        have hrest := parseFrom_append_void hafter relative .compound rest
        cases simple with
        | component component => simp only [Except.map, Except.bind, bind, hrest]
        | selectorFunction name inner => simp only [Except.map, Except.bind, bind, hrest]
termination_by lexemes.length

theorem parseGroups_congr {relative : Bool} {groups groups' : List (List Lexeme)}
    (h : List.Forall₂
      (fun group group' => parseFrom relative .start group' = parseFrom relative .start group)
      groups groups') : parseGroups relative groups' = parseGroups relative groups := by
  induction h with
  | nil => rfl
  | cons hgroup _ ih => rw [parseGroups_cons, parseGroups_cons, hgroup, ih]

end Selector

/-- Trivia at the end of a selector list do not matter. -/
theorem SelectorList.parse_append_void (hafter : isVoid after = true) (lexemes : List Lexeme) :
    parse (lexemes ++ after) = parse lexemes := by
  refine Selector.parseGroups_congr ((splitCommasFrom_append_void hafter 0 lexemes).imp ?_)
  rintro group _ (rfl | rfl)
  · rfl
  · exact Selector.parseFrom_append_void hafter false .start _

end Css
