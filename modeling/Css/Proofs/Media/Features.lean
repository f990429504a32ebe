import Css.Proofs.Media.Queries

/-!
# Features that survive printing

A feature that is read of lexemes of a text without backslashes, none of them cut short and no url
among them empty, is read back from what is written for it (`MediaFeature.survives_of_parse?`).
-/

namespace Css

open Lexeme

variable {lineComments : Bool}

/-! ### Features -/

namespace MediaFeature

theorem cutName?_eq_some {lexemes rest : List Lexeme} {name : Text}
    (h : cutName? lexemes = some (name, rest)) :
    ∃ behind, next? lexemes = some (.ident name, behind) ∧ next? behind = some (.colon, rest) := by
  unfold cutName? at h
  split at h
  · rename_i hnext
    split at h
    · rename_i hcolon
      obtain ⟨rfl, rfl⟩ := Prod.mk.inj (Option.some.inj h)
      exact ⟨_, hnext, hcolon⟩
    · contradiction
  · contradiction

theorem cutName?_ofLexemes {lexemes : List Lexeme}
    (hkept : ∀ lexeme ∈ lexemes, TokenRun.isKept lexeme.token = true)
    (h : cutName? lexemes = none) : cutName? (TokenRun.ofLexemes lexemes).toLexemes = none := by
  rw [cutName?] at h
  rw [cutName?, TokenRun.next?_ofLexemes hkept]
  cases hnext : next? lexemes with
  | none => rfl
  | some cut =>
    obtain ⟨token, rest⟩ := cut
    rw [hnext] at h
    cases token with
    | ident name =>
      simp only [Option.map_some, TokenRun.next?_collapse] at h ⊢
      cases hcolon : next? rest with
      | none => rfl
      | some cut =>
        obtain ⟨token, behind⟩ := cut
        rw [hcolon] at h
        cases token <;> first | rfl | contradiction
    | _ => rfl

theorem parse?_of_cutName? {inner value : List Lexeme} {name : Text} {first second : Token}
    {others : List Token} (htokens : tokens (trim inner) = first :: second :: others)
    (hcut : cutName? inner = some (name, value)) (hvalue : isVoid value = false) :
    parse? inner = some (plain name (TokenRun.ofLexemes value)) := by
  rw [parse?, htokens, hcut]
  cases first <;> simp [hvalue]

theorem parse?_of_isComparison {inner : List Lexeme} (hcut : cutName? inner = none)
    (hcomparison : (tokens (trim inner)).any Token.isComparison = true) :
    parse? inner = some (range (TokenRun.ofLexemes inner)) := by
  rw [parse?, hcut]
  generalize tokens (trim inner) = run at hcomparison ⊢
  split
  · contradiction
  · contradiction
  · contradiction
  · rw [if_pos hcomparison]

/-! ### Features that survive -/

theorem startsCondition_ident {name : Text} (hnot : name.isKeyword "not" = false)
    (run : TokenRun) :
    MediaCondition.startsCondition (TokenRun.toLexemes (.ident name :: run)) = false := by
  show (Token.isIdent (.ident name) "not" || _) = false
  rw [Token.isIdent, hnot]
  rfl

theorem survives_boolean {name : Text} (hname : name.IsWord lineComments)
    (hnot : name.isKeyword "not" = false) : (boolean name).Survives lineComments where
  stands := .word hname .nil (fun _ h => by contradiction)
  starts := startsCondition_ident hnot _
  reads := rfl

theorem survives_plain {name : Text} {value : List Lexeme} (hname : name.IsWord lineComments)
    (hnot : name.isKeyword "not" = false) (hsound : IsSound lineComments value)
    (hclosed : IsClosed value) (hvoid : isVoid value = false) :
    (plain name (TokenRun.ofLexemes value)).Survives lineComments := by
  have hnormal := TokenRun.isNormal_ofLexemes value
  obtain ⟨token, run, hrun⟩ :=
    List.exists_cons_of_ne_nil (TokenRun.ofLexemes_ne_nil hsound.kept hvoid)
  have hvalue := hsound.stands hclosed
  have htoken : token.isTrivia = false := hnormal.head token (by rw [hrun]; rfl)
  refine ⟨?_, ?_, ?_⟩
  · exact .word hname (.colon (hvalue.space (by rw [hrun]; rfl) htoken)) (separates_cons rfl _)
  · exact startsCondition_ident hnot _
  · have htrim : trim (plain name (TokenRun.ofLexemes value)).inner.toLexemes =
        (plain name (TokenRun.ofLexemes value)).inner.toLexemes := by
      refine trim_eq_self (fun lexeme hhead => ?_) (fun lexeme hlast => ?_)
      · obtain rfl := Option.some.inj hhead
        rfl
      · refine hnormal.isTrivia_last lexeme ?_
        rw [hrun, TokenRun.toLexemes_cons]
        rwa [inner, hrun, TokenRun.toLexemes_cons, TokenRun.toLexemes_cons,
          TokenRun.toLexemes_cons, TokenRun.toLexemes_cons, List.getLast?_cons_cons,
          List.getLast?_cons_cons, List.getLast?_cons_cons] at hlast
    have hread : parse? (plain name (TokenRun.ofLexemes value)).inner.toLexemes =
        some (plain name (TokenRun.ofLexemes
          (TokenRun.toLexemes (.whitespace :: TokenRun.ofLexemes value)))) :=
      parse?_of_cutName? (by rw [htrim, TokenRun.tokens_toLexemes]; rfl) rfl
        (by simp [hrun, isVoid, Lexeme.isTrivia, htoken])
    rwa [hnormal.ofLexemes_space] at hread

theorem survives_range {lexemes : List Lexeme} (hsound : IsSound lineComments lexemes)
    (hclosed : IsClosed lexemes)
    (hstarts : MediaCondition.startsCondition lexemes = false) (hcut : cutName? lexemes = none)
    (hcomparison : (tokens (trim lexemes)).any Token.isComparison = true) :
    (range (TokenRun.ofLexemes lexemes)).Survives lineComments := by
  have hnormal := TokenRun.isNormal_ofLexemes lexemes
  obtain ⟨token, hmem, hcompares⟩ := List.any_eq_true.1 hcomparison
  have hkept : TokenRun.isKept token = true ∧ token.isTrivia = false := by
    cases token <;> first | exact ⟨rfl, rfl⟩ | contradiction
  have hlexemes : token ∈ tokens lexemes := by
    obtain ⟨lexeme, hlexeme, rfl⟩ := List.mem_map.1 hmem
    exact List.mem_map_of_mem ((isInfix_trim lexemes).subset hlexeme)
  refine ⟨hsound.stands hclosed, ?_, ?_⟩
  · rw [MediaCondition.startsCondition] at hstarts
    rw [MediaCondition.startsCondition, inner, TokenRun.next?_ofLexemes hsound.kept]
    cases hnext : next? lexemes with
    | none => rfl
    | some cut =>
      rw [hnext] at hstarts
      exact hstarts
  · have hread := parse?_of_isComparison (cutName?_ofLexemes hsound.kept hcut)
      (by
        rw [hnormal.trim_toLexemes, TokenRun.tokens_toLexemes]
        exact List.any_eq_true.2
          ⟨token, TokenRun.mem_ofLexemes hlexemes hkept.1 hkept.2, hcompares⟩)
    rwa [hnormal.ofLexemes_toLexemes] at hread

/-- What is read between brackets is read back from what is written between them. -/
theorem survives_of_parse? {lexemes : List Lexeme} {feature : MediaFeature}
    (h : IsSound lineComments lexemes) (hclosed : IsClosed lexemes)
    (hstarts : MediaCondition.startsCondition lexemes = false)
    (hread : MediaFeature.parse? lexemes = some feature) : feature.Survives lineComments := by
  have hname : ∀ {name : Text} {rest : List Lexeme}, next? lexemes = some (.ident name, rest) →
      name.IsWord lineComments ∧ name.isKeyword "not" = false := by
    intro name rest hnext
    refine ⟨isWord_of_next? h hnext, ?_⟩
    rw [MediaCondition.startsCondition, hnext] at hstarts
    exact (Bool.or_eq_false_iff.1 hstarts).1
  unfold MediaFeature.parse? at hread
  split at hread
  · contradiction
  · rename_i name htrim
    obtain ⟨lexeme, hlexeme, htoken⟩ := List.map_eq_singleton_iff.1 htrim
    obtain ⟨behind, hnext⟩ := exists_next?_of_trim hlexeme
    rw [htoken] at hnext
    obtain rfl := Option.some.inj hread
    exact survives_boolean (hname hnext).1 (hname hnext).2
  · rename_i name value hcut _ _
    split at hread
    · contradiction
    rename_i hvoid
    obtain ⟨behind, hnext, hcolon⟩ := cutName?_eq_some hcut
    obtain rfl := Option.some.inj hread
    have hsuffix := (suffix_of_next? hcolon).trans (suffix_of_next? hnext)
    exact survives_plain (hname hnext).1 (hname hnext).2 (h.part hsuffix.isInfix)
      (isClosed_of_next? hcolon rfl rfl (isClosed_of_next? hnext rfl rfl hclosed))
      (Bool.eq_false_iff.2 hvoid)
  · rename_i hcut _ _
    split at hread
    · rename_i hcomparison
      obtain rfl := Option.some.inj hread
      exact survives_range h hclosed hstarts hcut hcomparison
    · contradiction

end MediaFeature

end Css
