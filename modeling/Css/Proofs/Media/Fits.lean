import Css.Proofs.Media.Roundtrip
import Css.Proofs.Token.Fits

/-!
# Media queries fit where they stood

What is written for a media query list fits in place of the balanced lexemes that it was read from
(`MediaList.fits_of_parse?`). Conditions are written with no more brackets than they were read
from: those around a whole condition, or around one that is in brackets already, are left out.
-/

namespace Css

open Lexeme

/-! ### Features -/

/-- What a feature is written as has the marks of what its brackets held. -/
theorem MediaFeature.marks_inner {inner : List Lexeme} {feature : MediaFeature}
    (hkept : ∀ lexeme ∈ inner, TokenRun.isKept lexeme.token = true)
    (h : MediaFeature.parse? inner = some feature) :
    marks feature.inner.toLexemes = marks inner := by
  unfold MediaFeature.parse? at h
  split at h
  · contradiction
  · rename_i name htokens
    obtain rfl := Option.some.inj h
    have hplain : marks (trim inner) = [] := by
      rw [← TokenRun.marks_tokens, htokens]
      rfl
    rw [← marks_trim inner, hplain]
    rfl
  · rename_i name value hcut _ _
    split at h
    · contradiction
    · obtain rfl := Option.some.inj h
      obtain ⟨behind, hname, hcolon⟩ := cutName?_eq_some hcut
      obtain ⟨front, rfl, hfront⟩ := exists_append_of_next? hname rfl
      obtain ⟨middle, rfl, hmiddle⟩ := exists_append_of_next? hcolon rfl
      have hvalue := marks_ofLexemes fun lexeme hmem =>
        hkept lexeme (List.mem_append_right _ (List.mem_append_right _ hmem))
      rw [marks_append, marks_append, hfront, hmiddle, ← hvalue]
      rfl
  · split at h
    · obtain rfl := Option.some.inj h
      exact marks_ofLexemes hkept
    · contradiction

/-! ### Conditions -/

namespace MediaCondition

/-- The brackets in front, with what they hold and what stands behind them. -/
theorem exists_of_cutBrackets? {lexemes : List Lexeme} {block : Block}
    (h : cutBrackets? lexemes = some block) (hbalanced : Balanced lexemes) :
    ∃ front opener, lexemes = front ++ (opener :: (block.inner ++ [block.closer])) ++ block.rest ∧
      marks front = [] ∧ opener.token.opens? = some .round ∧
      block.closer.token.closes? = some .round ∧ Balanced block.inner ∧ Balanced block.rest := by
  unfold cutBrackets? at h
  split at h
  · rename_i rest hnext
    obtain ⟨front, opener, rfl, htoken, -, htrivia⟩ := exists_of_next? hnext
    have hvoid : isVoid front = true := List.all_eq_true.2 htrivia
    have hopens : opener.token.opens? = some .round := by
      rw [htoken]
      rfl
    have hblock := hbalanced.of_append (.of_isVoid hvoid)
    obtain ⟨cut, hcut, hcloses⟩ := hblock.exists_cutBlock? hopens
    obtain rfl := Option.some.inj (h.symm.trans hcut)
    obtain ⟨hinner, hrest⟩ := hblock.of_cutBlock? hopens h
    refine ⟨front, opener, ?_, marks_of_isVoid hvoid, hopens, hcloses, hinner, hrest⟩
    rw [cutBlock?_eq_some h]
    simp
  · contradiction

theorem toLexemes_bracketed (run : TokenRun) :
    ∃ opener closer, (TokenRun.bracketed run).toLexemes = opener :: (run.toLexemes ++ [closer]) ∧
      opener.token.opens? = some .round ∧ closer.token.closes? = some .round := by
  have hbracketed := TokenRun.toLexemes_cons (.opening .round) (run ++ [.closing .round])
  rw [TokenRun.toLexemes_append] at hbracketed
  exact ⟨_, _, hbracketed, rfl, rfl⟩

theorem exists_append_of_cutNot? {lexemes behind : List Lexeme}
    (h : cutNot? lexemes = some behind) :
    ∃ front, lexemes = front ++ behind ∧ marks front = [] := by
  unfold cutNot? at h
  split at h
  · contradiction
  · rename_i token rest hnext
    split at h
    · rename_i hnot
      obtain rfl := Option.some.inj h
      refine exists_append_of_next? hnext ?_
      cases token <;> first | rfl | contradiction
    · contradiction

theorem exists_append_of_cutJunction? {allowOr : Bool} {lexemes behind : List Lexeme}
    {junction : Junction} (h : cutJunction? allowOr lexemes = some (junction, behind)) :
    ∃ front, lexemes = front ++ behind ∧ marks front = [] := by
  obtain ⟨word, hnext⟩ := exists_next?_of_cutJunction? h
  exact exists_append_of_next? hnext rfl

mutual

/-- What is written for a condition fits in place of the lexemes that it was read from. -/
theorem fits_of_parse? {allowOr : Bool} {lexemes rest : List Lexeme} {condition : MediaCondition}
    (hbalanced : Balanced lexemes)
    (hkept : ∀ lexeme ∈ lexemes, TokenRun.isKept lexeme.token = true)
    (h : parse? allowOr lexemes = some (condition, rest)) :
    ∃ front, lexemes = front ++ rest ∧ Balanced rest ∧
      FitsInFewer front condition.tokens.toLexemes := by
  rw [parse?_eq] at h
  cases hnot : cutNot? lexemes with
  | some behind =>
    simp only [hnot] at h
    obtain ⟨block, hcut, hnested⟩ := Option.bind_eq_some_iff.1 h
    obtain ⟨inner, hinner, heq⟩ := Option.map_eq_some_iff.1 hnested
    obtain ⟨rfl, rfl⟩ := Prod.mk.inj heq
    have hshorter := length_of_cutNot? hnot
    have hlength := length_of_cutBrackets? hcut
    obtain ⟨word, rfl, hword⟩ := exists_append_of_cutNot? hnot
    obtain ⟨front, opener, rfl, hfront, hopens, hcloses, hinside, hrest⟩ :=
      exists_of_cutBrackets? hcut (hbalanced.of_append (.of_marks_eq_nil hword))
    obtain ⟨hfits, -⟩ := fits_of_parseNested? hinside
      (fun lexeme hmem => hkept lexeme (by simp [hmem])) hinner hopens hcloses
    have hwords : marks (word ++ front) = [] := by
      rw [marks_append, hword, hfront]
      rfl
    have hnotFits : FitsInFewer (word ++ front)
        (TokenRun.toLexemes [.ident "not".toList, .whitespace]) := .of_marks_eq_nil hwords rfl
    refine ⟨word ++ front ++ _, ?_, hrest, hnotFits.append hfits⟩
    simp only [List.append_assoc]
  | none =>
    simp only [hnot] at h
    obtain ⟨block, hcut, h⟩ := Option.bind_eq_some_iff.1 h
    obtain ⟨first, hfirst, h⟩ := Option.bind_eq_some_iff.1 h
    have hlength := length_of_cutBrackets? hcut
    obtain ⟨front, opener, hlexemes, hfront, hopens, hcloses, hinside, hrest⟩ :=
      exists_of_cutBrackets? hcut hbalanced
    obtain ⟨hfits, hfits'⟩ := fits_of_parseNested? hinside
      (fun lexeme hmem => hkept lexeme (by simp [hlexemes, hmem])) hfirst hopens hcloses
    have hvoid : FitsInFewer front [] := .of_marks_eq_nil hfront rfl
    cases hjunction : cutJunction? allowOr block.rest with
    | none =>
      simp only [hjunction] at h
      obtain ⟨rfl, rfl⟩ := Prod.mk.inj (Option.some.inj h)
      exact ⟨_, hlexemes, hrest, hvoid.append hfits'⟩
    | some cut =>
      simp only [hjunction] at h
      obtain ⟨⟨more, left⟩, hmore, heq⟩ := Option.bind_eq_some_iff.1 h
      obtain ⟨rfl, rfl⟩ := Prod.mk.inj (Option.some.inj heq)
      obtain ⟨others, hothers, hleft, hfitsMore⟩ := fits_of_parseMore? hrest
        (fun lexeme hmem => hkept lexeme (by simp [hlexemes, hmem])) hmore
      have htokens : (cut.1.join (first :: more)).tokens =
          TokenRun.bracketed first.inner ++ joinedMore cut.1 more := by
        cases cut.1 <;> rfl
      refine ⟨_, by rw [hlexemes, hothers, ← List.append_assoc], hleft, ?_⟩
      rw [htokens, TokenRun.toLexemes_append]
      exact (hvoid.append hfits).append hfitsMore
termination_by 2 * lexemes.length

/-- What is written for a condition in brackets, or for the condition alone, fits in place of the
brackets. -/
theorem fits_of_parseNested? {inner : List Lexeme} {condition : MediaCondition}
    (hbalanced : Balanced inner)
    (hkept : ∀ lexeme ∈ inner, TokenRun.isKept lexeme.token = true)
    (h : parseNested? inner = some condition) {opener closer : Lexeme}
    (hopens : opener.token.opens? = some .round) (hcloses : closer.token.closes? = some .round) :
    FitsInFewer (opener :: (inner ++ [closer])) (TokenRun.bracketed condition.inner).toLexemes ∧
      FitsInFewer (opener :: (inner ++ [closer])) condition.tokens.toLexemes := by
  obtain ⟨left, right, hbrackets, hopens', hcloses'⟩ := toLexemes_bracketed condition.inner
  rw [parseNested?_eq] at h
  split at h
  · obtain ⟨⟨read, rest⟩, hread, h⟩ := Option.bind_eq_some_iff.1 h
    obtain ⟨front, hlexemes, -, hfront⟩ := fits_of_parse? hbalanced hkept hread
    simp only at h
    split at h
    · rename_i hvoid
      obtain rfl := Option.some.inj h
      have hfits : FitsInFewer inner read.tokens.toLexemes := by
        rw [hlexemes]
        have happend := hfront.append (.of_marks_eq_nil (marks_of_isVoid hvoid) marks_nil)
        rwa [List.append_nil] at happend
      have hbare := hfits.unblock hopens hcloses
      refine ⟨?_, hbare⟩
      cases read with
      | feature f => exact hbare
      | _ =>
        rw [hbrackets]
        exact hfits.block hopens hcloses hopens' hcloses'
    · contradiction
  · obtain ⟨feature, hfeature, rfl⟩ := Option.map_eq_some_iff.1 h
    have hfits := FitsInFewer.block_of_balanced hopens hcloses hopens' hcloses' hbalanced
      (MediaFeature.marks_inner hkept hfeature)
    have hbracketed : FitsInFewer (opener :: (inner ++ [closer]))
        (TokenRun.bracketed feature.inner).toLexemes := by
      rw [show (TokenRun.bracketed feature.inner).toLexemes = _ from hbrackets]
      exact hfits
    exact ⟨hbracketed, hbracketed⟩
termination_by 2 * inner.length + 1

theorem fits_of_parseMore? {allowOr : Bool} {junction : Junction}
    {lexemes rest : List Lexeme} {more : List MediaCondition}
    (hbalanced : Balanced lexemes)
    (hkept : ∀ lexeme ∈ lexemes, TokenRun.isKept lexeme.token = true)
    (h : parseMore? allowOr junction lexemes = some (more, rest)) :
    ∃ front, lexemes = front ++ rest ∧ Balanced rest ∧
      FitsInFewer front (joinedMore junction more).toLexemes := by
  rw [parseMore?_eq] at h
  cases hjunction : cutJunction? allowOr lexemes with
  | none =>
    simp only [hjunction] at h
    obtain ⟨rfl, rfl⟩ := Prod.mk.inj (Option.some.inj h)
    exact ⟨[], rfl, hbalanced, .of_marks_eq_nil rfl rfl⟩
  | some cut =>
    obtain ⟨junction', behind⟩ := cut
    simp only [hjunction] at h
    split at h
    · contradiction
    · obtain ⟨block, hcut, h⟩ := Option.bind_eq_some_iff.1 h
      obtain ⟨condition, hcondition, h⟩ := Option.bind_eq_some_iff.1 h
      obtain ⟨⟨others, left⟩, hothers, heq⟩ := Option.bind_eq_some_iff.1 h
      obtain ⟨rfl, rfl⟩ := Prod.mk.inj (Option.some.inj heq)
      have hshorter := length_of_cutJunction? hjunction
      have hlength := length_of_cutBrackets? hcut
      obtain ⟨word, rfl, hword⟩ := exists_append_of_cutJunction? hjunction
      obtain ⟨front, opener, rfl, hfront, hopens, hcloses, hinside, hrest⟩ :=
        exists_of_cutBrackets? hcut (hbalanced.of_append (.of_marks_eq_nil hword))
      obtain ⟨hfits, -⟩ := fits_of_parseNested? hinside
        (fun lexeme hmem => hkept lexeme (by simp [hmem])) hcondition hopens hcloses
      obtain ⟨back, hback, hleft, hfitsMore⟩ := fits_of_parseMore? hrest
        (fun lexeme hmem => hkept lexeme (by simp [hmem])) hothers
      have hwords : marks (word ++ front) = [] := by
        rw [marks_append, hword, hfront]
        rfl
      have hjunctionFits : FitsInFewer (word ++ front)
          (TokenRun.toLexemes [.whitespace, .ident junction.word, .whitespace]) :=
        .of_marks_eq_nil hwords rfl
      have htokens : (joinedMore junction (condition :: others)).toLexemes =
          TokenRun.toLexemes [.whitespace, .ident junction.word, .whitespace] ++
            (TokenRun.bracketed condition.inner).toLexemes ++
              (joinedMore junction others).toLexemes := by
        rw [← TokenRun.toLexemes_append, ← TokenRun.toLexemes_append]
        exact congrArg TokenRun.toLexemes (by simp [joinedMore])
      refine ⟨word ++ front ++ (opener :: (block.inner ++ [block.closer])) ++ back, ?_, hleft, ?_⟩
      · rw [hback]
        simp only [List.append_assoc]
      · show FitsInFewer _ (joinedMore junction (condition :: others)).toLexemes
        rw [htokens]
        exact (hjunctionFits.append hfits).append hfitsMore
termination_by 2 * lexemes.length

end

end MediaCondition

/-! ### Queries -/

namespace MediaQuery

theorem exists_append_of_cutQualifier (lexemes : List Lexeme) :
    ∃ front, lexemes = front ++ (cutQualifier lexemes).2 ∧ marks front = [] := by
  have hall : ∃ front, lexemes = front ++ lexemes ∧ marks front = [] := ⟨[], rfl, rfl⟩
  unfold cutQualifier
  split
  · rename_i word rest hword
    have hrest := exists_append_of_next? hword rfl
    split
    · split
      · exact hrest
      split
      · exact hrest
      · exact hall
    · exact hall
  · exact hall

theorem marks_qualifierTokens (qualifier : Option MediaQualifier) :
    marks (qualifierTokens qualifier).toLexemes = [] := by
  cases qualifier <;> rfl

/-- What is written for a query fits in place of the lexemes that it was cut from. -/
theorem fits_of_cut? {lexemes rest : List Lexeme} {query : MediaQuery}
    (hbalanced : Balanced lexemes)
    (hkept : ∀ lexeme ∈ lexemes, TokenRun.isKept lexeme.token = true)
    (h : cut? lexemes = some (query, rest)) :
    ∃ front, lexemes = front ++ rest ∧ FitsInFewer front query.tokens.toLexemes := by
  obtain ⟨before, hlexemes, hbefore⟩ := exists_append_of_cutQualifier lexemes
  have hqualifier : FitsInFewer before (qualifierTokens (cutQualifier lexemes).1).toLexemes :=
    .of_marks_eq_nil hbefore (marks_qualifierTokens _)
  unfold cut? at h
  simp only at h
  split at h
  · rename_i name behind htype
    obtain ⟨word, hbehind, hword⟩ := exists_append_of_next? (next?_of_cutType? htype).1 rfl
    split at h
    · obtain ⟨rfl, rfl⟩ := Prod.mk.inj (Option.some.inj h)
      have hname : FitsInFewer word (TokenRun.toLexemes [.ident name]) :=
        .of_marks_eq_nil hword rfl
      refine ⟨before ++ word, ?_, ?_⟩
      · rw [List.append_assoc, ← hbehind, ← hlexemes]
      · rw [tokens, TokenRun.toLexemes_append]
        exact hqualifier.append hname
    · rename_i junction after hjunction
      obtain ⟨⟨condition, left⟩, hread, heq⟩ := Option.map_eq_some_iff.1 h
      obtain ⟨rfl, rfl⟩ := Prod.mk.inj heq
      obtain ⟨junct, hafter, hjunct⟩ :=
        MediaCondition.exists_append_of_cutJunction? hjunction
      have hsource : lexemes = before ++ (word ++ junct) ++ after := by
        rw [List.append_assoc, List.append_assoc, ← hafter, ← hbehind, ← hlexemes]
      have hwords : marks (word ++ junct) = [] := by
        rw [marks_append, hword, hjunct]
        rfl
      have hfront : marks (before ++ (word ++ junct)) = [] := by
        rw [marks_append, hbefore, hwords]
        rfl
      rw [hsource] at hbalanced hkept
      obtain ⟨read, hread', -, hfits⟩ := MediaCondition.fits_of_parse?
        (hbalanced.of_append (.of_marks_eq_nil hfront))
        (fun lexeme hmem => hkept lexeme (List.mem_append_right _ hmem)) hread
      have hand : FitsInFewer (word ++ junct)
          (TokenRun.toLexemes [.ident name, .whitespace, .ident "and".toList, .whitespace]) :=
        .of_marks_eq_nil hwords rfl
      refine ⟨before ++ (word ++ junct) ++ read, ?_, ?_⟩
      · rw [hsource, hread', List.append_assoc _ read]
      · rw [List.append_assoc, tokens, TokenRun.toLexemes_append]
        exact hqualifier.append (hand.append hfits)
  · split at h
    · contradiction
    · rename_i hnone
      have hcut := cutQualifier_eq (Option.not_isSome_iff_eq_none.1 hnone)
      obtain ⟨⟨condition, left⟩, hread, heq⟩ := Option.map_eq_some_iff.1 h
      obtain ⟨rfl, rfl⟩ := Prod.mk.inj heq
      rw [hcut] at hread
      obtain ⟨front, hfront, -, hfits⟩ := MediaCondition.fits_of_parse? hbalanced hkept hread
      exact ⟨front, hfront, hfits⟩

theorem fits_of_parse? {lexemes : List Lexeme} {query : MediaQuery} (hbalanced : Balanced lexemes)
    (hkept : ∀ lexeme ∈ lexemes, TokenRun.isKept lexeme.token = true)
    (h : parse? lexemes = some query) : Fits lexemes query.tokens.toLexemes := by
  obtain ⟨⟨read, rest⟩, hcut, h⟩ := Option.bind_eq_some_iff.1 h
  simp only at h
  split at h
  · rename_i hvoid
    obtain rfl := Option.some.inj h
    obtain ⟨front, rfl, hfits⟩ := fits_of_cut? hbalanced hkept hcut
    have hrest : FitsInFewer rest [] := .of_marks_eq_nil (marks_of_isVoid hvoid) marks_nil
    have happend := (hfits.append hrest).fits
    rwa [List.append_nil] at happend
  · contradiction

end MediaQuery

/-! ### Lists -/

namespace MediaList

theorem fits_of_mapM {groups : List (List Lexeme)} {list : MediaList}
    (hbalanced : ∀ group ∈ groups, Balanced group)
    (hkept : ∀ group ∈ groups, ∀ lexeme ∈ group, TokenRun.isKept lexeme.token = true)
    (h : groups.mapM MediaQuery.parse? = some list) :
    Fits groups.flatten (tokens list).toLexemes := by
  induction groups generalizing list with
  | nil =>
    obtain rfl := Option.some.inj h
    exact .of_marks_eq rfl
  | cons group groups ih =>
    rw [List.forall_mem_cons] at hbalanced hkept
    rw [List.mapM_cons] at h
    obtain ⟨query, hquery, h⟩ := Option.bind_eq_some_iff.1 h
    obtain ⟨queries, hqueries, h⟩ := Option.bind_eq_some_iff.1 h
    obtain rfl := Option.some.inj h
    have hfirst := MediaQuery.fits_of_parse? hbalanced.1 hkept.1 hquery
    have happend := hfirst.append (ih hbalanced.2 hkept.2 hqueries)
    rw [List.flatten_cons]
    apply happend.congr_written
    cases queries with
    | nil =>
      rw [tokens, tokens, marks_append]
      exact (List.append_nil _).symm
    | cons next queries =>
      rw [tokens, TokenRun.toLexemes_append, marks_append, marks_append]
      rfl

/-- What is written for a media query list fits in place of the lexemes that it was read from. -/
theorem fits_of_parse? {lexemes : List Lexeme} {list : MediaList} (hbalanced : Balanced lexemes)
    (hkept : ∀ lexeme ∈ lexemes, TokenRun.isKept lexeme.token = true)
    (h : MediaList.parse? lexemes = some list) : Fits lexemes list.tokens.toLexemes := by
  unfold MediaList.parse? at h
  split at h
  · rename_i hvoid
    obtain rfl := Option.some.inj h
    exact .of_marks_eq (marks_of_isVoid hvoid).symm
  · refine .of_splitCommas (fits_of_mapM hbalanced.of_mem_splitCommas ?_ h)
    intro group hgroup lexeme hmem
    exact hkept lexeme ((infix_of_mem_splitCommas hgroup).subset hmem)

end MediaList

end Css
