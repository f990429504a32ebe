import Css.Proofs.Media.Features
import Css.Proofs.Media.Nesting

/-!
# Media query lists survive printing

What is read of the lexemes of a text without backslashes, none of them cut short and no url among
them empty, is read back from what is written for it. Only a disjunction behind a media type is not,
since it is written without the brackets it was read from (`MediaList.parse?_toText`).
-/

namespace Css

open Lexeme

variable {lineComments : Bool}

/-! ### Conditions -/

namespace MediaCondition

theorem infix_of_cutBrackets? {lexemes : List Lexeme} {block : Block}
    (h : cutBrackets? lexemes = some block) :
    block.inner <:+: lexemes ∧ block.rest <:+: lexemes := by
  unfold cutBrackets? at h
  split at h
  · rename_i rest hnext
    have hrest := (suffix_of_next? hnext).isInfix
    obtain ⟨hinner, hbehind⟩ := infix_of_cutBlock? h
    exact ⟨hinner.trans hrest, hbehind.trans hrest⟩
  · contradiction

theorem isClosed_of_cutBrackets? {lexemes : List Lexeme} {block : Block}
    (h : cutBrackets? lexemes = some block) : IsClosed block.inner := by
  unfold cutBrackets? at h
  split at h
  · exact isClosed_of_cutBlock? h
  · contradiction

theorem suffix_of_cutNot? {lexemes rest : List Lexeme} (h : cutNot? lexemes = some rest) :
    rest <:+ lexemes := by
  unfold cutNot? at h
  split at h
  · contradiction
  · rename_i token behind hnext
    split at h
    · obtain rfl := Option.some.inj h
      exact suffix_of_next? hnext
    · contradiction

/-- The word of a junction stands in front. -/
theorem exists_next?_of_cutJunction? {allowOr : Bool} {lexemes rest : List Lexeme}
    {junction : Junction} (h : cutJunction? allowOr lexemes = some (junction, rest)) :
    ∃ word, next? lexemes = some (.ident word, rest) := by
  have hident : ∀ {token : Token} {keyword : String}, token.isIdent keyword = true →
      ∃ word, token = .ident word := by
    intro token keyword h
    cases token <;> first | exact ⟨_, rfl⟩ | contradiction
  unfold cutJunction? at h
  split at h
  · contradiction
  · rename_i token behind hnext
    split at h
    · rename_i hand
      obtain ⟨word, rfl⟩ := hident hand
      obtain ⟨-, rfl⟩ := Prod.mk.inj (Option.some.inj h)
      exact ⟨word, hnext⟩
    split at h
    · rename_i hor
      obtain ⟨word, rfl⟩ := hident (Bool.and_eq_true_iff.1 hor).2
      obtain ⟨-, rfl⟩ := Prod.mk.inj (Option.some.inj h)
      exact ⟨word, hnext⟩
    · contradiction

theorem suffix_of_cutJunction? {allowOr : Bool} {lexemes rest : List Lexeme}
    {junction : Junction} (h : cutJunction? allowOr lexemes = some (junction, rest)) :
    rest <:+ lexemes := by
  obtain ⟨word, hnext⟩ := exists_next?_of_cutJunction? h
  exact suffix_of_next? hnext

theorem survives_join (junction : Junction) {first : MediaCondition}
    {more : List MediaCondition} (hfirst : first.Survives lineComments)
    (hmore : AllSurvive lineComments more) (hne : more ≠ []) :
    (junction.join (first :: more)).Survives lineComments := by
  have hlength : 2 ≤ (first :: more).length :=
    Nat.succ_le_succ (List.length_pos_iff.2 hne)
  cases junction
  · exact ⟨hlength, hfirst, hmore⟩
  · exact ⟨hlength, hfirst, hmore⟩

/-- Where a junction stands in front, a condition is read behind it. -/
theorem ne_nil_of_parseMore? {allowOr : Bool} {junction : Junction}
    {lexemes rest : List Lexeme} {more : List MediaCondition}
    (h : parseMore? allowOr junction lexemes = some (more, rest))
    (hjunction : (cutJunction? allowOr lexemes).isSome = true) : more ≠ [] := by
  rw [parseMore?_eq] at h
  obtain ⟨⟨junction', behind⟩, hcut⟩ := Option.isSome_iff_exists.1 hjunction
  simp only [hcut] at h
  split at h
  · contradiction
  · obtain ⟨block, -, h⟩ := Option.bind_eq_some_iff.1 h
    obtain ⟨condition, -, h⟩ := Option.bind_eq_some_iff.1 h
    obtain ⟨⟨others, left⟩, -, heq⟩ := Option.bind_eq_some_iff.1 h
    obtain ⟨rfl, -⟩ := Prod.mk.inj (Option.some.inj heq)
    exact List.cons_ne_nil _ _

mutual

/-- The condition that is read of some lexemes survives. -/
theorem survives_of_parse? {allowOr : Bool} {lexemes rest : List Lexeme}
    {condition : MediaCondition} (hsound : IsSound lineComments lexemes)
    (h : parse? allowOr lexemes = some (condition, rest)) : condition.Survives lineComments := by
  rw [parse?_eq] at h
  cases hnot : cutNot? lexemes with
  | some behind =>
    simp only [hnot] at h
    obtain ⟨block, hcut, hnested⟩ := Option.bind_eq_some_iff.1 h
    obtain ⟨inner, hinner, heq⟩ := Option.map_eq_some_iff.1 hnested
    obtain ⟨rfl, rfl⟩ := Prod.mk.inj heq
    have hshorter := length_of_cutNot? hnot
    have hlength := length_of_cutBrackets? hcut
    have hblock := (infix_of_cutBrackets? hcut).1.trans (suffix_of_cutNot? hnot).isInfix
    show inner.Survives lineComments
    exact survives_of_parseNested? (hsound.part hblock) (isClosed_of_cutBrackets? hcut) hinner
  | none =>
    simp only [hnot] at h
    obtain ⟨block, hcut, h⟩ := Option.bind_eq_some_iff.1 h
    obtain ⟨first, hfirst, h⟩ := Option.bind_eq_some_iff.1 h
    have hlength := length_of_cutBrackets? hcut
    obtain ⟨hblock, hrest⟩ := infix_of_cutBrackets? hcut
    have hnested : first.Survives lineComments :=
      survives_of_parseNested? (hsound.part hblock) (isClosed_of_cutBrackets? hcut) hfirst
    cases hjunction : cutJunction? allowOr block.rest with
    | none =>
      simp only [hjunction] at h
      obtain ⟨rfl, -⟩ := Prod.mk.inj (Option.some.inj h)
      exact hnested
    | some cut =>
      simp only [hjunction] at h
      obtain ⟨⟨more, left⟩, hmore, heq⟩ := Option.bind_eq_some_iff.1 h
      obtain ⟨rfl, -⟩ := Prod.mk.inj (Option.some.inj heq)
      exact survives_join cut.1 hnested (survives_of_parseMore? (hsound.part hrest) hmore)
        (ne_nil_of_parseMore? hmore (by rw [hjunction]; rfl))
termination_by 2 * lexemes.length

theorem survives_of_parseNested? {inner : List Lexeme} {condition : MediaCondition}
    (hsound : IsSound lineComments inner) (hclosed : IsClosed inner)
    (h : parseNested? inner = some condition) : condition.Survives lineComments := by
  rw [parseNested?_eq] at h
  split at h
  · obtain ⟨⟨read, rest⟩, hread, h⟩ := Option.bind_eq_some_iff.1 h
    have hsurvives : read.Survives lineComments := survives_of_parse? hsound hread
    simp only at h
    split at h
    · obtain rfl := Option.some.inj h
      exact hsurvives
    · contradiction
  · rename_i hstarts
    obtain ⟨feature, hfeature, rfl⟩ := Option.map_eq_some_iff.1 h
    exact MediaFeature.survives_of_parse? hsound hclosed (Bool.eq_false_iff.2 hstarts) hfeature
termination_by 2 * inner.length + 1

theorem survives_of_parseMore? {allowOr : Bool} {junction : Junction}
    {lexemes rest : List Lexeme} {more : List MediaCondition}
    (hsound : IsSound lineComments lexemes)
    (h : parseMore? allowOr junction lexemes = some (more, rest)) :
    AllSurvive lineComments more := by
  rw [parseMore?_eq] at h
  cases hjunction : cutJunction? allowOr lexemes with
  | none =>
    simp only [hjunction] at h
    obtain ⟨rfl, -⟩ := Prod.mk.inj (Option.some.inj h)
    exact trivial
  | some cut =>
    obtain ⟨junction', behind⟩ := cut
    simp only [hjunction] at h
    split at h
    · contradiction
    · obtain ⟨block, hcut, h⟩ := Option.bind_eq_some_iff.1 h
      obtain ⟨condition, hcondition, h⟩ := Option.bind_eq_some_iff.1 h
      obtain ⟨⟨others, left⟩, hothers, heq⟩ := Option.bind_eq_some_iff.1 h
      obtain ⟨rfl, -⟩ := Prod.mk.inj (Option.some.inj heq)
      have hshorter := length_of_cutJunction? hjunction
      have hlength := length_of_cutBrackets? hcut
      have hbehind := hsound.part (suffix_of_cutJunction? hjunction).isInfix
      obtain ⟨hblock, hrest⟩ := infix_of_cutBrackets? hcut
      exact ⟨survives_of_parseNested? (hbehind.part hblock) (isClosed_of_cutBrackets? hcut)
        hcondition, survives_of_parseMore? (hbehind.part hrest) hothers⟩
termination_by 2 * lexemes.length

end

end MediaCondition

/-! ### Queries -/

namespace MediaQuery

/-- Whether a query has a disjunction behind its media type: it is written without brackets. -/
def hasBareOr (query : MediaQuery) : Bool :=
  match query.mediaType, query.condition with
  | some _, some (.disjunction _) => true
  | _, _ => false

theorem cutQualifier_suffix (lexemes : List Lexeme) : (cutQualifier lexemes).2 <:+ lexemes := by
  unfold cutQualifier
  split
  · rename_i word rest hword
    have hsuffix := suffix_of_next? hword
    split
    · split
      · exact hsuffix
      split
      · exact hsuffix
      · exact List.suffix_rfl
    · exact List.suffix_rfl
  · exact List.suffix_rfl

/-- Without a qualifier nothing is cut. -/
theorem cutQualifier_eq {lexemes : List Lexeme} (h : (cutQualifier lexemes).1 = none) :
    cutQualifier lexemes = (none, lexemes) := by
  unfold cutQualifier at h ⊢
  split
  · rename_i word rest hword
    simp only [hword] at h
    split
    · rename_i name behind hname
      simp only [hname] at h
      split
      · rename_i hnot
        rw [if_pos hnot] at h
        contradiction
      rename_i hnot
      rw [if_neg hnot] at h
      split
      · rename_i honly
        rw [if_pos honly] at h
        contradiction
      · rfl
    · rfl
  · rfl

theorem next?_of_cutType? {lexemes rest : List Lexeme} {name : Text}
    (h : cutType? lexemes = some (name, rest)) :
    next? lexemes = some (.ident name, rest) ∧ name.isKeyword "not" = false := by
  unfold cutType? at h
  split at h
  · rename_i word behind hword
    split at h
    · contradiction
    · rename_i hnot
      obtain ⟨rfl, rfl⟩ := Prod.mk.inj (Option.some.inj h)
      exact ⟨hword, Bool.eq_false_iff.2 hnot⟩
  · contradiction

/-- A name in front of a junction is no `only`, if it is no qualifier. -/
theorem not_only_of_cutQualifier {lexemes rest behind : List Lexeme} {name : Text}
    {junction : MediaCondition.Junction} (hname : next? lexemes = some (.ident name, rest))
    (hjunction : MediaCondition.cutJunction? false rest = some (junction, behind))
    (hcut : (cutQualifier lexemes).1 = none) : name.isKeyword "only" = false := by
  obtain ⟨word, hword⟩ := MediaCondition.exists_next?_of_cutJunction? hjunction
  rw [cutQualifier, hname] at hcut
  simp only [hword] at hcut
  split at hcut
  · contradiction
  split at hcut
  · contradiction
  · rename_i honly
    exact Bool.eq_false_iff.2 honly

/-- The query that is read of some lexemes survives, unless it has a disjunction behind its media
type. -/
theorem survives_of_cut? {lexemes rest : List Lexeme} {query : MediaQuery}
    (hsound : IsSound lineComments lexemes) (h : cut? lexemes = some (query, rest))
    (hor : query.hasBareOr = false) : query.Survives lineComments := by
  have htypes : ∀ {name : Text} {behind : List Lexeme},
      cutType? (cutQualifier lexemes).2 = some (name, behind) →
        (name.IsWord lineComments ∧ name.isKeyword "not" = false) ∧
          IsSound lineComments behind := by
    intro name behind htype
    have hbehind := hsound.part (cutQualifier_suffix lexemes).isInfix
    obtain ⟨hnext, hnot⟩ := next?_of_cutType? htype
    exact ⟨⟨isWord_of_next? hbehind hnext, hnot⟩,
      hbehind.part (suffix_of_next? hnext).isInfix⟩
  unfold cut? at h
  simp only at h
  split at h
  · rename_i name behind htype
    obtain ⟨hname, hbehind⟩ := htypes htype
    split at h
    · obtain ⟨rfl, -⟩ := Prod.mk.inj (Option.some.inj h)
      exact
        { bare := fun hnone => by contradiction
          word := fun _ hmem => by
            obtain rfl := Option.some.inj hmem
            exact hname
          only := fun _ _ _ hsome => by contradiction
          condition := fun _ hmem => by contradiction
          noDisjunction := fun _ _ hmem => by contradiction }
    · rename_i junction after hjunction
      obtain ⟨⟨condition, left⟩, hread, heq⟩ := Option.map_eq_some_iff.1 h
      obtain ⟨rfl, -⟩ := Prod.mk.inj heq
      have hafter := hbehind.part (MediaCondition.suffix_of_cutJunction? hjunction).isInfix
      exact
        { bare := fun hnone => by contradiction
          word := fun _ hmem => by
            obtain rfl := Option.some.inj hmem
            exact hname
          only := fun _ hmem hqualifier _ => by
            obtain rfl := Option.some.inj hmem
            rw [cutQualifier_eq hqualifier] at htype
            exact not_only_of_cutQualifier (next?_of_cutType? htype).1 hjunction hqualifier
          condition := fun _ hmem => by
            obtain rfl := Option.some.inj hmem
            exact MediaCondition.survives_of_parse? hafter hread
          noDisjunction := fun _ conditions hmem => by
            obtain rfl := Option.some.inj hmem
            contradiction }
  · split at h
    · contradiction
    · rename_i hqualifier
      have hcut := cutQualifier_eq (Option.not_isSome_iff_eq_none.1 hqualifier)
      obtain ⟨⟨condition, left⟩, hread, heq⟩ := Option.map_eq_some_iff.1 h
      obtain ⟨rfl, -⟩ := Prod.mk.inj heq
      rw [hcut] at hread
      exact
        { bare := fun _ => ⟨rfl, rfl⟩
          word := fun _ hmem => by contradiction
          only := fun _ hmem => by contradiction
          condition := fun _ hmem => by
            obtain rfl := Option.some.inj hmem
            exact MediaCondition.survives_of_parse? hsound hread
          noDisjunction := fun hsome => by contradiction }

theorem survives_of_parse? {lexemes : List Lexeme} {query : MediaQuery}
    (hsound : IsSound lineComments lexemes) (h : parse? lexemes = some query)
    (hor : query.hasBareOr = false) : query.Survives lineComments := by
  obtain ⟨⟨read, rest⟩, hread, h⟩ := Option.bind_eq_some_iff.1 h
  simp only at h
  split at h
  · obtain rfl := Option.some.inj h
    exact survives_of_cut? hsound hread hor
  · contradiction

end MediaQuery

/-! ### Lists of queries -/

namespace MediaList

theorem survives_of_parse? {lexemes : List Lexeme} {list : MediaList}
    (hsound : IsSound lineComments lexemes) (h : MediaList.parse? lexemes = some list)
    (hor : ∀ query ∈ list, query.hasBareOr = false) :
    ∀ query ∈ list, query.Survives lineComments := by
  intro query hquery
  unfold MediaList.parse? at h
  split at h
  · obtain rfl := Option.some.inj h
    contradiction
  · obtain ⟨group, hgroup, hread⟩ := exists_of_mem_mapM h hquery
    exact MediaQuery.survives_of_parse? (hsound.part (infix_of_mem_splitCommas hgroup)) hread
      (hor query hquery)

/-- A list that survives is read back from its text. -/
theorem parse?_all {list : MediaList} (h : ∀ query ∈ list, query.Survives lineComments) :
    MediaList.parse?
      ((Reading.all lineComments 0 (list.toText .pretty)).map (·.lexeme)) = some list := by
  have hscanned := (stands_tokens h).scanned [] (fun _ hmem => by contradiction)
  rw [list.toText_eq, ← TokenRun.text_toLexemes, ← moves_bare.media_map,
    Reading.bare_all hscanned.isRead, moves_bare.media_map]
  exact parse?_tokens h

/-- A list that is read from a text without backslashes, in which nothing is cut short and no url
empty, is read back from what is written for it, if it has no disjunction behind a media type. -/
theorem parse?_toText (lineComments : Bool) (text : Text) (hplain : '\\' ∉ text)
    (hsound : ∀ lexeme ∈ (Reading.all lineComments 0 text).map (·.lexeme),
      lexeme.token.isBad = false ∧ lexeme.token ≠ .url [])
    {list : MediaList}
    (hread : MediaList.parse? ((Reading.all lineComments 0 text).map (·.lexeme)) = some list)
    (hor : ∀ query ∈ list, query.hasBareOr = false) :
    MediaList.parse?
      ((Reading.all lineComments 0 (list.toText .pretty)).map (·.lexeme)) = some list := by
  have hlexemes : AreSound lineComments ((Reading.all lineComments 0 text).map (·.lexeme)) [] :=
    Reading.areSound_all hplain fun reading hmem =>
      hsound reading.lexeme (List.mem_map_of_mem hmem)
  exact parse?_all (survives_of_parse? ⟨[], hlexemes⟩ hread hor)

theorem parse?_toText_disjunction :
    ∃ list, MediaList.parse? (ofText
        "only screen and (min-width: 1px),((color)) or (not (grid))".toList) = some list ∧
      MediaList.parse? (ofText (list.toText .pretty)) = some list := by
  have hread : ∃ list, MediaList.parse? (ofText
      "only screen and (min-width: 1px),((color)) or (not (grid))".toList) = some list :=
    Option.isSome_iff_exists.1 (by decide +kernel)
  have hor : (MediaList.parse? (ofText
      "only screen and (min-width: 1px),((color)) or (not (grid))".toList)).all
        (·.all fun query => query.hasBareOr == false) = true := by decide +kernel
  obtain ⟨list, hlist⟩ := hread
  rw [hlist, Option.all_some, List.all_eq_true] at hor
  exact ⟨list, hlist, parse?_toText true _ (by decide +kernel) (by decide +kernel) hlist
    fun query hmem => eq_of_beq (hor query hmem)⟩

/-- A disjunction behind a media type is not read back. -/
theorem not_parse?_toText :
    '\\' ∉ "only screen and ((color) or (grid))".toList ∧
      (∀ lexeme ∈ ofText "only screen and ((color) or (grid))".toList,
        lexeme.token.isBad = false ∧ lexeme.token ≠ .url []) ∧
      ∃ list, MediaList.parse? (ofText "only screen and ((color) or (grid))".toList) = some list ∧
        list.toText .pretty = "only screen and (color) or (grid)".toList ∧
        MediaList.parse? (ofText (list.toText .pretty)) = none := by
  have htext : (MediaList.parse? (ofText "only screen and ((color) or (grid))".toList)).map
      (MediaList.toText .pretty) = some "only screen and (color) or (grid)".toList := by
    decide +kernel
  have hnone : MediaList.parse? (ofText "only screen and (color) or (grid)".toList) = none :=
    Option.isNone_iff_eq_none.1 (by decide +kernel)
  obtain ⟨list, hlist, htext⟩ := Option.map_eq_some_iff.1 htext
  exact ⟨by decide +kernel, by decide +kernel, list, hlist, htext, by rw [htext, hnone]⟩

end MediaList

end Css
