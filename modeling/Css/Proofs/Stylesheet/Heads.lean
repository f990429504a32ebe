import Css.Proofs.Media.Fits
import Css.Proofs.Media.Trivia
import Css.Proofs.Selector.Marks
import Css.Proofs.Selector.Roundtrip
import Css.Proofs.Selector.Trivia
import Css.Proofs.Stylesheet.Layout

/-!
# Heads that are read back

What is written for the selectors of a style rule is read as selectors that are the same
(`IsHead.exists_written`), and what is written for the name and the prelude of an at-rule is read as
them (`IsAtHead.exists_written`). Both go on up to a block wherever their sources did.
-/

namespace Css

open Lexeme

open Parser.State (readPrelude)

variable {lineComments : Bool} {limit depth : Nat} {source : List Lexeme}

/-- Lexemes that leave no bracket open are balanced. -/
theorem Lexeme.balanced_of_behind? {atBlock atSemicolon : Bool} {room : Nat}
    {lexemes : List Lexeme}
    (h : behind? atBlock atSemicolon room [] lexemes = some []) : Balanced lexemes := by
  have hcloses : ∀ {stack : List Bracket},
      behind? atBlock atSemicolon room stack lexemes = some [] →
        closesAll stack lexemes = true := by
    clear h
    induction lexemes with
    | nil => exact fun h => closesAll_nil_iff.2 (Option.some.inj h)
    | cons lexeme lexemes ih =>
      intro stack h
      obtain ⟨middle, hmiddle, hrest⟩ := behind?_cons_eq_some.1 h
      obtain ⟨-, -, -, hfollow⟩ := behind?_singleton_iff.1 hmiddle
      exact closesAll_cons_iff.2 ⟨middle, hfollow, ih hrest⟩
  exact balanced_of_isBalanced (hcloses h)

theorem Lexeme.startsSolid_toLexemes {run : TokenRun} {token : Token} (h : run.head? = some token)
    (htrivia : token.isTrivia = false) : StartsSolid run.toLexemes := by
  obtain ⟨rest, rfl⟩ := List.head?_eq_some_iff.1 h
  exact ⟨_, rfl, htrivia⟩

/-! ### Selectors -/

/-- A selector list starts with no token that a list of rules has a use for. -/
theorem SelectorList.starts_of_parse {lexeme : Lexeme} {lexemes : List Lexeme}
    {selectors : SelectorList} (h : parse (lexeme :: lexemes) = .ok selectors) :
    lexeme.token ≠ .cdo ∧ lexeme.token ≠ .cdc ∧ ∀ name, lexeme.token ≠ .atKeyword name := by
  have herror : lexeme.token.opens? = none → lexeme.token.closes? = none →
      lexeme.token ≠ .comma → lexeme.isTrivia = false →
      Combinator.ofToken? lexeme.token = none →
      (∀ isFirst lexemes, SimpleSelector.cut isFirst lexeme lexemes = .error .unexpectedToken) →
        False := by
    intro hopens hcloses hcomma htrivia hcombinator hcut
    rw [parse, splitCommas, splitCommasFrom_of_plain hopens hcloses (absurd · hcomma)] at h
    obtain ⟨selector, more, hselector, -⟩ := Selector.exists_of_parseGroups_cons h
    rw [show (Groups.cons lexeme _).first = lexeme :: _ from rfl, Selector.parseFrom_cons, htrivia,
      if_neg Bool.false_ne_true, hcombinator, hcut] at hselector
    contradiction
  refine ⟨fun htoken => ?_, fun htoken => ?_, fun name htoken => ?_⟩ <;>
    exact herror (by rw [htoken]; rfl) (by rw [htoken]; rfl)
      (by rw [htoken]; exact Token.noConfusion) (by rw [isTrivia, htoken]; rfl)
      (by rw [htoken]; rfl)
      (fun _ _ => by simp only [SimpleSelector.cut, htoken])

/-- What is written for the selectors of a rule is read as selectors that are the same. -/
theorem IsHead.exists_written {selectors : SelectorList}
    (h : IsHead limit depth source selectors) (hsound : IsSound lineComments source)
    (hapart : SelectorList.percentagesApart selectors = true) :
    ∃ lexemes, Writes lineComments lexemes (SelectorList.toText .pretty selectors) ∧
      StartsSolid lexemes ∧ ∀ after, isVoid after = true →
        IsHead limit depth (lexemes ++ after) (SelectorList.unsigned selectors) := by
  obtain ⟨hne, hformed⟩ := SelectorList.areFormed_of_parse h.parse
  have hsurvive : SelectorList.Survive lineComments false selectors :=
    ⟨hformed, SelectorList.areSpelled_of_parse hsound h.parse, hapart⟩
  obtain ⟨selector, more, rfl⟩ := List.exists_cons_of_ne_nil hne
  obtain ⟨token, hhead, htrivia⟩ := SelectorList.exists_tokens hsurvive
  obtain ⟨run, hrun⟩ := List.head?_eq_some_iff.1 hhead
  have hparse := SelectorList.parse_tokens hsurvive hne
  have hmarks := SelectorList.marks_of_parse (balanced_of_behind? h.goesOn) hsound.kept h.parse
  refine ⟨(SelectorList.tokens (selector :: more)).toLexemes, ?_,
    startsSolid_toLexemes hhead htrivia, fun after hafter => ?_⟩
  · rw [← SelectorList.toText_tokens]
    exact .of_stands (SelectorList.stands_tokens hsurvive)
  · refine ⟨?_, ?_, ?_⟩
    · rw [hrun] at hparse ⊢
      obtain ⟨hcdo, hcdc, hkeyword⟩ := SelectorList.starts_of_parse hparse
      refine ⟨_, rfl, ?_, hkeyword⟩
      simp [Token.isIdleAt, htrivia, hcdo, hcdc]
    · rw [behind?_congr _, h.goesOn]
      rw [marks_append, marks_of_isVoid hafter, hmarks, List.append_nil]
    · rw [SelectorList.parse_append_void hafter, hparse]

/-! ### Preludes -/

def Prelude.written : Prelude → TokenRun
  | media queries => queries.tokens
  | tokens run => run

theorem Prelude.toText_eq (prelude : Prelude) :
    prelude.toText .pretty = prelude.written.toText .pretty := by
  cases prelude with
  | media queries => exact queries.toText_eq
  | tokens run => rfl

/-- Whether a part of a style sheet is read back from what is written for it: a percentage may be no
part of a compound, and no disjunction may stand behind a media type. -/
def Part.readsBack : Part → Bool
  | selectors list => SelectorList.percentagesApart list
  | prelude (.media queries) => queries.all fun query => !query.hasBareOr
  | _ => true

structure Prelude.Survives (lineComments : Bool) (name : Text) (source : List Lexeme)
    (prelude : Prelude) : Prop where
  stands : prelude.written.Stands lineComments
  solid : prelude.isEmpty = false → StartsSolid prelude.written.toLexemes
  empty : prelude.isEmpty = true → prelude.written = []
  fits : Fits source prelude.written.toLexemes
  reads : ∀ before after, isVoid before = true → isVoid after = true →
    readPrelude name (before ++ (prelude.written.toLexemes ++ after)) = prelude

theorem Prelude.survives_media {name : Text} {queries : MediaList}
    (hsound : IsSound lineComments source) (hbalanced : Balanced source)
    (hname : name.isKeyword "media" = true)
    (hread : MediaList.parse? source = some queries)
    (hor : (Part.prelude (.media queries)).readsBack = true) :
    Prelude.Survives lineComments name source (.media queries) := by
  have hsurvive : ∀ query ∈ queries, query.Survives lineComments :=
    MediaList.survives_of_parse? hsound hread fun query hquery => by
      simpa using List.all_eq_true.1 hor query hquery
  constructor
  case stands => exact MediaList.stands_tokens hsurvive
  case solid =>
    intro hne
    cases queries with
    | nil => contradiction
    | cons query queries =>
      obtain ⟨token, hhead, htrivia⟩ :=
        MediaList.exists_head (hsurvive query List.mem_cons_self) queries
      exact startsSolid_toLexemes hhead htrivia
  case empty =>
    intro hempty
    obtain rfl : queries = [] := List.isEmpty_iff.1 hempty
    rfl
  case fits => exact MediaList.fits_of_parse? hbalanced hsound.kept hread
  case reads =>
    intro before after hbefore hafter
    have hparse :
        MediaList.parse? (before ++ (queries.tokens.toLexemes ++ after)) = some queries := by
      rw [MediaList.parse?_append_void hbefore hafter, MediaList.parse?_tokens hsurvive]
    rw [written, readPrelude, if_pos hname, hparse]

theorem Prelude.survives_tokens {name : Text} (hsound : IsSound lineComments source)
    (hbalanced : Balanced source)
    (hread : name.isKeyword "media" = true → MediaList.parse? source = none) :
    Prelude.Survives lineComments name source (.tokens (TokenRun.ofLexemes source)) := by
  have hnormal := TokenRun.isNormal_ofLexemes source
  constructor
  case stands => exact hsound.stands hbalanced.isClosed
  case solid =>
    intro hne
    cases hrun : TokenRun.ofLexemes source with
    | nil =>
      rw [hrun] at hne
      contradiction
    | cons token run =>
      rw [hrun] at hnormal
      exact startsSolid_toLexemes rfl (hnormal.head token rfl)
  case empty => exact fun hempty => List.isEmpty_iff.1 hempty
  case fits => exact .of_marks_eq (marks_ofLexemes hsound.kept)
  case reads =>
    intro before after hbefore hafter
    have hmedia : (if name.isKeyword "media" then MediaList.parse?
        (before ++ ((TokenRun.ofLexemes source).toLexemes ++ after)) else none) = none := by
      split
      · rename_i hname
        rw [MediaList.parse?_append_void hbefore hafter, MediaList.parse?_ofLexemes hsound.kept,
          hread hname]
      · rfl
    rw [written, readPrelude, hmedia]
    simp only
    rw [TokenRun.ofLexemes_append_void hbefore hafter, hnormal.ofLexemes_toLexemes]

theorem Prelude.survives_readPrelude {name : Text} (hsound : IsSound lineComments source)
    (hbalanced : Balanced source)
    (hback : (Part.prelude (readPrelude name source)).readsBack = true) :
    Prelude.Survives lineComments name source (readPrelude name source) := by
  unfold readPrelude at hback ⊢
  by_cases hname : name.isKeyword "media" = true
  · rw [if_pos hname] at hback ⊢
    cases hread : MediaList.parse? source with
    | some queries =>
      rw [hread] at hback
      exact survives_media hsound hbalanced hname hread hback
    | none => exact survives_tokens hsound hbalanced fun _ => hread
  · rw [if_neg hname] at hback ⊢
    exact survives_tokens hsound hbalanced fun h => absurd h hname

/-! ### At-rules -/

theorem Lexeme.IsRead.isIdentifier_atKeyword {lexeme : Lexeme} {x name : Text}
    (h : IsRead lineComments lexeme x) (hplain : '\\' ∉ lexeme.raw)
    (htoken : lexeme.token = .atKeyword name) : name.isIdentifier = true := by
  have hspells := h.spells_of_sound (fun problem hreads => by rw [htoken] at hreads; cases hreads)
    (by simp [htoken])
  rw [htoken] at hspells
  generalize lexeme.raw = raw at hspells hplain
  cases hspells with
  | single hchar =>
    unfold Token.ofChar? at hchar
    split at hchar <;> simp at hchar
  | atKeyword hstarts hends =>
    exact Text.isIdentifier_of_nameEnds (fun hmem => hplain (List.mem_cons_of_mem _ hmem)) hstarts
      hends

def Lexeme.ofAtKeyword (name : Text) : Lexeme := ⟨.atKeyword name, .point 0, '@' :: name⟩

theorem Lexeme.writes_atKeyword {name : Text} (h : name.isIdentifier = true) :
    Writes lineComments [ofAtKeyword name] ('@' :: name) where
  text_eq := List.append_nil _
  scanned := by
    intro follow hfollow
    obtain ⟨hends, hstarts⟩ := Text.nameEnds_of_isIdentifier h hfollow.endsName.unit
    exact ⟨.of_spells (.atKeyword hstarts hends), trivial⟩

/-- What is written for the name and the prelude of an at-rule is read as them. -/
theorem IsAtHead.exists_written {name : Text} {prelude : Prelude}
    (h : IsAtHead limit depth source name prelude) (hsound : IsSound lineComments source)
    (hback : (Part.prelude prelude).readsBack = true) :
    ∃ lexemes, Writes lineComments lexemes (prelude.headText .pretty name) ∧
      StartsSolid lexemes ∧ ∀ after, isVoid after = true →
        IsAtHead limit depth (lexemes ++ after) name prelude := by
  obtain @⟨keyword, lexemes, name, hkeyword, hgoes⟩ := h
  obtain ⟨x, hread, hplain⟩ := hsound.isRead List.mem_cons_self
  have hname : name.isIdentifier = true :=
    hread.isIdentifier_atKeyword (fun hmem => hplain (List.mem_append_left _ hmem)) hkeyword
  have hlexemes : IsSound lineComments lexemes := hsound.part (List.suffix_cons ..).isInfix
  have hsurvives := Prelude.survives_readPrelude hlexemes (balanced_of_behind? hgoes) hback
  have hurls : ∀ lexeme ∈ lexemes, lexeme.token ≠ .url [] := by
    obtain ⟨follow, hgood⟩ := hlexemes
    exact hgood.ne_url
  have hbehind := hsurvives.fits hurls _ _ _ _ _ hgoes
  generalize readPrelude name lexemes = prelude at hsurvives hbehind ⊢
  have hkeyword : Writes lineComments [ofAtKeyword name] ('@' :: name) := writes_atKeyword hname
  let front : List Lexeme := if prelude.isEmpty then [] else [blanks [' ']]
  have hfront : isVoid front = true := by
    unfold front
    split <;> rfl
  refine ⟨ofAtKeyword name :: (front ++ prelude.written.toLexemes), ?_, ⟨_, rfl, rfl⟩,
    fun after hafter => ?_⟩
  · rw [Prelude.headText, prelude.toText_eq]
    unfold front
    split
    · rename_i hempty
      rw [hsurvives.empty hempty]
      exact hkeyword.append (.nil lineComments) (fun _ hc => by contradiction)
    · rename_i hne
      have hline := (Writes.of_stands hsurvives.stands).line
        (hsurvives.solid (Bool.eq_false_iff.2 hne)) (List.cons_ne_nil ' ' [])
        (List.forall_mem_singleton.2 rfl)
      exact hkeyword.append hline (separates_cons rfl _)
  · have hmarks : marks (front ++ (prelude.written.toLexemes ++ after)) =
        marks prelude.written.toLexemes := by
      rw [marks_append, marks_append, marks_of_isVoid hfront, marks_of_isVoid hafter,
        List.append_nil, List.nil_append]
    have hreads := hsurvives.reads front after hfront hafter
    rw [List.cons_append, List.append_assoc]
    conv => rhs; rw [← hreads]
    exact .intro rfl (by rw [behind?_congr hmarks, hbehind])

end Css
