import Css.Proofs.Selector.Parsing

/-!
# Selectors survive printing

What is read as a selector list from a text without backslashes, in which nothing is cut short and
no url is empty, is made of names, strings and arguments that are read back from what is written for
them (`SelectorList.areSpelled_of_parse`). So the list is read back from its text, if every
percentage in it starts a compound (`SelectorList.parse_toText_percentagesApart`).
-/

namespace Css

open Lexeme

variable {lineComments : Bool}

/-! ### Attributes -/

namespace AttributeSelector

theorem mem_of_parseValue {tokens rest : List Token} {value : AttributeValue}
    (h : parseValue tokens = .ok (value, rest)) : value.token ∈ tokens := by
  unfold parseValue at h
  split at h
  · obtain ⟨rfl, -⟩ := Prod.mk.inj (Except.ok.inj h)
    exact List.mem_cons_self
  · obtain ⟨rfl, -⟩ := Prod.mk.inj (Except.ok.inj h)
    exact List.mem_cons_self
  · contradiction

theorem suffix_of_parseOperator {tokens rest : List Token} {operator : AttributeOperator}
    (h : parseOperator tokens = .ok (operator, rest)) : rest <:+ tokens := by
  unfold parseOperator at h
  split at h
  · obtain ⟨-, rfl⟩ := Prod.mk.inj (Except.ok.inj h)
    exact List.suffix_cons _ _
  · split at h
    · obtain ⟨-, rfl⟩ := Prod.mk.inj (Except.ok.inj h)
      exact (List.suffix_cons _ _).trans (List.suffix_cons _ _)
    · contradiction
  · contradiction

/-- The name and the value of an attribute stand between its brackets. -/
theorem mem_tokens_of_parse {inner : List Lexeme} {selector : AttributeSelector}
    (h : parse inner = .ok selector) :
    .ident selector.name ∈ tokens inner ∧
      ∀ matcher ∈ selector.matcher, matcher.value.token ∈ tokens inner := by
  have hsolid : ∀ {token : Token}, token ∈ (tokens inner).filter (fun token => !token.isTrivia) →
      token ∈ tokens inner := fun hmem => (List.mem_filter.1 hmem).1
  unfold parse at h
  split at h
  · rename_i name htokens
    obtain rfl := Except.ok.inj h
    exact ⟨hsolid (htokens ▸ List.mem_cons_self), fun _ hmem => by contradiction⟩
  · rename_i name rest _ htokens
    cases hoperator : parseOperator rest with
    | error error =>
      rw [hoperator] at h
      contradiction
    | ok found =>
      obtain ⟨operator, behind⟩ := found
      rw [hoperator] at h
      cases hvalue : parseValue behind with
      | error error =>
        simp only [bind, Except.bind, hvalue] at h
        contradiction
      | ok found =>
        obtain ⟨value, more⟩ := found
        simp only [bind, Except.bind, hvalue] at h
        cases hflag : parseFlag more with
        | error error =>
          rw [hflag] at h
          contradiction
        | ok flag =>
          rw [hflag] at h
          obtain rfl := Except.ok.inj h
          refine ⟨hsolid (htokens ▸ List.mem_cons_self), fun matcher hmem => ?_⟩
          obtain rfl := Option.some.inj hmem
          have hbehind := (suffix_of_parseOperator hoperator).subset (mem_of_parseValue hvalue)
          exact hsolid (htokens ▸ List.mem_cons_of_mem _ hbehind)
  · contradiction

/-- An attribute that was read is read back. -/
theorem isSpelled_of_parse {inner : List Lexeme} {selector : AttributeSelector}
    (hsound : IsSound lineComments inner) (h : parse inner = .ok selector) :
    selector.IsSpelled := by
  obtain ⟨hname, hvalue⟩ := mem_tokens_of_parse h
  refine ⟨?_, fun matcher hmatcher => ?_⟩
  · obtain ⟨lexeme, hmem, htoken⟩ := List.mem_map.1 hname
    exact hsound.isIdentifier_of_mem hmem htoken
  · obtain ⟨lexeme, hmem, htoken⟩ := List.mem_map.1 (hvalue matcher hmatcher)
    cases hkind : matcher.value with
    | ident name =>
      rw [hkind] at htoken
      exact hsound.isIdentifier_of_mem hmem htoken
    | string content quote =>
      rw [hkind] at htoken
      obtain ⟨x, hread, hplain⟩ := hsound.isRead hmem
      exact hread.forall_of_string hplain htoken

end AttributeSelector

/-! ### Names and arguments -/

/-- What stands between the brackets of a function can stand there again. -/
theorem TokenRun.isArgument_of_cutBlock? {lexeme : Lexeme} {lexemes : List Lexeme} {name : Text}
    {block : Block} (h : IsSound lineComments (lexeme :: lexemes))
    (htoken : lexeme.token = .function name) (hcut : cutBlock? lexemes = some block) :
    (ofLexemes block.inner).IsArgument lineComments name where
  isIdentifier := by
    obtain ⟨x, hread, hplain⟩ := h.isRead List.mem_cons_self
    exact hread.isIdentifier_function (fun hmem => hplain (List.mem_append_left x hmem)) htoken
  stands :=
    (h.part (List.infix_cons (infix_of_cutBlock? hcut).1)).stands (isClosed_of_cutBlock? hcut)
  normal := isNormal_ofLexemes _
  url := by
    intro hurl
    have hkept := (h.part (List.infix_cons (infix_of_cutBlock? hcut).1)).kept
    rw [cutBlock?_eq_some hcut] at h
    obtain ⟨content, quote, behind, hnext⟩ :=
      h.exists_string htoken hurl (closes?_of_cutBlock? hcut)
    have hfirst := next?_ofLexemes hkept
    rw [hnext] at hfirst
    cases hrun : ofLexemes block.inner with
    | nil =>
      rw [hrun] at hfirst
      contradiction
    | cons token run =>
      have htrivia : token.isTrivia = false :=
        (isNormal_ofLexemes block.inner).head token (by rw [hrun]; rfl)
      rw [hrun, toLexemes_cons, @next?_of_not_isTrivia ⟨token, _, _⟩ htrivia] at hfirst
      obtain ⟨rfl, -⟩ := Prod.mk.inj (Option.some.inj hfirst)
      exact ⟨content, quote, run, rfl⟩

namespace Selector

/-- A pseudo-class or pseudo-element that was read is read back, if the selectors that its function
reads are. -/
theorem isSpelled_of_isPseudo {isElement : Bool} {lexemes rest : List Lexeme}
    {simple : SimpleSelector} {component : Component} (hsound : IsSound lineComments lexemes)
    (hpseudo : SimpleSelector.IsPseudo isElement lexemes simple rest)
    (hsimple : SimpleReads simple component)
    (hgroups : ∀ name inner selectors, simple = .selectorFunction name inner →
      IsSound lineComments inner →
        parseGroups (name.isKeyword "has") (splitCommas inner).toList = .ok selectors →
          SelectorList.AreSpelled lineComments selectors) :
    component.IsSpelled lineComments := by
  cases hpseudo with
  | pseudoClass htoken =>
    obtain rfl := hsimple
    exact hsound.isIdentifier_of_mem List.mem_cons_self htoken
  | pseudoElement htoken =>
    obtain rfl := hsimple
    exact hsound.isIdentifier_of_mem List.mem_cons_self htoken
  | selectorFunction htoken hcut =>
    obtain ⟨selectors, hselectors, rfl⟩ := hsimple
    exact ⟨(TokenRun.isArgument_of_cutBlock? hsound htoken hcut).isIdentifier,
      hgroups _ _ _ rfl (hsound.part (List.infix_cons (infix_of_cutBlock? hcut).1)) hselectors⟩
  | tokenFunction htoken hcut =>
    obtain rfl := hsimple
    exact TokenRun.isArgument_of_cutBlock? hsound htoken hcut
  | elementFunction htoken hcut =>
    obtain rfl := hsimple
    exact TokenRun.isArgument_of_cutBlock? hsound htoken hcut

/-- A simple selector that was read is read back, if the selectors that its function reads are. -/
theorem isSpelled_of_isCut {isFirst : Bool} {lexemes rest : List Lexeme} {simple : SimpleSelector}
    {component : Component} (hsound : IsSound lineComments lexemes)
    (hcut : SimpleSelector.IsCut isFirst lexemes simple rest)
    (hsimple : SimpleReads simple component)
    (hgroups : ∀ name inner selectors, simple = .selectorFunction name inner →
      IsSound lineComments inner →
        parseGroups (name.isKeyword "has") (splitCommas inner).toList = .ok selectors →
          SelectorList.AreSpelled lineComments selectors) :
    component.IsSpelled lineComments := by
  cases hcut with
  | typeName htoken =>
    obtain rfl := hsimple
    exact hsound.isIdentifier_of_mem List.mem_cons_self htoken
  | universal => obtain rfl := hsimple; trivial
  | nesting => obtain rfl := hsimple; trivial
  | className _ hnext =>
    obtain rfl := hsimple
    exact hsound.isIdentifier_of_mem (List.mem_cons_of_mem _ List.mem_cons_self) hnext
  | id htoken =>
    obtain rfl := hsimple
    obtain ⟨x, hread, hplain⟩ := hsound.isRead List.mem_cons_self
    exact hread.isIdentifier_hash (fun hmem => hplain (List.mem_append_left x hmem)) htoken
  | brackets _ hblock hparse =>
    obtain rfl := hsimple
    exact AttributeSelector.isSpelled_of_parse
      (hsound.part (List.infix_cons (infix_of_cutBlock? hblock).1)) hparse
  | pseudo _ hpseudo =>
    exact isSpelled_of_isPseudo (hsound.part (List.suffix_cons _ _).isInfix) hpseudo hsimple hgroups
  | element _ _ hpseudo =>
    exact isSpelled_of_isPseudo (hsound.part (List.infix_cons (List.suffix_cons _ _).isInfix))
      hpseudo hsimple hgroups
  | percentage htoken =>
    obtain rfl := hsimple
    obtain ⟨x, hread, -⟩ := hsound.isRead List.mem_cons_self
    exact Value.isFinite_numeric hread (by rw [htoken]; rfl)

theorem isSpelled_append {place : Place} {components : List Component}
    (h : Selector.IsSpelled lineComments components) :
    Selector.IsSpelled lineComments
      ((place.combinator?.map Component.combinator).toList ++ components) := by
  cases place.combinator? with
  | none => exact h
  | some c => exact ⟨trivial, h⟩

/-! Whatever is read as a selector is read back, by the recursion of the reader. -/

mutual

theorem isSpelled_of_parseFrom {relative : Bool} {place : Place} {lexemes : List Lexeme}
    {components : Selector} (hsound : IsSound lineComments lexemes)
    (h : parseFrom relative place lexemes = .ok components) :
    Selector.IsSpelled lineComments components := by
  match lexemes with
  | [] =>
    rw [parseFrom_nil] at h
    cases place with
    | start => contradiction
    | pending => contradiction
    | compound => obtain rfl := Except.ok.inj h; trivial
    | gap => obtain rfl := Except.ok.inj h; trivial
  | lexeme :: lexemes =>
    have htail : IsSound lineComments lexemes := hsound.part (List.suffix_cons _ _).isInfix
    obtain ⟨-, h⟩ | ⟨c, behind, -, -, h⟩ |
      ⟨simple, rest, component, more, hcut, hlength, hsimple, hmore, rfl⟩ :=
        exists_of_parseFrom_cons h
    · exact isSpelled_of_parseFrom htail h
    · exact isSpelled_of_parseFrom htail h
    · refine isSpelled_append ⟨isSpelled_of_isCut hsound hcut hsimple ?_,
        isSpelled_of_parseFrom (hsound.part hcut.isInfix) hmore⟩
      intro name inner selectors hfunction hinner hselectors
      have hpending : inner.length + 1 ≤ lexemes.length := by
        rw [hfunction, SimpleSelector.pendingLength] at hlength
        omega
      exact areSpelled_of_parseGroups
        (fun group hmem => hinner.part (infix_of_mem_splitCommas hmem)) hselectors
termination_by 2 * lexemes.length
decreasing_by
  all_goals
    try rw [totalLength_splitCommas]
    simp only [List.length_cons]
    omega

theorem areSpelled_of_parseGroups {relative : Bool} {groups : List (List Lexeme)}
    {selectors : SelectorList} (hsound : ∀ group ∈ groups, IsSound lineComments group)
    (h : parseGroups relative groups = .ok selectors) :
    SelectorList.AreSpelled lineComments selectors := by
  match groups with
  | [] =>
    rw [parseGroups_nil] at h
    obtain rfl := Except.ok.inj h
    trivial
  | group :: groups =>
    obtain ⟨selector, more, hselector, hmore, rfl⟩ := exists_of_parseGroups_cons h
    obtain ⟨hgroup, hgroups⟩ := List.forall_mem_cons.1 hsound
    exact ⟨isSpelled_of_parseFrom hgroup hselector, areSpelled_of_parseGroups hgroups hmore⟩
termination_by 2 * totalLength groups
decreasing_by all_goals (simp only [totalLength]; omega)

end

end Selector

/-! ### The round trip -/

namespace SelectorList

/-- A selector list that was read is read back piece by piece. -/
theorem areSpelled_of_parse {lexemes : List Lexeme} {selectors : SelectorList}
    (hsound : IsSound lineComments lexemes) (h : parse lexemes = .ok selectors) :
    AreSpelled lineComments selectors :=
  Selector.areSpelled_of_parseGroups
    (fun _ hmem => hsound.part (infix_of_mem_splitCommas hmem)) h

/-- A selector list that survives is read back from its text. -/
theorem parse_all {selectors : SelectorList} (h : Survive lineComments false selectors)
    (hne : selectors ≠ []) :
    parse ((Reading.all lineComments 0 (toText .pretty selectors)).map (·.lexeme)) =
      .ok (unsigned selectors) := by
  have hscanned := (stands_tokens h).scanned [] (fun _ hmem => by contradiction)
  rw [← toText_tokens, ← TokenRun.text_toLexemes, ← moves_bare.selectors_map,
    Reading.bare_all hscanned.isRead, moves_bare.selectors_map]
  exact parse_tokens h hne

end SelectorList

end Css
