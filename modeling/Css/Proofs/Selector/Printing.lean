import Css.Proofs.Selector.Shape
import Css.Proofs.Selector.Tokens
import Css.Proofs.Token.Standing
import Css.Proofs.Value.Components

/-!
# Scanning what was written for a selector list

What is written for a selector list is scanned as its tokens (`SelectorList.stands_tokens`), if its
names are names, its arguments stand where they are put, and each percentage starts a compound
(`SelectorList.Survive`): in front of a percentage right behind a name the name would go on.
-/

namespace Css

open Lexeme

variable {lineComments : Bool}

/-! ### Percentages -/

def Component.isCombinator : Component → Bool
  | .combinator _ => true
  | _ => false

def Selector.startsWithPercentage : List Component → Bool
  | .percentage _ :: _ => true
  | _ => false

mutual

def Component.percentagesApart : Component → Bool
  | .selectorFunction _ selectors => SelectorList.percentagesApart selectors
  | _ => true

/-- Whether no percentage in a selector stands right behind a component that is no combinator. -/
def Selector.percentagesApart : List Component → Bool
  | [] => true
  | component :: components =>
    component.percentagesApart &&
      (component.isCombinator || !Selector.startsWithPercentage components) &&
      Selector.percentagesApart components

def SelectorList.percentagesApart : List (List Component) → Bool
  | [] => true
  | selector :: selectors =>
    Selector.percentagesApart selector && SelectorList.percentagesApart selectors

end

/-! ### Names and arguments -/

def AttributeValue.IsSpelled : AttributeValue → Prop
  | ident name => name.isIdentifier = true
  | string content quote =>
    '\\' ∉ content ∧ ∀ c ∈ content, c ≠ quote.toChar ∧ isNewline c = false

structure AttributeSelector.IsSpelled (selector : AttributeSelector) : Prop where
  name : selector.name.isIdentifier = true
  value : ∀ matcher ∈ selector.matcher, matcher.value.IsSpelled

structure TokenRun.IsArgument (lineComments : Bool) (name : Text) (argument : TokenRun) :
    Prop where
  isIdentifier : name.isIdentifier = true
  stands : argument.Stands lineComments
  normal : argument.IsNormal
  /-- What starts with no string is no quoted url. -/
  url : name.isKeyword "url" = true →
    ∃ content quote run, argument = .string content quote :: run

mutual

def Component.IsSpelled (lineComments : Bool) : Component → Prop
  | .typeName name => name.isIdentifier = true
  | .universal => True
  | .nesting => True
  | .className name => name.isIdentifier = true
  | .id name => name.isIdentifier = true
  | .attribute selector => selector.IsSpelled
  | .pseudoClass name => name.isIdentifier = true
  | .pseudoElement name => name.isIdentifier = true
  | .selectorFunction name selectors =>
    name.isIdentifier = true ∧ SelectorList.AreSpelled lineComments selectors
  | .tokenFunction name argument => argument.IsArgument lineComments name
  | .elementFunction name argument => argument.IsArgument lineComments name
  | .combinator _ => True
  | .percentage x => x.isFinite = true

def Selector.IsSpelled (lineComments : Bool) : List Component → Prop
  | [] => True
  | component :: components =>
    component.IsSpelled lineComments ∧ Selector.IsSpelled lineComments components

def SelectorList.AreSpelled (lineComments : Bool) : List (List Component) → Prop
  | [] => True
  | selector :: selectors =>
    Selector.IsSpelled lineComments selector ∧ SelectorList.AreSpelled lineComments selectors

end

/-! ### What survives -/

structure Component.Survives (lineComments : Bool) (component : Component) : Prop where
  formed : component.IsFormed
  spelled : component.IsSpelled lineComments
  apart : component.percentagesApart = true

structure Selector.Survives (lineComments relative : Bool) (place : Selector.Place)
    (components : List Component) : Prop where
  formed : Selector.IsFormed relative place components
  spelled : Selector.IsSpelled lineComments components
  apart : Selector.percentagesApart components = true

structure SelectorList.Survive (lineComments relative : Bool)
    (selectors : List (List Component)) : Prop where
  formed : SelectorList.AreFormed relative selectors
  spelled : SelectorList.AreSpelled lineComments selectors
  apart : SelectorList.percentagesApart selectors = true

theorem Component.Survives.selectors {name : Text} {selectors : SelectorList}
    (h : (Component.selectorFunction name selectors).Survives lineComments) :
    SelectorList.Survive lineComments (name.isKeyword "has") selectors :=
  ⟨h.formed.2.2, h.spelled.2, h.apart⟩

namespace Selector.Survives

variable {relative : Bool} {place : Selector.Place} {component : Component}
  {components : List Component}

theorem admits (h : Selector.Survives lineComments relative place (component :: components)) :
    place.Admits relative component := h.formed.1

theorem first (h : Selector.Survives lineComments relative place (component :: components)) :
    component.Survives lineComments := by
  have hapart := h.apart
  rw [Selector.percentagesApart, Bool.and_eq_true, Bool.and_eq_true] at hapart
  exact ⟨h.formed.2.1, h.spelled.1, hapart.1.1⟩

theorem tail (h : Selector.Survives lineComments relative place (component :: components)) :
    Selector.Survives lineComments relative (.behind component) components := by
  have hapart := h.apart
  rw [Selector.percentagesApart, Bool.and_eq_true] at hapart
  exact ⟨h.formed.2.2, h.spelled.2, hapart.2⟩

theorem startsWithPercentage_eq
    (h : Selector.Survives lineComments relative place (component :: components))
    (hcomponent : component.isCombinator = false) :
    Selector.startsWithPercentage components = false := by
  have hapart := h.apart
  rw [Selector.percentagesApart, hcomponent, Bool.false_or, Bool.and_eq_true, Bool.and_eq_true,
    Bool.not_eq_true'] at hapart
  exact hapart.1.2

end Selector.Survives

namespace SelectorList.Survive

variable {relative : Bool} {selector : List Component} {selectors : List (List Component)}

theorem head (h : SelectorList.Survive lineComments relative (selector :: selectors)) :
    Selector.Survives lineComments relative .start selector := by
  have hapart := h.apart
  rw [SelectorList.percentagesApart, Bool.and_eq_true] at hapart
  exact ⟨h.formed.1, h.spelled.1, hapart.1⟩

theorem tail (h : SelectorList.Survive lineComments relative (selector :: selectors)) :
    SelectorList.Survive lineComments relative selectors := by
  have hapart := h.apart
  rw [SelectorList.percentagesApart, Bool.and_eq_true] at hapart
  exact ⟨h.formed.2, h.spelled.2, hapart.2⟩

end SelectorList.Survive

/-! ### Runs in front of a compound -/

namespace TokenRun

structure StandsTight (lineComments : Bool) (run : TokenRun) : Prop where
  scanned : ∀ follow, EndsName follow → AreScanned lineComments run.toLexemes follow
  closed : IsClosed run.toLexemes

namespace StandsTight

variable {run left right : TokenRun}

theorem nil : StandsTight lineComments [] := ⟨fun _ _ => trivial, rfl⟩

theorem cons {token : Token} (hopens : token.opens? = none) (hcloses : token.closes? = none)
    (hspells : ∀ follow, EndsName follow →
      Token.Spells lineComments (run.toText .pretty ++ follow) token (token.toText .pretty))
    (h : run.StandsTight lineComments) : StandsTight lineComments (token :: run) where
  scanned := fun follow hfollow =>
    areScanned_cons (hspells follow hfollow) (h.scanned follow hfollow)
  closed := .plain hopens hcloses h.closed

/-- Behind such a run may stand what goes on with no name. -/
theorem append (hleft : left.StandsTight lineComments) (hright : right.Stands lineComments)
    (hends : ∀ follow, Separates follow → EndsName (right.toText .pretty ++ follow)) :
    (left ++ right).Stands lineComments where
  scanned := fun follow hfollow =>
    areScanned_append (hleft.scanned _ (hends follow hfollow)) (hright.scanned follow hfollow)
  closed := by
    rw [toLexemes_append]
    exact hleft.closed.append hright.closed

end StandsTight

theorem Stands.delim {run : TokenRun} {c : Char} (h : run.Stands lineComments)
    (hends : ∀ follow, Separates follow →
      Token.DelimEnds lineComments (run.toText .pretty ++ follow) c) :
    Stands lineComments (.delim c :: run) where
  scanned := fun follow hfollow =>
    areScanned_cons (.delim (hends follow hfollow)) (h.scanned follow hfollow)
  closed := .plain rfl rfl h.closed

/-- A function with its argument is scanned in front of anything. -/
theorem Stands.call {name : Text} {argument : TokenRun} (h : argument.Stands lineComments)
    (hname : name.isIdentifier = true)
    (hurl : name.isKeyword "url" = true →
      ∃ content quote run, argument = .string content quote :: run) :
    StandsTight lineComments (.function name :: (argument ++ [.closing .round])) where
  scanned := by
    intro follow _
    obtain ⟨hends, hstarts⟩ := Text.nameEnds_of_isIdentifier hname
      (show nameUnit ('(' :: _) = 0 from rfl)
    refine areScanned_cons ?_ (areScanned_append (h.scanned _ (separates_cons rfl _))
      (areScanned_cons (.single rfl) trivial))
    cases hkeyword : name.isKeyword "url" with
    | false => exact .function hstarts hends hkeyword
    | true =>
      obtain ⟨content, quote, run, rfl⟩ := hurl hkeyword
      refine .quotedUrl hkeyword (List.forall_mem_nil _) (.inl ⟨rfl, ?_⟩)
      exact ⟨quote.toChar, _, rfl, isQuote_toChar quote⟩
  closed := by
    rw [toLexemes_cons, toLexemes_append]
    exact .brackets rfl rfl h.closed rfl

theorem IsArgument.standsTight {name : Text} {argument : TokenRun}
    (h : argument.IsArgument lineComments name) :
    StandsTight lineComments (.function name :: (argument ++ [.closing .round])) :=
  h.stands.call h.isIdentifier h.url

theorem Stands.squared {run : TokenRun} (h : run.Stands lineComments) :
    StandsTight lineComments (.opening .square :: (run ++ [.closing .square])) where
  scanned := fun follow _ =>
    areScanned_cons (.single rfl) (areScanned_append (h.scanned _ (separates_cons rfl _))
      (areScanned_cons (.single rfl) trivial))
  closed := by
    rw [toLexemes_cons, toLexemes_append]
    exact .brackets rfl rfl h.closed rfl

theorem standsTight_ident {name : Text} (h : name.isIdentifier = true) :
    StandsTight lineComments [.ident name] :=
  .cons rfl rfl (fun _ hfollow => Text.spells_of_isIdentifier h hfollow) .nil

end TokenRun

/-! ### Attributes -/

namespace AttributeSelector

open TokenRun

theorem stands_flag (lineComments : Bool) (flag : Option CaseFlag) :
    TokenRun.Stands lineComments (CaseFlag.tokens flag) ∧
      Separates (TokenRun.toText .pretty (CaseFlag.tokens flag)) := by
  have hword : ∀ {word : Text}, word.isIdentifier = true →
      TokenRun.Stands lineComments [.whitespace, .ident word] ∧
        Separates (TokenRun.toText .pretty [.whitespace, .ident word]) := by
    intro word h
    have hident : TokenRun.Stands lineComments [.ident word] :=
      Stands.nil.word (Text.isWord_of_isIdentifier h) (fun _ hmem => by contradiction)
    exact ⟨hident.space rfl rfl, separates_cons rfl _⟩
  rcases flag with _ | _ | _
  · exact ⟨.nil, fun _ hmem => by contradiction⟩
  · exact hword (by decide)
  · exact hword (by decide)

theorem stands_value {value : AttributeValue} (h : value.IsSpelled) (flag : Option CaseFlag) :
    TokenRun.Stands lineComments (value.token :: CaseFlag.tokens flag) := by
  obtain ⟨hflag, hseparates⟩ := stands_flag lineComments flag
  cases value with
  | ident name => exact hflag.word (Text.isWord_of_isIdentifier h) hseparates
  | string content quote =>
    refine ⟨fun follow hfollow => ?_, .plain rfl rfl hflag.closed⟩
    exact areScanned_cons (.string (stringLength_of_forall h.1 h.2 _)) (hflag.scanned _ hfollow)

/-- Each character of an operator is scanned on its own, in front of anything. -/
theorem stands_operator (operator : AttributeOperator) {run : TokenRun}
    (h : run.Stands lineComments) : (operator.tokens ++ run).Stands lineComments := by
  have hequals : Stands lineComments (.delim '=' :: run) := h.delim fun _ _ => rfl
  cases operator with
  | equals => exact hequals
  | includes => exact hequals.delim fun _ _ => rfl
  | dashMatch => exact hequals.delim fun _ _ => rfl
  | startsWith => exact hequals.delim fun _ _ => rfl
  | endsWith => exact hequals.delim fun _ _ => rfl
  | contains => exact hequals.delim fun _ _ => rfl

theorem endsName_operator (operator : AttributeOperator) (rest : Text) :
    EndsName (operator.tokens.toText .pretty ++ rest) := by
  cases operator <;> exact endsName_cons (by decide) (by decide) _

theorem stands_inner {selector : AttributeSelector} (h : selector.IsSpelled) :
    selector.inner.Stands lineComments := by
  obtain ⟨name, matcher⟩ := selector
  have hname : TokenRun.StandsTight lineComments [.ident name] := standsTight_ident h.name
  cases matcher with
  | none => exact hname.append .nil fun _ hfollow => hfollow.endsName
  | some matcher =>
    refine hname.append (stands_operator _ (stands_value (h.value matcher rfl) _)) ?_
    intro follow _
    rw [toText_pretty_append, List.append_assoc]
    exact endsName_operator ..

end AttributeSelector

/-! ### Selectors -/

/-- A component that is no combinator starts with a token that is neither trivia nor one. -/
theorem Component.exists_tokens {component : Component} (h : component.isCombinator = false)
    (leading : Bool) :
    ∃ token run, component.tokens leading = token :: run ∧ token.isTrivia = false ∧
      Combinator.ofToken? token = none := by
  cases component with
  | combinator => contradiction
  | _ => exact ⟨_, _, rfl, rfl, rfl⟩

theorem Combinator.stands_tokens (c : Combinator) (leading : Bool) {run : TokenRun} {token : Token}
    (h : run.Stands lineComments) (hhead : run.head? = some token)
    (htrivia : token.isTrivia = false) : (c.tokens leading ++ run).Stands lineComments := by
  have hspace := h.space hhead htrivia
  have hboth : ∀ c : Char,
      (∀ follow, Token.DelimEnds lineComments (' ' :: follow) c) →
        TokenRun.Stands lineComments
          ((if leading then [] else [.whitespace]) ++ [.delim c, .whitespace] ++ run) := by
    intro c hends
    have hdelim : TokenRun.Stands lineComments (.delim c :: .whitespace :: run) :=
      hspace.delim fun _ _ => hends _
    cases leading with
    | true => exact hdelim
    | false => exact hdelim.space rfl rfl
  cases c with
  | descendant => exact hspace
  | child => exact hboth '>' fun _ => rfl
  | nextSibling => exact hboth '+' fun _ => rfl
  | subsequentSibling => exact hboth '~' fun _ => rfl

theorem Component.behind_eq {component : Component} (h : component.isCombinator = false) :
    Selector.Place.behind component = .compound := by
  cases component with
  | combinator => contradiction
  | _ => rfl

theorem Component.isCombinator_of_admits {c : Combinator} {relative : Bool} {component : Component}
    (h : (Selector.Place.pending c).Admits relative component) :
    component.isCombinator = false := by
  cases component with
  | combinator => exact h.elim
  | _ => rfl

/-- Behind a simple selector stands nothing, a combinator or a simple selector that starts with no
name. -/
theorem Selector.endsName_tokens {relative : Bool} {components : List Component}
    (h : Selector.Survives lineComments relative .compound components)
    (hpercentage : Selector.startsWithPercentage components = false) {follow : Text}
    (hfollow : Separates follow) :
    EndsName (TokenRun.toText .pretty (Selector.tokens false components) ++ follow) := by
  cases components with
  | nil => exact hfollow.endsName
  | cons component components =>
    rw [Selector.tokens, TokenRun.toText_pretty_append, List.append_assoc]
    cases component with
    | typeName => exact absurd rfl h.admits
    | universal => exact absurd rfl h.admits
    | percentage => contradiction
    | combinator c => cases c <;> exact endsName_cons (by decide) (by decide) _
    | _ => exact endsName_cons (by decide) (by decide) _

/-- A name that selectors stand behind is no url. -/
theorem SimpleSelector.not_url_of_takesSelectors {name : Text}
    (h : takesSelectors name = true) : name.isKeyword "url" = false := by
  rw [takesSelectors, Text.isOneOf, List.any_eq_true] at h
  obtain ⟨keyword, hmem, hname⟩ := h
  rw [Text.isKeyword, beq_iff_eq] at hname
  rw [Text.isKeyword, hname]
  clear hname
  revert keyword
  decide

theorem Token.delimEnds_point {name : Text} (h : name.isIdentifier = true) {follow : Text}
    (hfollow : EndsName follow) :
    DelimEnds lineComments (TokenRun.toText .pretty [.ident name] ++ follow) '.' := by
  show startsNumeral ('.' :: (name ++ [] ++ follow)) = false
  rw [List.append_nil, startsNumeral_point]
  exact (no_fraction_of_startsName (Text.nameEnds_of_isIdentifier h hfollow.unit).2).1

theorem Token.spells_id {name : Text} (h : name.isIdentifier = true) {follow : Text}
    (hfollow : EndsName follow) :
    Spells lineComments follow (.hash name true) ('#' :: name) := by
  obtain ⟨hstarts, hchars⟩ := Text.isIdentifier_iff.1 h
  have hne : name ≠ [] := by
    rintro rfl
    contradiction
  have hspells : Spells lineComments follow (.hash name (startsName name)) ('#' :: name) :=
    spells_hash hne hchars hfollow
  rwa [hstarts] at hspells

/-- A percentage is scanned in front of anything. -/
theorem TokenRun.standsTight_percentage {numeral sign whole fraction : Text} {x : Number}
    (h : IsNumeral numeral x sign whole fraction) :
    StandsTight lineComments [.percentage (.ofText numeral)] :=
  .cons rfl rfl (fun _ _ => .percentage (h.isSigned.startsNumeral_append _)
    (h.isSigned.numeralEnds_percent _)) .nil

/-- A selector starts with a token that is no trivia. -/
theorem Selector.exists_tokens {relative : Bool} {components : List Component}
    (h : Selector.Survives lineComments relative .start components) :
    ∃ token, (Selector.tokens true components).head? = some token ∧ token.isTrivia = false := by
  cases components with
  | nil => exact absurd h.formed (by rw [Selector.IsFormed]; exact Place.noConfusion)
  | cons component components =>
    cases hcombinator : component.isCombinator with
    | false =>
      obtain ⟨token, run, htokens, htrivia, -⟩ := component.exists_tokens hcombinator true
      exact ⟨token, by rw [Selector.tokens, htokens]; rfl, htrivia⟩
    | true =>
      cases component with
      | combinator c =>
        cases c with
        | descendant => exact absurd rfl h.admits.2
        | _ => exact ⟨_, rfl, rfl⟩
      | _ => contradiction

/-- Behind a combinator stands a component that is none. -/
theorem Selector.exists_cons_of_pending {relative : Bool} {c : Combinator}
    {components : List Component}
    (h : Selector.Survives lineComments relative (.pending c) components) :
    ∃ component more, components = component :: more ∧ component.isCombinator = false := by
  cases components with
  | nil => exact absurd h.formed (by rw [Selector.IsFormed]; exact Place.noConfusion)
  | cons component more => exact ⟨component, more, rfl, component.isCombinator_of_admits h.admits⟩

theorem SelectorList.exists_tokens {relative : Bool} {selector : List Component}
    {selectors : List (List Component)}
    (h : SelectorList.Survive lineComments relative (selector :: selectors)) :
    ∃ token, (SelectorList.tokens (selector :: selectors)).head? = some token ∧
      token.isTrivia = false := by
  obtain ⟨token, hhead, htrivia⟩ := Selector.exists_tokens h.head
  refine ⟨token, ?_, htrivia⟩
  cases selectors with
  | nil => exact hhead
  | cons next selectors => rw [SelectorList.tokens, List.head?_append, hhead, Option.some_or]

mutual

theorem Component.stands_tokens (leading : Bool) : {component : Component} →
    component.Survives lineComments → component.isCombinator = false →
      (component.tokens leading).StandsTight lineComments
  | .typeName _, h, _ => TokenRun.standsTight_ident h.spelled
  | .universal, _, _ => .cons rfl rfl (fun _ _ => .delim rfl) .nil
  | .nesting, _, _ => .cons rfl rfl (fun _ _ => .delim rfl) .nil
  | .className _, h, _ =>
    .cons rfl rfl (fun _ hfollow => .delim (Token.delimEnds_point h.spelled hfollow))
      (TokenRun.standsTight_ident h.spelled)
  | .id _, h, _ => .cons rfl rfl (fun _ hfollow => Token.spells_id h.spelled hfollow) .nil
  | .attribute _, h, _ => (AttributeSelector.stands_inner h.spelled).squared
  | .pseudoClass _, h, _ =>
    .cons rfl rfl (fun _ _ => .single rfl) (TokenRun.standsTight_ident h.spelled)
  | .pseudoElement _, h, _ =>
    .cons rfl rfl (fun _ _ => .single rfl)
      (.cons rfl rfl (fun _ _ => .single rfl) (TokenRun.standsTight_ident h.spelled))
  | .selectorFunction name selectors, h, _ => by
    have hinner := SelectorList.stands_tokens h.selectors
    refine .cons rfl rfl (fun _ _ => .single rfl) (hinner.call h.spelled.1 fun hurl => ?_)
    rw [SimpleSelector.not_url_of_takesSelectors h.formed.1] at hurl
    contradiction
  | .tokenFunction _ _, h, _ => .cons rfl rfl (fun _ _ => .single rfl) h.spelled.standsTight
  | .elementFunction _ _, h, _ =>
    .cons rfl rfl (fun _ _ => .single rfl)
      (.cons rfl rfl (fun _ _ => .single rfl) h.spelled.standsTight)
  | .combinator _, _, h => by contradiction
  | .percentage _, h, _ => by
    obtain ⟨_, _, _, hnumeral⟩ := Style.pretty.exists_isNumeral h.spelled
    exact TokenRun.standsTight_percentage hnumeral

theorem Selector.stands_tokens {relative : Bool} {place : Selector.Place} (leading : Bool) :
    {components : List Component} → Selector.Survives lineComments relative place components →
      (Selector.tokens leading components).Stands lineComments
  | [], _ => .nil
  | component :: components, h => by
    have hmore := Selector.stands_tokens false h.tail
    have htail := h.tail
    cases hcombinator : component.isCombinator with
    | false =>
      rw [component.behind_eq hcombinator] at htail
      exact (Component.stands_tokens leading h.first hcombinator).append hmore fun _ hfollow =>
        Selector.endsName_tokens htail (h.startsWithPercentage_eq hcombinator) hfollow
    | true =>
      cases component with
      | combinator c =>
        obtain ⟨next, more, rfl, hnext⟩ := Selector.exists_cons_of_pending htail
        obtain ⟨token, run, htokens, htrivia, -⟩ := next.exists_tokens hnext false
        exact c.stands_tokens leading hmore (by rw [Selector.tokens, htokens]; rfl) htrivia
      | _ => contradiction

theorem SelectorList.stands_tokens {relative : Bool} : {selectors : List (List Component)} →
    SelectorList.Survive lineComments relative selectors →
      (SelectorList.tokens selectors).Stands lineComments
  | [], _ => .nil
  | [_], h => Selector.stands_tokens true h.head
  | selector :: next :: selectors, h => by
    have hmore := SelectorList.stands_tokens h.tail
    obtain ⟨token, hhead, htrivia⟩ := SelectorList.exists_tokens h.tail
    rw [SelectorList.tokens]
    exact (Selector.stands_tokens true h.head).append (hmore.space hhead htrivia).comma
      (separates_cons rfl _)

end

end Css
