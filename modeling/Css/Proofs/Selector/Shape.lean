import Css.Proofs.Selector.Cutting

/-!
# The shape of selectors

In a selector that was read no two combinators stand side by side and none ends it, a type or
universal selector starts its compound, and a combinator in front belongs to a relative selector
(`Selector.IsFormed`). This holds at every depth of the functions that take selectors
(`SelectorList.areFormed_of_parse`).
-/

namespace Css

open Lexeme

namespace Selector

def Place.Admits (relative : Bool) (place : Place) : Component → Prop
  | .combinator c =>
    match place with
    | start => relative = true ∧ c ≠ .descendant
    | compound => True
    | _ => False
  | .typeName _ => place ≠ compound
  | .universal => place ≠ compound
  | _ => True

def Place.behind : Component → Place
  | .combinator c => pending c
  | _ => compound

end Selector

mutual

def Component.IsFormed : Component → Prop
  | .selectorFunction name selectors =>
    SimpleSelector.takesSelectors name = true ∧ selectors ≠ [] ∧
      SelectorList.AreFormed (name.isKeyword "has") selectors
  | .tokenFunction name _ => SimpleSelector.takesSelectors name = false
  | _ => True

def Selector.IsFormed (relative : Bool) (place : Selector.Place) : List Component → Prop
  | [] => place = .compound
  | component :: components =>
    place.Admits relative component ∧ component.IsFormed ∧
      Selector.IsFormed relative (.behind component) components

def SelectorList.AreFormed (relative : Bool) : List (List Component) → Prop
  | [] => True
  | selector :: selectors =>
    Selector.IsFormed relative .start selector ∧ SelectorList.AreFormed relative selectors

end

namespace Selector

variable {relative : Bool} {place : Place} {components : List Component}

/-- Whether some components have their shape behind what was read up to some place: a combinator
that was read is the first of them. -/
def Place.Leads (relative : Bool) : Place → List Component → Prop
  | start, components => Selector.IsFormed relative .start components
  | pending c, components =>
    ∃ more, components = .combinator c :: more ∧ Selector.IsFormed relative (.pending c) more
  | compound, components => Selector.IsFormed relative .compound components
  | gap, components => Selector.IsFormed relative .compound components

theorem Place.leads_afterTrivia (h : place.afterTrivia.Leads relative components) :
    place.Leads relative components := by
  cases place <;> exact h

theorem ne_descendant_of_ofToken? {token : Token} {c : Combinator}
    (h : Combinator.ofToken? token = some c) : c ≠ .descendant := by
  unfold Combinator.ofToken? at h
  split at h
  all_goals first
    | contradiction
    | (obtain rfl := Option.some.inj h; exact Combinator.noConfusion)

theorem Place.leads_afterCombinator {c : Combinator} (hc : c ≠ .descendant) {behind : Place}
    (hbehind : place.afterCombinator relative c = .ok behind)
    (h : behind.Leads relative components) : place.Leads relative components := by
  cases place with
  | start =>
    rw [afterCombinator] at hbehind
    split at hbehind
    · rename_i hrelative
      obtain rfl := Except.ok.inj hbehind
      obtain ⟨more, rfl, hmore⟩ := h
      exact ⟨⟨hrelative, hc⟩, trivial, hmore⟩
    · contradiction
  | pending => contradiction
  | compound =>
    obtain rfl := Except.ok.inj hbehind
    obtain ⟨more, rfl, hmore⟩ := h
    exact ⟨trivial, trivial, hmore⟩
  | gap =>
    obtain rfl := Except.ok.inj hbehind
    obtain ⟨more, rfl, hmore⟩ := h
    exact ⟨trivial, trivial, hmore⟩

/-- Behind a simple selector stands a compound, and in front of it the combinator that was read. -/
theorem Place.leads_append {component : Component} (hbehind : behind component = compound)
    (hadmits : place.Admits relative component) (hformed : component.IsFormed)
    (h : Selector.IsFormed relative .compound components) :
    place.Leads relative
      ((place.combinator?.map Component.combinator).toList ++ component :: components) := by
  have hcomponents : Selector.IsFormed relative (.behind component) components := by rwa [hbehind]
  cases place with
  | start => exact ⟨hadmits, hformed, hcomponents⟩
  | pending c => exact ⟨_, rfl, hadmits, hformed, hcomponents⟩
  | compound => exact ⟨hadmits, hformed, hcomponents⟩
  | gap =>
    have hother : (pending .descendant).Admits relative component := by
      cases component with
      | combinator => contradiction
      | typeName => exact Place.noConfusion
      | universal => exact Place.noConfusion
      | _ => trivial
    exact ⟨trivial, trivial, hother, hformed, hcomponents⟩

/-- A simple selector may stand where it was read, and is no combinator. -/
theorem admits_of_isCut (relative : Bool) {lexemes rest : List Lexeme} {simple : SimpleSelector}
    {component : Component}
    (hcut : SimpleSelector.IsCut (place != .compound) lexemes simple rest)
    (hsimple : SimpleReads simple component) :
    Place.behind component = .compound ∧ place.Admits relative component := by
  cases hcut with
  | typeName _ hfirst =>
    obtain rfl := hsimple
    exact ⟨rfl, ne_of_beq_false (Bool.not_eq_true' _ ▸ hfirst)⟩
  | universal _ hfirst =>
    obtain rfl := hsimple
    exact ⟨rfl, ne_of_beq_false (Bool.not_eq_true' _ ▸ hfirst)⟩
  | nesting => obtain rfl := hsimple; exact ⟨rfl, trivial⟩
  | className => obtain rfl := hsimple; exact ⟨rfl, trivial⟩
  | id => obtain rfl := hsimple; exact ⟨rfl, trivial⟩
  | brackets => obtain rfl := hsimple; exact ⟨rfl, trivial⟩
  | percentage => obtain rfl := hsimple; exact ⟨rfl, trivial⟩
  | pseudo _ hpseudo =>
    cases hpseudo with
    | pseudoClass => obtain rfl := hsimple; exact ⟨rfl, trivial⟩
    | selectorFunction => obtain ⟨selectors, -, rfl⟩ := hsimple; exact ⟨rfl, trivial⟩
    | tokenFunction => obtain rfl := hsimple; exact ⟨rfl, trivial⟩
  | element _ _ hpseudo =>
    cases hpseudo with
    | pseudoElement => obtain rfl := hsimple; exact ⟨rfl, trivial⟩
    | elementFunction => obtain rfl := hsimple; exact ⟨rfl, trivial⟩

/-- A simple selector is formed if the selectors that its function reads are. -/
theorem isFormed_of_isCut {isFirst : Bool} {lexemes rest : List Lexeme} {simple : SimpleSelector}
    {component : Component} (hcut : SimpleSelector.IsCut isFirst lexemes simple rest)
    (hsimple : SimpleReads simple component)
    (hgroups : ∀ name inner selectors, simple = .selectorFunction name inner →
      parseGroups (name.isKeyword "has") (splitCommas inner).toList = .ok selectors →
        SelectorList.AreFormed (name.isKeyword "has") selectors) :
    component.IsFormed := by
  cases hcut with
  | pseudo _ hpseudo =>
    cases hpseudo with
    | selectorFunction _ _ htakes =>
      obtain ⟨selectors, hselectors, rfl⟩ := hsimple
      refine ⟨htakes, ?_, hgroups _ _ _ rfl hselectors⟩
      obtain ⟨selector, more, -, -, rfl⟩ := exists_of_parseGroups_cons hselectors
      exact List.cons_ne_nil _ _
    | tokenFunction _ _ htakes => obtain rfl := hsimple; exact htakes
    | pseudoClass => obtain rfl := hsimple; trivial
  | element _ _ hpseudo => cases hpseudo <;> (obtain rfl := hsimple; trivial)
  | _ => obtain rfl := hsimple; trivial

mutual

/-- What is read of a selector from some place on has its shape. -/
theorem leads_of_parseFrom {relative : Bool} {place : Place} {lexemes : List Lexeme}
    {components : Selector} (h : parseFrom relative place lexemes = .ok components) :
    place.Leads relative components := by
  match lexemes with
  | [] =>
    rw [parseFrom_nil] at h
    cases place with
    | start => contradiction
    | pending => contradiction
    | compound => obtain rfl := Except.ok.inj h; rfl
    | gap => obtain rfl := Except.ok.inj h; rfl
  | lexeme :: lexemes =>
    obtain ⟨-, h⟩ | ⟨c, behind, hc, hbehind, h⟩ |
      ⟨simple, rest, component, more, hcut, hlength, hsimple, hmore, rfl⟩ :=
        exists_of_parseFrom_cons h
    · exact Place.leads_afterTrivia (leads_of_parseFrom h)
    · exact Place.leads_afterCombinator (ne_descendant_of_ofToken? hc) hbehind
        (leads_of_parseFrom h)
    · obtain ⟨hcompound, hadmits⟩ := admits_of_isCut relative hcut hsimple
      refine Place.leads_append hcompound hadmits (isFormed_of_isCut hcut hsimple ?_)
        (leads_of_parseFrom hmore)
      intro name inner selectors hfunction hselectors
      have hpending : inner.length + 1 ≤ lexemes.length := by
        rw [hfunction, SimpleSelector.pendingLength] at hlength
        omega
      exact areFormed_of_parseGroups hselectors
termination_by 2 * lexemes.length
decreasing_by
  all_goals
    try rw [totalLength_splitCommas]
    simp only [List.length_cons]
    omega

theorem areFormed_of_parseGroups {relative : Bool} {groups : List (List Lexeme)}
    {selectors : SelectorList} (h : parseGroups relative groups = .ok selectors) :
    SelectorList.AreFormed relative selectors := by
  match groups with
  | [] =>
    rw [parseGroups_nil] at h
    obtain rfl := Except.ok.inj h
    trivial
  | group :: groups =>
    obtain ⟨selector, more, hselector, hmore, rfl⟩ := exists_of_parseGroups_cons h
    exact ⟨leads_of_parseFrom hselector, areFormed_of_parseGroups hmore⟩
termination_by 2 * totalLength groups
decreasing_by all_goals (simp only [totalLength]; omega)

end

end Selector

/-- A selector list that was read has its shape. -/
theorem SelectorList.areFormed_of_parse {lexemes : List Lexeme} {selectors : SelectorList}
    (h : parse lexemes = .ok selectors) : selectors ≠ [] ∧ AreFormed false selectors := by
  obtain ⟨selector, more, -, -, rfl⟩ := Selector.exists_of_parseGroups_cons h
  exact ⟨List.cons_ne_nil _ _, Selector.areFormed_of_parseGroups h⟩

end Css
