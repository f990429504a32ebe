import Css.Proofs.Selector.Printing
import Mathlib.Data.List.Chain

/-!
# Well-formed selectors

A selector that was read is a sequence of compounds with one combinator between each two of them,
and only what stands directly in the argument of `:has()` may start with a combinator.
`IsWellFormed` says so of a list of components, without the places that reading goes through, and
`Contains` reaches the selectors in the arguments of functions at every depth
(`SelectorList.isWellFormed_of_contains`).
-/

namespace Css

def Component.startsCompound : Component → Bool
  | .typeName _ => true
  | .universal => true
  | _ => false

/-- Whether the components of a selector stand where they may; only a relative one may start with a
combinator. -/
structure Selector.IsWellFormed (relative : Bool) (selector : Selector) : Prop where
  ne_nil : selector ≠ []
  last : ∀ component ∈ selector.getLast?, component.isCombinator = false
  /-- No two combinators stand side by side. -/
  apart : selector.IsChain fun left right =>
    left.isCombinator = true → right.isCombinator = false
  /-- What starts a compound is the first component or stands right behind a combinator. -/
  first : selector.IsChain fun left right =>
    right.startsCompound = true → left.isCombinator = true
  leading : ∀ c, selector.head? = some (.combinator c) → relative = true ∧ c ≠ .descendant

/-- Whether a selector is one of a list, or stands in the argument of a function in it at any depth;
what stands directly in the argument of `:has()` may be relative. -/
inductive SelectorList.Contains :
    (relative : Bool) → SelectorList → (inRelative : Bool) → Selector → Prop
  | member {relative : Bool} {selectors : SelectorList} {selector : Selector}
      (h : selector ∈ selectors) : Contains relative selectors relative selector
  | inside {relative inRelative : Bool} {selectors arguments : SelectorList}
      {selector inner : Selector} {name : Text} (h : selector ∈ selectors)
      (hfunction : .selectorFunction name arguments ∈ selector)
      (harguments : Contains (name.isKeyword "has") arguments inRelative inner) :
    Contains relative selectors inRelative inner

namespace Selector

variable {relative : Bool} {place : Place} {components : List Component}

/-! ### One selector -/

theorem startsCompound_of_admits {left right : Component}
    (h : (Place.behind left).Admits relative right) (hstarts : right.startsCompound = true) :
    left.isCombinator = true := by
  cases hcombinator : left.isCombinator with
  | true => rfl
  | false =>
    rw [left.behind_eq hcombinator] at h
    cases right with
    | typeName => exact absurd rfl h
    | universal => exact absurd rfl h
    | _ => contradiction

theorem isCombinator_of_admits {left right : Component}
    (h : (Place.behind left).Admits relative right) (hleft : left.isCombinator = true) :
    right.isCombinator = false := by
  cases left with
  | combinator c => exact right.isCombinator_of_admits h
  | _ => contradiction

/-- Each component of a selector that has its shape may stand behind the one in front of it. -/
theorem isChain_of_isFormed (h : IsFormed relative place components) :
    components.IsChain fun left right => (Place.behind left).Admits relative right := by
  induction components generalizing place with
  | nil => exact .nil
  | cons component components ih =>
    obtain ⟨-, -, hmore⟩ := h
    cases components with
    | nil => exact .singleton component
    | cons next components => exact .cons_cons hmore.1 (ih hmore)

/-- A selector that has its shape ends behind a compound. -/
theorem isCombinator_getLast? (h : IsFormed relative place components) :
    ∀ component ∈ components.getLast?, component.isCombinator = false := by
  induction components generalizing place with
  | nil => exact fun _ hmem => by contradiction
  | cons component components ih =>
    obtain ⟨-, -, hmore⟩ := h
    cases components with
    | nil =>
      intro last hlast
      obtain rfl := Option.some.inj hlast
      cases component with
      | combinator c => exact Place.noConfusion hmore
      | _ => rfl
    | cons next components =>
      rw [List.getLast?_cons_cons]
      exact ih hmore

theorem isWellFormed_of_isFormed (h : IsFormed relative .start components) :
    IsWellFormed relative components where
  ne_nil := by
    rintro rfl
    exact Place.noConfusion h
  last := isCombinator_getLast? h
  apart := (isChain_of_isFormed h).imp fun _ _ => isCombinator_of_admits
  first := (isChain_of_isFormed h).imp fun _ _ => startsCompound_of_admits
  leading := by
    intro c hc
    obtain ⟨more, rfl⟩ := List.head?_eq_some_iff.1 hc
    exact h.1

/-! ### Arguments of functions -/

theorem IsFormed.of_mem (h : IsFormed relative place components) {component : Component}
    (hmem : component ∈ components) : component.IsFormed := by
  induction components generalizing place with
  | nil => contradiction
  | cons first components ih =>
    obtain ⟨-, hfirst, hmore⟩ := h
    obtain rfl | hmem := List.mem_cons.1 hmem
    · exact hfirst
    · exact ih hmore hmem

end Selector

namespace SelectorList

open Lexeme

theorem AreFormed.of_mem {relative : Bool} {selectors : SelectorList} {selector : Selector}
    (h : AreFormed relative selectors) (hmem : selector ∈ selectors) :
    Selector.IsFormed relative .start selector := by
  induction selectors with
  | nil => contradiction
  | cons first selectors ih =>
    obtain rfl | hmem := List.mem_cons.1 hmem
    · exact h.1
    · exact ih h.2 hmem

/-- What a list of selectors that have their shape contains at any depth is well formed. -/
theorem AreFormed.isWellFormed {relative inRelative : Bool} {selectors : SelectorList}
    {selector : Selector} (h : AreFormed relative selectors)
    (hcontains : Contains relative selectors inRelative selector) :
    selector.IsWellFormed inRelative := by
  induction hcontains with
  | member hmem => exact Selector.isWellFormed_of_isFormed (h.of_mem hmem)
  | inside hmem hfunction _ ih =>
    obtain ⟨-, -, harguments⟩ := (h.of_mem hmem).of_mem hfunction
    exact ih harguments

/-- Every selector of a list that was read, and every one in the argument of a function at any
depth, is well formed. -/
theorem isWellFormed_of_contains {lexemes : List Lexeme} {selectors : SelectorList}
    (h : parse lexemes = .ok selectors) {relative : Bool} {selector : Selector}
    (hcontains : Contains false selectors relative selector) : selector.IsWellFormed relative :=
  (areFormed_of_parse h).2.isWellFormed hcontains

theorem isWellFormed_of_contains_has :
    let inner : Selector := [.combinator .subsequentSibling, .universal, .className "x".toList]
    ∃ selectors, parse (ofText "li *:Is(:HAS(~ *.x, > i),b)".toList) = .ok selectors ∧
      Contains false selectors true inner ∧ inner.IsWellFormed true := by
  intro inner
  let relatives : SelectorList := [inner, [.combinator .child, .typeName "i".toList]]
  let arguments : SelectorList :=
    [[.selectorFunction "HAS".toList relatives], [.typeName "b".toList]]
  let outer : Selector := [.typeName "li".toList, .combinator .descendant, .universal,
    .selectorFunction "Is".toList arguments]
  have hparse : parse (ofText "li *:Is(:HAS(~ *.x, > i),b)".toList) = .ok [outer] := by
    with_unfolding_all rfl
  have harguments : .selectorFunction "Is".toList arguments ∈ outer := by simp [outer]
  have hcontains : Contains false [outer] true inner :=
    .inside List.mem_cons_self harguments
      (.inside List.mem_cons_self List.mem_cons_self (.member List.mem_cons_self))
  exact ⟨_, hparse, hcontains, isWellFormed_of_contains hparse hcontains⟩

end SelectorList

end Css
