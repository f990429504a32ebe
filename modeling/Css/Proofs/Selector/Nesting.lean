import Css.Proofs.Selector.Cutting
import Css.Proofs.Token.Depth

/-!
# How deep functions nest in a selector

Every function of a selector was read from brackets of its own, so functions nest at most as deep as
the brackets of the lexemes that the selector was read from. Where a function keeps its argument as
tokens, the brackets of these tokens count.
-/

namespace Css

open Lexeme

namespace TokenRun

def nesting (run : TokenRun) : Nat := deepest 0 run.toLexemes

theorem deepest_eq_toLexemes (depth : Nat) (lexemes : List Lexeme) :
    deepest depth lexemes = deepest depth (toLexemes (tokens lexemes)) := by
  induction lexemes generalizing depth with
  | nil => rfl
  | cons lexeme lexemes ih =>
    rw [deepest, ih]
    rfl

/-- A run nests as deep as the lexemes it was made of. -/
theorem nesting_ofLexemes (lexemes : List Lexeme) :
    (ofLexemes lexemes).nesting = deepest 0 lexemes := by
  have hrun := ofLexemes_congr (f := fun depth run => deepest depth run.toLexemes)
    (fun {token} hopens hcloses depth run => by
      have hbehind := @depthBehind_of_plain ⟨token, .point 0, token.toText .pretty⟩ hopens hcloses
      rw [toLexemes_cons, deepest, hbehind]
      exact Nat.max_eq_right (le_deepest ..))
    (fun _ _ _ h depth => congrArg (max depth) (h _)) lexemes 0
  exact hrun.trans (deepest_eq_toLexemes ..).symm

end TokenRun

mutual

def Component.callDepth : Component → Nat
  | .selectorFunction _ selectors => SelectorList.callDepth selectors + 1
  | .tokenFunction _ argument => argument.nesting + 1
  | .elementFunction _ argument => argument.nesting + 1
  | _ => 0

def Selector.callDepth : List Component → Nat
  | [] => 0
  | component :: components => max component.callDepth (Selector.callDepth components)

def SelectorList.callDepth : List (List Component) → Nat
  | [] => 0
  | selector :: selectors => max (Selector.callDepth selector) (SelectorList.callDepth selectors)

end

namespace SimpleSelector

/-- The most functions inside one another in a simple selector, or brackets in what is still to be
read of it. -/
def nesting : SimpleSelector → Nat
  | .component found => found.callDepth
  | .selectorFunction _ inner => deepest 0 inner + 1

variable {isElement isFirst : Bool} {lexemes rest : List Lexeme} {simple : SimpleSelector}

theorem IsPseudo.nesting_le (h : IsPseudo isElement lexemes simple rest) :
    simple.nesting ≤ deepest 0 lexemes ∧ deepest 0 rest ≤ deepest 0 lexemes := by
  cases h with
  | pseudoClass htoken =>
    simp only [nesting, Component.callDepth]
    exact ⟨Nat.zero_le _, deepest_tail_le (by rw [htoken]; rfl) (by rw [htoken]; rfl) 0 rest⟩
  | pseudoElement htoken =>
    simp only [nesting, Component.callDepth]
    exact ⟨Nat.zero_le _, deepest_tail_le (by rw [htoken]; rfl) (by rw [htoken]; rfl) 0 rest⟩
  | selectorFunction htoken hcut => exact deepest_of_cutBlock? (by rw [htoken]; rfl) hcut
  | tokenFunction htoken hcut =>
    simp only [nesting, Component.callDepth, TokenRun.nesting_ofLexemes]
    exact deepest_of_cutBlock? (by rw [htoken]; rfl) hcut
  | elementFunction htoken hcut =>
    simp only [nesting, Component.callDepth, TokenRun.nesting_ofLexemes]
    exact deepest_of_cutBlock? (by rw [htoken]; rfl) hcut

/-- A simple selector nests no deeper than the lexemes it is cut from, and neither does the rest. -/
theorem IsCut.nesting_le (h : IsCut isFirst lexemes simple rest) :
    simple.nesting ≤ deepest 0 lexemes ∧ deepest 0 rest ≤ deepest 0 lexemes := by
  have hplain : ∀ {lexeme : Lexeme} {token : Token} {behind : List Lexeme}, lexeme.token = token →
      token.opens? = none → token.closes? = none →
        deepest 0 behind ≤ deepest 0 (lexeme :: behind) := by
    rintro lexeme _ behind rfl hopens hcloses
    exact deepest_tail_le hopens hcloses 0 behind
  -- A component without brackets, in front of some of the lexemes.
  have hleaf : ∀ {found : Component} {behind : List Lexeme}, found.callDepth = 0 →
      deepest 0 behind ≤ deepest 0 lexemes →
        (component found).nesting ≤ deepest 0 lexemes ∧
          deepest 0 behind ≤ deepest 0 lexemes := by
    intro found behind hfound hbehind
    rw [SimpleSelector.nesting, hfound]
    exact ⟨Nat.zero_le _, hbehind⟩
  cases h with
  | typeName htoken => exact hleaf (by simp [Component.callDepth]) (hplain htoken rfl rfl)
  | universal htoken => exact hleaf (by simp [Component.callDepth]) (hplain htoken rfl rfl)
  | nesting htoken => exact hleaf (by simp [Component.callDepth]) (hplain htoken rfl rfl)
  | className hdot htoken =>
    exact hleaf (by simp [Component.callDepth])
      (Nat.le_trans (hplain htoken rfl rfl) (hplain hdot rfl rfl))
  | id htoken => exact hleaf (by simp [Component.callDepth]) (hplain htoken rfl rfl)
  | brackets htoken hcut =>
    exact hleaf (by simp [Component.callDepth])
      (deepest_of_cutBlock? (by rw [htoken]; rfl) hcut).2
  | @pseudo lexeme lexemes _ _ hcolon hpseudo =>
    have hbehind : deepest 0 lexemes ≤ deepest 0 (lexeme :: lexemes) := hplain hcolon rfl rfl
    obtain ⟨hsimple, hrest⟩ := hpseudo.nesting_le
    exact ⟨Nat.le_trans hsimple hbehind, Nat.le_trans hrest hbehind⟩
  | @element lexeme next lexemes _ _ hcolon hnext hpseudo =>
    have hbehind : deepest 0 lexemes ≤ deepest 0 (lexeme :: next :: lexemes) :=
      Nat.le_trans (hplain hnext rfl rfl) (hplain hcolon rfl rfl)
    obtain ⟨hsimple, hrest⟩ := hpseudo.nesting_le
    exact ⟨Nat.le_trans hsimple hbehind, Nat.le_trans hrest hbehind⟩
  | percentage htoken => exact hleaf (by simp [Component.callDepth]) (hplain htoken rfl rfl)

end SimpleSelector

namespace Selector

theorem callDepth_combinator_append (place : Place) (selector : Selector) :
    callDepth ((place.combinator?.map Component.combinator).toList ++ selector) =
      callDepth selector := by
  cases place.combinator? with
  | none => rfl
  | some combinator => simp [callDepth, Component.callDepth]

theorem no_bracket_of_combinator {token : Token} {combinator : Combinator}
    (h : Combinator.ofToken? token = some combinator) :
    token.opens? = none ∧ token.closes? = none := by
  cases token with
  | function name => simp [Combinator.ofToken?] at h
  | opening bracket => simp [Combinator.ofToken?] at h
  | closing bracket => simp [Combinator.ofToken?] at h
  | _ => exact ⟨rfl, rfl⟩

mutual

theorem callDepth_of_parseFrom {relative : Bool} {place : Place} {lexemes : List Lexeme}
    {selector : Selector} (h : parseFrom relative place lexemes = .ok selector) :
    callDepth selector ≤ deepest 0 lexemes := by
  match lexemes with
  | [] =>
    rw [parseFrom_nil] at h
    split at h
    · contradiction
    · obtain rfl := Except.ok.inj h
      exact Nat.zero_le _
  | lexeme :: lexemes =>
    obtain ⟨htrivia, hmore⟩ | ⟨combinator, behind, hcombinator, -, hmore⟩ |
      ⟨simple, rest, component, more, hcut, hlength, hreads, hmore, rfl⟩ :=
        exists_of_parseFrom_cons h
    · exact Nat.le_trans (callDepth_of_parseFrom hmore)
        (deepest_tail_le_of_isTrivia htrivia 0 lexemes)
    · obtain ⟨hopens, hcloses⟩ := no_bracket_of_combinator hcombinator
      exact Nat.le_trans (callDepth_of_parseFrom hmore) (deepest_tail_le hopens hcloses 0 lexemes)
    · obtain ⟨hsimple, hrest⟩ := hcut.nesting_le
      have hcomponents := callDepth_of_parseFrom hmore
      have hcomponent : component.callDepth ≤ simple.nesting := by
        cases simple with
        | component found =>
          rw [show component = found from hreads]
          exact Nat.le_refl _
        | selectorFunction name inner =>
          obtain ⟨selectors, hselectors, rfl⟩ := hreads
          have htotal := totalLength_splitCommas inner
          rw [SimpleSelector.nesting, Component.callDepth]
          exact Nat.succ_le_succ (Nat.le_trans (callDepth_of_parseGroups hselectors)
            (deepestAll_splitCommas_le inner))
      rw [callDepth_combinator_append, callDepth]
      omega
termination_by 2 * lexemes.length
decreasing_by
  all_goals
    try rw [totalLength_splitCommas]
    try simp only [SimpleSelector.pendingLength] at hlength
    simp only [List.length_cons]
    omega

theorem callDepth_of_parseGroups {relative : Bool} {groups : List (List Lexeme)}
    {selectors : SelectorList} (h : parseGroups relative groups = .ok selectors) :
    SelectorList.callDepth selectors ≤ deepestAll groups := by
  match groups with
  | [] =>
    rw [parseGroups_nil] at h
    obtain rfl := Except.ok.inj h
    exact Nat.zero_le _
  | group :: groups =>
    have hlength : totalLength (group :: groups) = group.length + 1 + totalLength groups := rfl
    obtain ⟨selector, more, hfirst, hmore, rfl⟩ := exists_of_parseGroups_cons h
    have hselector := callDepth_of_parseFrom hfirst
    have hselectors := callDepth_of_parseGroups hmore
    simp only [SelectorList.callDepth, deepestAll]
    omega
termination_by 2 * totalLength groups

end

end Selector

/-- The functions of a selector list nest no deeper than the lexemes it is read from. -/
theorem SelectorList.callDepth_of_parse {lexemes : List Lexeme} {selectors : SelectorList}
    (h : parse lexemes = .ok selectors) : callDepth selectors ≤ deepest 0 lexemes :=
  Nat.le_trans (Selector.callDepth_of_parseGroups h) (deepestAll_splitCommas_le lexemes)

end Css
