import Css.Token.Block

/-!
# How deep brackets nest

`deepest` counts brackets without a look at their shape, as cutting a run into blocks and groups
does. What is cut out of a run nests less deeply in it than the run does.
-/

namespace Css.Lexeme

def depthBehind (depth : Nat) (lexeme : Lexeme) : Nat :=
  if lexeme.token.opens?.isSome then depth + 1
  else if lexeme.token.closes?.isSome then depth - 1
  else depth

/-- The most brackets that are open at one place of a run that starts `depth` brackets deep. -/
def deepest : (depth : Nat) → List Lexeme → Nat
  | depth, [] => depth
  | depth, lexeme :: lexemes => max depth (deepest (lexeme.depthBehind depth) lexemes)

theorem le_deepest (depth : Nat) (lexemes : List Lexeme) : depth ≤ deepest depth lexemes := by
  cases lexemes with
  | nil => exact Nat.le_refl _
  | cons lexeme lexemes => exact Nat.le_max_left ..

theorem deepest_depthBehind_le (depth : Nat) (lexeme : Lexeme) (lexemes : List Lexeme) :
    deepest (lexeme.depthBehind depth) lexemes ≤ deepest depth (lexeme :: lexemes) :=
  Nat.le_max_right ..

theorem depthBehind_of_isTrivia {lexeme : Lexeme} (h : lexeme.isTrivia = true) (depth : Nat) :
    lexeme.depthBehind depth = depth := by
  obtain ⟨token, span, raw⟩ := lexeme
  cases token <;> first | rfl | simp [isTrivia, Token.isTrivia] at h

theorem depthBehind_of_opens? {lexeme : Lexeme} (h : lexeme.token.opens?.isSome = true)
    (depth : Nat) : lexeme.depthBehind depth = depth + 1 := by
  rw [depthBehind, if_pos h]

theorem depthBehind_of_isIdent {lexeme : Lexeme} {keyword : String}
    (h : lexeme.token.isIdent keyword = true) (depth : Nat) : lexeme.depthBehind depth = depth := by
  obtain ⟨token, span, raw⟩ := lexeme
  cases token <;> first | rfl | simp [Token.isIdent] at h

/-- What follows the first token of a run that is no trivia. -/
theorem deepest_of_next? {lexemes rest : List Lexeme} {token : Token}
    (h : next? lexemes = some (token, rest)) (depth : Nat) :
    ∃ lexeme : Lexeme, lexeme.token = token ∧
      deepest (lexeme.depthBehind depth) rest ≤ deepest depth lexemes := by
  induction lexemes with
  | nil => simp [next?] at h
  | cons lexeme lexemes ih =>
    unfold next? at h
    split at h
    · rename_i htrivia
      obtain ⟨found, htoken, hle⟩ := ih h
      refine ⟨found, htoken, Nat.le_trans hle ?_⟩
      have := deepest_depthBehind_le depth lexeme lexemes
      rwa [depthBehind_of_isTrivia htrivia] at this
    · obtain ⟨rfl, rfl⟩ := Prod.mk.inj (Option.some.inj h)
      exact ⟨lexeme, rfl, deepest_depthBehind_le ..⟩

theorem deepest_append_left (depth : Nat) (front back : List Lexeme) :
    deepest depth front ≤ deepest depth (front ++ back) := by
  induction front generalizing depth with
  | nil => exact le_deepest ..
  | cons lexeme front ih =>
    have := ih (lexeme.depthBehind depth)
    simp only [List.cons_append, deepest]
    omega

theorem depthBehind_of_plain {lexeme : Lexeme} (hopens : lexeme.token.opens? = none)
    (hcloses : lexeme.token.closes? = none) (depth : Nat) : lexeme.depthBehind depth = depth := by
  simp [depthBehind, hopens, hcloses]

theorem deepest_tail_le {lexeme : Lexeme} (hopens : lexeme.token.opens? = none)
    (hcloses : lexeme.token.closes? = none) (depth : Nat) (lexemes : List Lexeme) :
    deepest depth lexemes ≤ deepest depth (lexeme :: lexemes) := by
  have hbehind := deepest_depthBehind_le depth lexeme lexemes
  rwa [depthBehind_of_plain hopens hcloses] at hbehind

theorem deepest_tail_le_of_isTrivia {lexeme : Lexeme} (h : lexeme.isTrivia = true) (depth : Nat)
    (lexemes : List Lexeme) : deepest depth lexemes ≤ deepest depth (lexeme :: lexemes) := by
  have hbehind := deepest_depthBehind_le depth lexeme lexemes
  rwa [depthBehind_of_isTrivia h] at hbehind

/-- What follows a token that is no bracket. -/
theorem deepest_of_next?_plain {lexemes rest : List Lexeme} {token : Token}
    (h : next? lexemes = some (token, rest)) (hopens : token.opens? = none)
    (hcloses : token.closes? = none) (depth : Nat) :
    deepest depth rest ≤ deepest depth lexemes := by
  obtain ⟨lexeme, rfl, hle⟩ := deepest_of_next? h depth
  rwa [depthBehind_of_plain hopens hcloses] at hle

/-! ### Blocks -/

/-- What a block holds nests one bracket deeper in the run than on its own. -/
theorem deepest_inner_lt {depth : Nat} {lexemes : List Lexeme} {block : Block}
    (h : cutBlockFrom? depth lexemes = some block) :
    deepest depth block.inner < deepest (depth + 1) lexemes := by
  induction lexemes generalizing depth block with
  | nil => simp [cutBlockFrom?] at h
  | cons lexeme lexemes ih =>
    unfold cutBlockFrom? at h
    split at h
    · rename_i hopens
      obtain ⟨found, hfound, rfl⟩ := Option.map_eq_some_iff.1 h
      have := ih hfound
      simp only [Block.cons, deepest, depthBehind, hopens, if_true]
      omega
    · rename_i hopens
      split at h
      · rename_i hcloses
        cases depth with
        | zero =>
          obtain rfl := Option.some.inj h
          simp only [deepest]
          omega
        | succ depth =>
          obtain ⟨found, hfound, rfl⟩ := Option.map_eq_some_iff.1 h
          have := ih hfound
          simp only [Block.cons, deepest, depthBehind, hopens, hcloses, if_true,
            Bool.false_eq_true, if_false, Nat.add_sub_cancel]
          omega
      · rename_i hcloses
        obtain ⟨found, hfound, rfl⟩ := Option.map_eq_some_iff.1 h
        have := ih hfound
        simp only [Block.cons, deepest, depthBehind, hopens, hcloses, Bool.false_eq_true, if_false]
        omega

/-- What follows a block is outside it. -/
theorem deepest_rest_le (outer : Nat) {depth : Nat} {lexemes : List Lexeme} {block : Block}
    (h : cutBlockFrom? depth lexemes = some block) :
    deepest outer block.rest ≤ deepest (outer + depth + 1) lexemes := by
  induction lexemes generalizing depth block with
  | nil => simp [cutBlockFrom?] at h
  | cons lexeme lexemes ih =>
    have hstep := deepest_depthBehind_le (outer + depth + 1) lexeme lexemes
    unfold depthBehind at hstep
    unfold cutBlockFrom? at h
    split at h
    · rename_i hopens
      obtain ⟨found, hfound, rfl⟩ := Option.map_eq_some_iff.1 h
      rw [if_pos hopens] at hstep
      have hrest : deepest outer found.rest ≤ deepest (outer + (depth + 1) + 1) lexemes := ih hfound
      exact Nat.le_trans hrest hstep
    · rename_i hopens
      rw [if_neg hopens] at hstep
      split at h
      · rename_i hcloses
        rw [if_pos hcloses] at hstep
        cases depth with
        | zero =>
          obtain rfl := Option.some.inj h
          exact hstep
        | succ depth =>
          obtain ⟨found, hfound, rfl⟩ := Option.map_eq_some_iff.1 h
          have hrest : deepest outer found.rest ≤ deepest (outer + depth + 1) lexemes := ih hfound
          exact Nat.le_trans hrest hstep
      · rename_i hcloses
        rw [if_neg hcloses] at hstep
        obtain ⟨found, hfound, rfl⟩ := Option.map_eq_some_iff.1 h
        have hrest : deepest outer found.rest ≤ deepest (outer + depth + 1) lexemes := ih hfound
        exact Nat.le_trans hrest hstep

/-- What an opening bracket and its block nest: more than the block holds, and no less than what
follows it. -/
theorem deepest_of_cutBlock? {opener : Lexeme} {lexemes : List Lexeme} {block : Block}
    (hopens : opener.token.opens?.isSome = true) (h : cutBlock? lexemes = some block) :
    deepest 0 block.inner < deepest 0 (opener :: lexemes) ∧
      deepest 0 block.rest ≤ deepest 0 (opener :: lexemes) := by
  have hbehind := deepest_depthBehind_le 0 opener lexemes
  rw [depthBehind_of_opens? hopens] at hbehind
  exact ⟨Nat.lt_of_lt_of_le (deepest_inner_lt h) hbehind,
    Nat.le_trans (deepest_rest_le 0 h) hbehind⟩

/-! ### Groups -/

theorem deepest_splitCommasFrom (depth : Nat) (lexemes : List Lexeme) :
    deepest depth (splitCommasFrom depth lexemes).first ≤ deepest depth lexemes ∧
      ∀ group ∈ (splitCommasFrom depth lexemes).more, deepest 0 group ≤ deepest depth lexemes := by
  induction lexemes generalizing depth with
  | nil => exact ⟨Nat.le_refl _, fun _ hmem => absurd hmem (List.not_mem_nil)⟩
  | cons lexeme lexemes ih =>
    have hcons : ∀ behind, lexeme.depthBehind depth = behind →
        deepest depth ((splitCommasFrom behind lexemes).cons lexeme).first ≤
            deepest depth (lexeme :: lexemes) ∧
          ∀ group ∈ ((splitCommasFrom behind lexemes).cons lexeme).more,
            deepest 0 group ≤ deepest depth (lexeme :: lexemes) := by
      rintro _ rfl
      obtain ⟨hfirst, hmore⟩ := ih (lexeme.depthBehind depth)
      refine ⟨?_, fun group hmem => ?_⟩
      · simp only [Groups.cons, deepest]
        omega
      · exact Nat.le_trans (hmore group hmem) (deepest_depthBehind_le ..)
    unfold splitCommasFrom
    split
    · rename_i hopens
      exact hcons _ (by rw [depthBehind, if_pos hopens])
    split
    · rename_i hopens hcloses
      exact hcons _ (by rw [depthBehind, if_neg hopens, if_pos hcloses])
    split
    · rename_i hopens hcloses hcomma
      obtain ⟨htoken, rfl⟩ := hcomma
      obtain ⟨hfirst, hmore⟩ := ih 0
      have hbehind : lexeme.depthBehind 0 = 0 := by rw [depthBehind, if_neg hopens, if_neg hcloses]
      have hstep := deepest_depthBehind_le 0 lexeme lexemes
      rw [hbehind] at hstep
      refine ⟨le_deepest .., fun group hmem => ?_⟩
      obtain rfl | hmem := List.mem_cons.1 hmem
      · exact Nat.le_trans hfirst hstep
      · exact Nat.le_trans (hmore group hmem) hstep
    · rename_i hopens hcloses hcomma
      exact hcons _ (by rw [depthBehind, if_neg hopens, if_neg hcloses])

theorem deepest_of_mem_splitCommas {lexemes group : List Lexeme}
    (h : group ∈ (splitCommas lexemes).toList) : deepest 0 group ≤ deepest 0 lexemes := by
  obtain ⟨hfirst, hmore⟩ := deepest_splitCommasFrom 0 lexemes
  obtain rfl | hmem := List.mem_cons.1 h
  · exact hfirst
  · exact hmore group hmem

def deepestAll : List (List Lexeme) → Nat
  | [] => 0
  | group :: groups => max (deepest 0 group) (deepestAll groups)

theorem deepestAll_le {groups : List (List Lexeme)} {n : Nat}
    (h : ∀ group ∈ groups, deepest 0 group ≤ n) : deepestAll groups ≤ n := by
  induction groups with
  | nil => exact Nat.zero_le n
  | cons group groups ih =>
    rw [List.forall_mem_cons] at h
    exact Nat.max_le.2 ⟨h.1, ih h.2⟩

theorem deepestAll_splitCommas_le (lexemes : List Lexeme) :
    deepestAll (splitCommas lexemes).toList ≤ deepest 0 lexemes :=
  deepestAll_le fun _ hmem => deepest_of_mem_splitCommas hmem

end Css.Lexeme
