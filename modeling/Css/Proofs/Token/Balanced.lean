import Css.Proofs.Token.Level

/-!
# Balanced lexemes

Lexemes whose brackets are closed in order are a sequence of single lexemes and of blocks, which
hold such a sequence themselves (`isBalanced_iff`).
-/

namespace Css.Lexeme

/-- Lexemes in which every bracket is closed by its own shape, in order. -/
inductive Balanced : List Lexeme → Prop
  | nil : Balanced []
  | plain {lexeme : Lexeme} {lexemes : List Lexeme} : lexeme.token.opens? = none →
    lexeme.token.closes? = none → Balanced lexemes → Balanced (lexeme :: lexemes)
  | block {opener closer : Lexeme} {bracket : Bracket} {inner lexemes : List Lexeme} :
    opener.token.opens? = some bracket → closer.token.closes? = some bracket →
    Balanced inner → Balanced lexemes → Balanced (opener :: (inner ++ closer :: lexemes))

namespace Balanced

variable {left lexemes : List Lexeme}

theorem closesAll_append (h : Balanced left) (stack : List Bracket) (right : List Lexeme) :
    closesAll stack (left ++ right) = closesAll stack right := by
  induction h generalizing stack right with
  | nil => rfl
  | plain hopens hcloses _ ih => simp only [List.cons_append, closesAll, hopens, hcloses, ih]
  | block hopens hcloses _ _ ihInner ih =>
    simp only [List.cons_append, List.append_assoc, closesAll, hopens, ihInner,
      opens?_of_closes? hcloses, hcloses, beq_self_eq_true, Bool.true_and, ih]

theorem isBalanced (h : Balanced lexemes) : Lexeme.isBalanced lexemes = true := by
  have := h.closesAll_append [] []
  rw [List.append_nil] at this
  exact this

end Balanced

/-- What closes some open brackets goes up to the one that closes the innermost of them. -/
theorem exists_closer {bracket : Bracket} {stack : List Bracket} {lexemes : List Lexeme}
    (h : closesAll (bracket :: stack) lexemes = true) :
    ∃ inner closer rest, lexemes = inner ++ closer :: rest ∧ Balanced inner ∧
      closer.token.closes? = some bracket ∧ closesAll stack rest = true := by
  match lexemes with
  | [] => exact absurd h (by simp [closesAll])
  | lexeme :: lexemes =>
    cases hopens : lexeme.token.opens? with
    | some opened =>
      simp only [closesAll, hopens] at h
      obtain ⟨inner, closer, rest, heq, hinner, hcloser, hrest⟩ := exists_closer h
      have hlength : rest.length < lexemes.length := by simp [heq]; omega
      obtain ⟨inner', closer', rest', heq', hinner', hcloser', hrest'⟩ := exists_closer hrest
      subst heq heq'
      refine ⟨lexeme :: (inner ++ closer :: inner'), closer', rest', ?_, ?_, hcloser', hrest'⟩
      · simp
      · exact .block hopens hcloser hinner hinner'
    | none =>
      cases hcloses : lexeme.token.closes? with
      | some closed =>
        simp only [closesAll, hopens, hcloses, Bool.and_eq_true, beq_iff_eq] at h
        obtain ⟨rfl, hrest⟩ := h
        exact ⟨[], lexeme, lexemes, rfl, .nil, hcloses, hrest⟩
      | none =>
        simp only [closesAll, hopens, hcloses] at h
        obtain ⟨inner, closer, rest, rfl, hinner, hcloser, hrest⟩ := exists_closer h
        exact ⟨lexeme :: inner, closer, rest, rfl, .plain hopens hcloses hinner, hcloser, hrest⟩
termination_by lexemes.length
decreasing_by all_goals (simp only [List.length_cons]; omega)

theorem balanced_of_isBalanced {lexemes : List Lexeme} (h : isBalanced lexemes = true) :
    Balanced lexemes := by
  match lexemes with
  | [] => exact .nil
  | lexeme :: lexemes =>
    rw [isBalanced] at h
    cases hopens : lexeme.token.opens? with
    | some opened =>
      simp only [closesAll, hopens] at h
      obtain ⟨inner, closer, rest, heq, hinner, hcloser, hrest⟩ := exists_closer h
      have hlength : rest.length < lexemes.length := by simp [heq]; omega
      have hbalanced := balanced_of_isBalanced hrest
      subst heq
      exact .block hopens hcloser hinner hbalanced
    | none =>
      cases hcloses : lexeme.token.closes? with
      | some closed => simp [closesAll, hopens, hcloses] at h
      | none =>
        simp only [closesAll, hopens, hcloses] at h
        exact .plain hopens hcloses (balanced_of_isBalanced h)
termination_by lexemes.length
decreasing_by all_goals (simp only [List.length_cons]; omega)

theorem isBalanced_iff {lexemes : List Lexeme} : isBalanced lexemes = true ↔ Balanced lexemes :=
  ⟨balanced_of_isBalanced, Balanced.isBalanced⟩

/-- Balanced lexemes are closed, so cutting at brackets and at commas passes over them. -/
theorem Balanced.isClosed {lexemes : List Lexeme} (h : Balanced lexemes) : IsClosed lexemes := by
  induction h with
  | nil => rfl
  | plain hopens hcloses _ ih => exact .plain hopens hcloses ih
  | block hopens hcloses _ _ ihInner ih => exact .brackets hopens hcloses ihInner ih

namespace Balanced

variable {left right lexemes : List Lexeme}

theorem append (hleft : Balanced left) (hright : Balanced right) : Balanced (left ++ right) := by
  apply balanced_of_isBalanced
  rw [Lexeme.isBalanced, hleft.closesAll_append]
  exact hright.isBalanced

theorem of_isVoid (h : isVoid lexemes = true) : Balanced lexemes := by
  have hplain := plain_of_isVoid h
  clear h
  induction lexemes with
  | nil => exact .nil
  | cons lexeme lexemes ih =>
    obtain ⟨⟨hopens, hcloses⟩, hplain⟩ := List.forall_mem_cons.1 hplain
    exact .plain hopens hcloses (ih hplain)

/-- What stands behind balanced lexemes is balanced if the whole is. -/
theorem of_append (h : Balanced (left ++ right)) (hleft : Balanced left) : Balanced right := by
  have hwhole := h.isBalanced
  rw [Lexeme.isBalanced, hleft.closesAll_append] at hwhole
  exact balanced_of_isBalanced hwhole

theorem of_plain {lexeme : Lexeme} (h : Balanced (lexeme :: lexemes))
    (hopens : lexeme.token.opens? = none) : Balanced lexemes := by
  cases h with
  | plain _ _ hrest => exact hrest
  | block hopener =>
    rw [hopens] at hopener
    contradiction

/-- What stands behind a token that is no bracket is balanced if the whole is. -/
theorem of_next? {rest : List Lexeme} {token : Token} (h : Balanced lexemes)
    (hnext : next? lexemes = some (token, rest)) (hopens : token.opens? = none) :
    Balanced rest := by
  induction lexemes with
  | nil => contradiction
  | cons lexeme lexemes ih =>
    unfold next? at hnext
    split at hnext
    · rename_i htrivia
      exact ih (h.of_plain (Token.opens?_of_isTrivia htrivia)) hnext
    · obtain ⟨rfl, rfl⟩ := Prod.mk.inj (Option.some.inj hnext)
      exact h.of_plain hopens

/-- In balanced lexemes a block starts behind every opening bracket and ends in its own shape. -/
theorem exists_cutBlock? {opener : Lexeme} {bracket : Bracket} (h : Balanced (opener :: lexemes))
    (hopens : opener.token.opens? = some bracket) :
    ∃ block, cutBlock? lexemes = some block ∧ block.closer.token.closes? = some bracket := by
  cases h with
  | plain hnone =>
    rw [hnone] at hopens
    contradiction
  | block hopener hcloses hinner hrest =>
    rw [hopens] at hopener
    obtain rfl := Option.some.inj hopener
    exact ⟨_, cutBlock?_append_of_isClosed hinner.isClosed hcloses _, hcloses⟩

/-- What a block holds and what stands behind it are balanced if the whole is. -/
theorem of_cutBlock? {opener : Lexeme} {bracket : Bracket} {block : Block}
    (h : Balanced (opener :: lexemes)) (hopens : opener.token.opens? = some bracket)
    (hcut : cutBlock? lexemes = some block) : Balanced block.inner ∧ Balanced block.rest := by
  cases h with
  | plain hnone =>
    rw [hnone] at hopens
    contradiction
  | block _ hcloses hinner hrest =>
    rw [cutBlock?_append_of_isClosed hinner.isClosed hcloses] at hcut
    obtain rfl := Option.some.inj hcut
    exact ⟨hinner, hrest⟩

/-- Every group between commas is balanced if the whole is. -/
theorem of_mem_splitCommas (h : Balanced lexemes) :
    ∀ group ∈ (splitCommas lexemes).toList, Balanced group := by
  induction h with
  | nil => exact List.forall_mem_singleton.2 .nil
  | @plain lexeme lexemes hopens hcloses _ ih =>
    obtain ⟨hfirst, hmore⟩ := List.forall_mem_cons.1 ih
    by_cases hcomma : lexeme.token = .comma
    · have hstart : splitCommas (lexeme :: lexemes) = (splitCommas lexemes).startGroup :=
        splitCommasFrom_comma hcomma lexemes
      rw [hstart]
      exact List.forall_mem_cons.2 ⟨.nil, ih⟩
    · have hcons : splitCommas (lexeme :: lexemes) = (splitCommas lexemes).cons lexeme :=
        splitCommasFrom_of_plain hopens hcloses (absurd · hcomma) lexemes
      rw [hcons]
      exact List.forall_mem_cons.2 ⟨.plain hopens hcloses hfirst, hmore⟩
  | @block opener closer bracket inner lexemes hopens hcloses hinner _ _ ih =>
    obtain ⟨hfirst, hmore⟩ := List.forall_mem_cons.1 ih
    have hblock := PassesCommas.brackets hopens hcloses hinner.isClosed .nil lexemes
    rw [List.cons_append, List.append_assoc, List.singleton_append] at hblock
    rw [hblock]
    refine List.forall_mem_cons.2 ⟨?_, hmore⟩
    have hgroup := Balanced.block hopens hcloses hinner hfirst
    simpa [Groups.prepend] using hgroup

end Balanced

end Css.Lexeme
