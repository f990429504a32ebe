import Css.Proofs.Token.Marks
import Css.Proofs.Token.Respaced

/-!
# Lexemes that fit where others stood

What is written for some source lexemes fits where these stood (`Lexeme.Fits`): a segment goes on
with it wherever it went on with the source. Lexemes with the same marks fit, so do lexemes without
marks in place of balanced ones, and what is put together from pieces that fit. Only an empty url
does not fit where it stood, since it is written as a function.
-/

namespace Css.Lexeme

/-- Other trivia are no marks. -/
theorem Respaced.marks_eq {xs ys : List Lexeme} (h : Respaced xs ys) : marks ys = marks xs := by
  rw [← marks_map condense false, ← h.condense_eq, marks_map]

theorem Balanced.of_marks_eq_nil {lexemes : List Lexeme} (h : marks lexemes = []) :
    Balanced lexemes := by
  induction lexemes with
  | nil => exact .nil
  | cons lexeme lexemes ih =>
    rw [marks_cons, List.append_eq_nil_iff, Option.toList_eq_nil_iff, Token.mark?_eq_none] at h
    exact .plain h.1.1 h.1.2.1 (ih h.2)

/-- In front of what stands behind a token without a mark there are no marks. -/
theorem exists_append_of_next? {lexemes rest : List Lexeme} {token : Token}
    (h : next? lexemes = some (token, rest)) (hplain : token.mark? = none) :
    ∃ front, lexemes = front ++ rest ∧ marks front = [] := by
  obtain ⟨front, lexeme, rfl, htoken, -, htrivia⟩ := exists_of_next? h
  refine ⟨front ++ [lexeme], by rw [List.append_assoc]; rfl, ?_⟩
  rw [marks_append, marks_of_isVoid (List.all_eq_true.2 htrivia), marks_cons, htoken, hplain]
  rfl

/-- Whether a segment goes on with written lexemes wherever it goes on with those of a source that
has no empty url. -/
def Fits (source written : List Lexeme) : Prop :=
  (∀ lexeme ∈ source, lexeme.token ≠ .url []) →
    ∀ atBlock atSemicolon room stack behind,
      behind? atBlock atSemicolon room stack source = some behind →
        behind? atBlock atSemicolon room stack written = some behind

def MayEnclose (inner written : List Lexeme) : Prop :=
  marks written = [] ∨ marks written = .opening .round :: (marks inner ++ [.closing .round])

namespace Fits

variable {source source' written written' : List Lexeme}

theorem of_marks_eq (h : marks written = marks source) : Fits source written := by
  intro _ atBlock atSemicolon room stack behind hgoes
  rw [behind?_congr h, hgoes]

theorem append (h : Fits source written) (h' : Fits source' written') :
    Fits (source ++ source') (written ++ written') := by
  intro hurls atBlock atSemicolon room stack behind hgoes
  obtain ⟨hleft, hright⟩ := List.forall_mem_append.1 hurls
  rw [behind?_append] at hgoes
  obtain ⟨middle, hmiddle, hrest⟩ := Option.bind_eq_some_iff.1 hgoes
  rw [behind?_append, h hleft _ _ _ _ _ hmiddle, Option.bind_some]
  exact h' hright _ _ _ _ _ hrest

/-- What fits in place of some lexemes of a source fits in place of all, if the others have no
marks. -/
theorem of_subset (h : Fits source written) (hsubset : source ⊆ source')
    (hmarks : marks source' = marks source) : Fits source' written := by
  intro hurls atBlock atSemicolon room stack behind hgoes
  rw [behind?_congr hmarks] at hgoes
  exact h (fun lexeme hmem => hurls lexeme (hsubset hmem)) _ _ _ _ _ hgoes

theorem congr_written (h : Fits source written) (hmarks : marks written' = marks written) :
    Fits source written' := by
  intro hurls atBlock atSemicolon room stack behind hgoes
  rw [behind?_congr hmarks]
  exact h hurls _ _ _ _ _ hgoes

/-- Lexemes without marks fit in place of balanced ones. -/
theorem of_balanced (h : Balanced source) (hplain : marks written = []) : Fits source written := by
  intro _ atBlock atSemicolon room stack behind hgoes
  rw [behind?_of_marks_eq_nil hplain, h.eq_of_behind? hgoes]

theorem cons {lexeme : Lexeme} (hplain : lexeme.token.mark? = none) (h : Fits source written) :
    Fits (lexeme :: source) written := by
  refine h.of_subset (List.subset_cons_self ..) ?_
  rw [marks_cons, hplain]
  rfl

theorem of_next? {rest : List Lexeme} {token : Token} (hnext : next? source = some (token, rest))
    (hplain : token.mark? = none) (h : Fits rest written) : Fits source written := by
  obtain ⟨front, rfl, hfront⟩ := exists_append_of_next? hnext hplain
  exact h.of_subset (List.subset_append_right _ _) (by rw [marks_append, hfront]; rfl)

/-- What fits inside a pair of brackets fits with it. -/
theorem block {opener opener' closer closer' : Lexeme} {bracket : Bracket}
    (hopens : opener.token.opens? = some bracket) (hopens' : opener'.token.opens? = some bracket)
    (hcloses : closer.token.closes? = some bracket)
    (hcloses' : closer'.token.closes? = some bracket) (h : Fits source written) :
    Fits (opener :: (source ++ [closer])) (opener' :: (written ++ [closer'])) := by
  have hopen : Fits [opener] [opener'] := of_marks_eq <| by
    rw [marks_cons, marks_cons, Token.mark?_eq_opening.2 hopens, Token.mark?_eq_opening.2 hopens']
  have hclose : Fits [closer] [closer'] := of_marks_eq <| by
    rw [marks_cons, marks_cons, Token.mark?_eq_closing.2 hcloses, Token.mark?_eq_closing.2 hcloses']
  exact hopen.append (h.append hclose)

/-- A function around what fits in the brackets of another one, or what is written for it without
brackets. -/
theorem call {opener closer : Lexeme} {name : Text} (hopener : opener.token = .function name)
    (hcloses : closer.token.closes? = some .round) (hbalanced : Balanced source)
    (h : Fits source written) (hencloses : MayEnclose written written') :
    Fits (opener :: (source ++ [closer])) written' := by
  have hopens : opener.token.opens? = some .round := by
    rw [hopener]
    rfl
  obtain hplain | hmarks := hencloses
  · exact .of_balanced (.block hopens hcloses hbalanced .nil) hplain
  · refine (h.block hopens hopens hcloses hcloses).congr_written ?_
    rw [hmarks, marks_cons, marks_append, marks_cons, Token.mark?_eq_opening.2 hopens,
      Token.mark?_eq_closing.2 hcloses]
    rfl

/-- What fits in place of each group fits with commas in place of the lexemes that were split. -/
theorem of_splitCommas {lexemes : List Lexeme}
    (h : Fits (splitCommas lexemes).toList.flatten written) : Fits lexemes written := by
  refine h.of_subset (fun lexeme hmem => ?_) ?_
  · obtain ⟨group, hgroup, hlexeme⟩ := List.mem_flatten.1 hmem
    exact (infix_of_mem_splitCommas hgroup).subset hlexeme
  · rw [← marks_splitCommas lexemes, marks, List.filterMap_flatten, ← List.flatMap_def]
    rfl

end Fits

/-! ### Fewer brackets -/

/-- Whether written lexemes fit in place of balanced ones where there are fewer brackets around them
too, as long as a curly one is left if there was one. -/
def FitsInFewer (source written : List Lexeme) : Prop :=
  (∀ lexeme ∈ source, lexeme.token ≠ .url []) →
    ∀ atBlock atSemicolon room (stack stack' : List Bracket) behind,
      stack'.length ≤ stack.length → (.curly ∈ stack → .curly ∈ stack') →
        behind? atBlock atSemicolon room stack source = some behind →
          behind = stack ∧ behind? atBlock atSemicolon room stack' written = some stack'

namespace FitsInFewer

variable {source source' written written' : List Lexeme} {opener opener' closer closer' : Lexeme}
  {bracket : Bracket}

theorem fits (h : FitsInFewer source written) : Fits source written := by
  intro hurls atBlock atSemicolon room stack behind hgoes
  obtain ⟨rfl, hwritten⟩ := h hurls _ _ _ _ _ _ (Nat.le_refl _) id hgoes
  exact hwritten

theorem of_marks_eq_nil (hsource : marks source = []) (hwritten : marks written = []) :
    FitsInFewer source written := by
  intro _ atBlock atSemicolon room stack stack' behind _ _ hgoes
  rw [behind?_of_marks_eq_nil hsource, Option.some.injEq] at hgoes
  exact ⟨hgoes.symm, behind?_of_marks_eq_nil hwritten⟩

theorem append (h : FitsInFewer source written) (h' : FitsInFewer source' written') :
    FitsInFewer (source ++ source') (written ++ written') := by
  intro hurls atBlock atSemicolon room stack stack' behind hlength hcurly hgoes
  obtain ⟨hleft, hright⟩ := List.forall_mem_append.1 hurls
  rw [behind?_append] at hgoes
  obtain ⟨middle, hmiddle, hrest⟩ := Option.bind_eq_some_iff.1 hgoes
  obtain ⟨rfl, hwritten⟩ := h hleft _ _ _ _ _ _ hlength hcurly hmiddle
  obtain ⟨hsame, hwritten'⟩ := h' hright _ _ _ _ _ _ hlength hcurly hrest
  refine ⟨hsame, ?_⟩
  rw [behind?_append, hwritten, Option.bind_some, hwritten']

/-- What is open behind a pair of brackets and behind what they hold. -/
theorem exists_of_block {atBlock atSemicolon : Bool} {room : Nat} {stack behind : List Bracket}
    (hopens : opener.token.opens? = some bracket) (hcloses : closer.token.closes? = some bracket)
    (hgoes : behind? atBlock atSemicolon room stack (opener :: (source ++ [closer])) =
      some behind) :
    (stack.length < room ∧ ¬(bracket = .curly ∧ stack = [] ∧ atBlock = true)) ∧
      behind? atBlock atSemicolon room (bracket :: stack) source = some (bracket :: behind) := by
  obtain ⟨inside, hopen, hrest⟩ := behind?_cons_eq_some.1 hgoes
  obtain ⟨rfl, hroom⟩ := (behind?_of_opens? hopens).1 hopen
  rw [behind?_append] at hrest
  obtain ⟨middle, hinner, hclose⟩ := Option.bind_eq_some_iff.1 hrest
  rw [(behind?_of_closes? hcloses).1 hclose] at hinner
  exact ⟨hroom, hinner⟩

theorem behind?_block {atBlock atSemicolon : Bool} {room : Nat} {stack : List Bracket}
    (hopens : opener.token.opens? = some .round) (hcloses : closer.token.closes? = some .round)
    (hroom : stack.length < room)
    (hgoes : behind? atBlock atSemicolon room (.round :: stack) written = some (.round :: stack)) :
    behind? atBlock atSemicolon room stack (opener :: (written ++ [closer])) = some stack := by
  refine behind?_cons_eq_some.2 ⟨.round :: stack, (behind?_of_opens? hopens).2
    ⟨rfl, hroom, fun hcurly => Bracket.noConfusion hcurly.1⟩, ?_⟩
  rw [behind?_append, hgoes, Option.bind_some]
  exact (behind?_of_closes? hcloses).2 rfl

variable (hopens : opener.token.opens? = some .round) (hcloses : closer.token.closes? = some .round)
  (hopens' : opener'.token.opens? = some .round)
  (hcloses' : closer'.token.closes? = some .round)

include hopens hcloses hopens' hcloses'

/-- What fits in place of what brackets hold fits inside brackets. -/
theorem block (h : FitsInFewer source written) :
    FitsInFewer (opener :: (source ++ [closer])) (opener' :: (written ++ [closer'])) := by
  intro hurls atBlock atSemicolon room stack stack' behind hlength hcurly hgoes
  obtain ⟨⟨hroom, -⟩, hinner⟩ := exists_of_block hopens hcloses hgoes
  have hsource : ∀ lexeme ∈ source, lexeme.token ≠ .url [] := fun lexeme hmem =>
    hurls lexeme (List.mem_cons_of_mem _ (List.mem_append_left _ hmem))
  obtain ⟨hsame, hwritten⟩ := h hsource _ _ _ (.round :: stack) (.round :: stack') _
    (Nat.succ_le_succ hlength) (by simpa using hcurly) hinner
  exact ⟨(List.cons.inj hsame).2,
    behind?_block hopens' hcloses' (Nat.lt_of_le_of_lt hlength hroom) hwritten⟩

/-- Balanced lexemes inside brackets may be replaced by others with the same marks. -/
theorem block_of_balanced (h : Balanced source) (hmarks : marks written = marks source) :
    FitsInFewer (opener :: (source ++ [closer])) (opener' :: (written ++ [closer'])) := by
  intro hurls atBlock atSemicolon room stack stack' behind hlength hcurly hgoes
  obtain ⟨⟨hroom, -⟩, hinner⟩ := exists_of_block hopens hcloses hgoes
  obtain ⟨hsame, hsource⟩ := h.behind?_of_lighter (.round :: stack') hinner
    (Nat.succ_le_succ hlength) (by simpa using hcurly) (fun hnil => by contradiction)
  rw [← behind?_congr hmarks] at hsource
  exact ⟨(List.cons.inj hsame).2,
    behind?_block hopens' hcloses' (Nat.lt_of_le_of_lt hlength hroom) hsource⟩

omit hopens' hcloses' in
/-- What fits in place of what brackets hold fits in place of the brackets too. -/
theorem unblock (h : FitsInFewer source written) :
    FitsInFewer (opener :: (source ++ [closer])) written := by
  intro hurls atBlock atSemicolon room stack stack' behind hlength hcurly hgoes
  obtain ⟨-, hinner⟩ := exists_of_block hopens hcloses hgoes
  have hsource : ∀ lexeme ∈ source, lexeme.token ≠ .url [] := fun lexeme hmem =>
    hurls lexeme (List.mem_cons_of_mem _ (List.mem_append_left _ hmem))
  obtain ⟨hsame, hwritten⟩ := h hsource _ _ _ (.round :: stack) stack' _
    (Nat.le_succ_of_le hlength) (by simpa using hcurly) hinner
  exact ⟨(List.cons.inj hsame).2, hwritten⟩

end FitsInFewer

end Css.Lexeme
