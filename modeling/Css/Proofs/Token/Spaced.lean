import Css.Proofs.Token.Respaced

/-!
# Spaces in place of comments

A text in which every comment is replaced by a space is read as the same lexemes, with whitespace
where trivia were (`Lexeme.exists_respaced_spaced`).
-/

namespace Css

/-- Behind a chain no unit starts. -/
theorem unit_drop_chainLength (unit : Text → Nat) (hnil : unit [] = 0) (text : Text) :
    unit (text.drop (chainLength unit text)) = 0 := by
  fun_induction chainLength unit text with
  | case1 => exact hnil
  | case2 c cs hzero => exact hzero
  | case3 c cs n hn ih =>
    rw [Nat.add_right_comm, List.drop_succ_cons, ← List.drop_drop]
    exact ih

namespace Lexeme

def spaced (lexeme : Lexeme) : Text := if lexeme.isComment then [' '] else lexeme.raw

variable {lineComments : Bool} {lexeme : Lexeme} {xs : List Lexeme} {x : Text}

theorem isComment_of_not_isTrivia (h : lexeme.isTrivia = false) : lexeme.isComment = false := by
  obtain ⟨token, span, raw⟩ := lexeme
  cases token <;> first | rfl | contradiction

/-- What starts with a blank is whitespace. -/
theorem IsRead.eq_whitespace_of_isBlank (h : IsRead lineComments lexeme x) {c : Char} {rest : Text}
    (hstarts : lexeme.raw ++ x = c :: rest) (hblank : Css.isBlank c = true) :
    lexeme.token = .whitespace := by
  obtain ⟨d, ds, hraw, htoken, -⟩ := h
  rw [hraw] at hstarts
  obtain rfl := (List.cons.inj hstarts).1
  rw [Token.scan_of_isBlank lineComments hblank] at htoken
  exact htoken.symm

theorem IsRead.isSpace (h : IsRead lineComments lexeme x) (htoken : lexeme.token = .whitespace) :
    lexeme.IsSpace := by
  have hspells := h.spells_of_sound (fun problem hreads => by
    rw [htoken] at hreads
    cases hreads) (by simp [htoken])
  refine ⟨htoken, h.raw_ne_nil, ?_⟩
  rw [htoken] at hspells
  generalize lexeme.raw = raw at hspells
  cases hspells with
  | single hchar => exact (Token.isPlain_of_ofChar? hchar).1.elim
  | whitespace _ hblanks => exact hblanks

/-- A string is cut short in front of a newline. -/
theorem IsRead.exists_newline (h : IsRead lineComments lexeme x)
    (htoken : lexeme.token = .badString) (hplain : '\\' ∉ x) :
    ∃ c rest, x = c :: rest ∧ isNewline c = true := by
  obtain ⟨c, cs, hraw, hscan, hlength⟩ := h
  rw [htoken] at hscan
  obtain ⟨quote, rfl, heq⟩ | heq := Token.scan_eq_of_isBad (by rw [hscan]; rfl)
  · have hend := unit_drop_chainLength (stringUnit quote) rfl (cs ++ x)
    rw [heq] at hscan hlength
    unfold Token.scanString at hscan hlength
    simp only at hscan hlength
    split at hscan
    · contradiction
    · rename_i d rest hdrop
      split at hscan
      · contradiction
      · rename_i hquote
        simp only [hdrop, if_neg hquote, hraw, List.length_cons] at hlength
        have hlength : chainLength (stringUnit quote) (cs ++ x) = cs.length := by omega
        rw [hlength, List.drop_left] at hdrop hend
        subst hdrop
        refine ⟨d, rest, rfl, ?_⟩
        have hd : d ≠ '\\' := fun h => hplain (by simp [h])
        rw [stringUnit_of_ne hd] at hend
        cases hnewline : isNewline d with
        | true => rfl
        | false => simp_all
  · rw [heq] at hscan
    exact absurd hscan (Token.scanIdentLike_ne_badString _)

theorem IsRead.isSpace_spaced (h : IsRead lineComments lexeme x)
    (htrivia : lexeme.isTrivia = true) :
    IsSpace ⟨.whitespace, .point 0, lexeme.spaced⟩ := by
  have hraw := h.isSpace
  obtain ⟨token, span, raw⟩ := lexeme
  cases token with
  | whitespace => exact ⟨rfl, (hraw rfl).raw_ne_nil, (hraw rfl).isBlank⟩
  | comment => exact ⟨rfl, List.cons_ne_nil _ _, List.forall_mem_singleton.2 rfl⟩
  | _ => contradiction

/-- Trivia in front become whitespace, together with those that follow them. -/
theorem Respaced.cons_trivia {ys : List Lexeme} (h : Respaced xs ys)
    (htrivia : lexeme.isTrivia = true)
    {blanks : Text} (hspace : IsSpace ⟨.whitespace, .point 0, blanks⟩)
    (hsingle : lexeme.raw.length = 1 → blanks.length = 1) :
    ∃ ys', Respaced (lexeme :: xs) ys' ∧ text ys' = blanks ++ text ys := by
  have hstart : (∀ first ∈ xs.head?, first.isTrivia = false) →
      ∃ ys', Respaced (lexeme :: xs) ys' ∧ text ys' = blanks ++ text ys := by
    intro hhead
    refine ⟨_, show Respaced ([lexeme] ++ xs) (⟨.whitespace, .point 0, blanks⟩ :: ys) from
      .gap (List.cons_ne_nil _ _) ?_ hhead hspace ?_ h, rfl⟩
    · rw [isVoid, List.all_cons, htrivia]
      rfl
    · rintro blank heq hlength
      obtain rfl := (List.cons.inj heq).1
      exact hsingle hlength
  cases h with
  | nil => exact hstart fun _ hfirst => by contradiction
  | token hsolid =>
    refine hstart fun first hfirst => ?_
    obtain rfl := Option.some.inj hfirst
    exact hsolid
  | quotedUrl _ htoken =>
    refine hstart fun first hfirst => ?_
    obtain rfl := Option.some.inj hfirst
    rw [Lexeme.isTrivia, htoken]
    rfl
  | @gap trivia xs ys space hne hvoid hhead hspace' _ h =>
    refine ⟨_, show Respaced (lexeme :: trivia ++ xs)
        (⟨.whitespace, .point 0, blanks ++ space.raw⟩ :: ys) from
      .gap (List.cons_ne_nil _ _) ?_ hhead ⟨rfl, ?_, ?_⟩ ?_ h, ?_⟩
    · rw [isVoid, List.all_cons, htrivia]
      exact hvoid
    · simp [hspace'.raw_ne_nil]
    · intro c hc
      exact (List.mem_append.1 hc).elim (hspace.isBlank c) (hspace'.isBlank c)
    · rintro blank heq
      exact absurd (List.cons.inj heq).2 hne
    · rw [text_cons, text_cons, List.append_assoc]

/-- What has spaces in place of comments has other trivia between the same lexemes. -/
theorem exists_respaced_spaced (hread : EachStands (IsRead lineComments) xs x)
    (hplain : '\\' ∉ text xs ++ x)
    (hbad : x = [] ∨ ∀ lexeme ∈ xs, lexeme.token.isBad = false) :
    ∃ ys, Respaced xs ys ∧ text ys = xs.flatMap spaced := by
  induction xs with
  | nil => exact ⟨[], .nil, rfl⟩
  | cons lexeme xs ih =>
    rw [text_cons, List.append_assoc] at hplain
    have hplain' : '\\' ∉ text xs ++ x := fun hmem => hplain (List.mem_append_right _ hmem)
    obtain ⟨ys, hys, htext⟩ := ih hread.2 hplain'
      (hbad.imp_right fun h lexeme hmem => h lexeme (List.mem_cons_of_mem _ hmem))
    cases htrivia : lexeme.isTrivia with
    | false =>
      refine ⟨lexeme :: ys, .token htrivia (fun htoken => ?_) hys, ?_⟩
      · obtain ⟨c, rest, hstarts, hc⟩ := hread.1.exists_newline htoken hplain'
        obtain rfl : x = [] := hbad.resolve_right fun h => by
          have := h lexeme List.mem_cons_self
          rw [htoken] at this
          contradiction
        rw [List.append_nil] at hstarts
        have hblank : Css.isBlank c = true := by simp [Css.isBlank, hc]
        cases xs with
        | nil => contradiction
        | cons first xs =>
          have hfront : first.raw ++ (text xs ++ []) = c :: rest := by
            rw [List.append_nil, ← text_cons, hstarts]
          have hfirst := hread.2.1.eq_whitespace_of_isBlank hfront hblank
          have hspaced : first.spaced = first.raw := by simp [spaced, isComment, hfirst]
          obtain ⟨d, ds, hraw, -⟩ := hread.2.1
          rw [text_cons, hraw] at hstarts
          obtain ⟨rfl, -⟩ := List.cons.inj hstarts
          refine ⟨d, ds ++ xs.flatMap spaced, ?_, hc⟩
          rw [htext, List.flatMap_cons, hspaced, hraw]
          rfl
      · rw [text_cons, htext, List.flatMap_cons, spaced,
          isComment_of_not_isTrivia htrivia]
        rfl
    | true =>
      obtain ⟨ys', hys', htext'⟩ := hys.cons_trivia htrivia (hread.1.isSpace_spaced htrivia)
        fun hlength => by
          unfold spaced
          split
          · rfl
          · exact hlength
      exact ⟨ys', hys', by rw [htext', htext, List.flatMap_cons]⟩

end Lexeme

def Text.spaced (lineComments : Bool) (text : Text) : Text :=
  ((Reading.all lineComments 0 text).map (·.lexeme)).flatMap Lexeme.spaced

namespace Lexeme

end Lexeme

end Css
