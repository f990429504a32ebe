import Css.Proofs.Token.Balanced

/-!
# What cutting gives

Cut at commas, a run loses nothing but these (`exists_joinWith_splitCommasFrom`). Cutting counts
brackets and does not look at their shape, which is enough where every bracket is closed by its own
shape: then each group is balanced and has its commas inside brackets
(`enclosesCommas_splitCommasFrom`), and each block ends in the shape that it starts with
(`exists_block`). `cutting_isExact` puts this together.
-/

namespace Css.Lexeme

/-! ### Groups -/

def Groups.joinWith (groups : Groups) (commas : List Lexeme) : List Lexeme :=
  groups.first ++ (List.zipWith List.cons commas groups.more).flatten

theorem Groups.joinWith_cons (lexeme : Lexeme) (groups : Groups) (commas : List Lexeme) :
    (groups.cons lexeme).joinWith commas = lexeme :: groups.joinWith commas := rfl

theorem Groups.joinWith_startGroup (groups : Groups) (comma : Lexeme) (commas : List Lexeme) :
    groups.startGroup.joinWith (comma :: commas) = comma :: groups.joinWith commas := rfl

/-- Cutting at commas loses nothing else. -/
theorem exists_joinWith_splitCommasFrom (depth : Nat) (lexemes : List Lexeme) :
    ∃ commas : List Lexeme, commas.length = (splitCommasFrom depth lexemes).more.length ∧
      (∀ comma ∈ commas, comma.token = .comma) ∧
      (splitCommasFrom depth lexemes).joinWith commas = lexemes := by
  induction lexemes generalizing depth with
  | nil => exact ⟨[], rfl, List.forall_mem_nil _, rfl⟩
  | cons lexeme lexemes ih =>
    have hcons : ∀ depth, ∃ commas : List Lexeme,
        commas.length = ((splitCommasFrom depth lexemes).cons lexeme).more.length ∧
          (∀ comma ∈ commas, comma.token = .comma) ∧
          ((splitCommasFrom depth lexemes).cons lexeme).joinWith commas = lexeme :: lexemes := by
      intro depth
      obtain ⟨commas, hlength, hcommas, hjoin⟩ := ih depth
      refine ⟨commas, hlength, hcommas, ?_⟩
      rw [Groups.joinWith_cons, hjoin]
    unfold splitCommasFrom
    split
    · exact hcons _
    split
    · exact hcons _
    split
    · rename_i hcomma
      obtain ⟨commas, hlength, hcommas, hjoin⟩ := ih depth
      refine ⟨lexeme :: commas, congrArg Nat.succ hlength,
        List.forall_mem_cons.2 ⟨hcomma.1, hcommas⟩, ?_⟩
      rw [Groups.joinWith_startGroup, hjoin]
    · exact hcons _

/-- Whether every comma of some lexemes stands inside brackets, those included that are open in
front, `depth` of them: at least one is open where it stands. -/
def EnclosesCommas (depth : Nat) (lexemes : List Lexeme) : Prop :=
  ∀ front comma back, lexemes = front ++ comma :: back → comma.token = .comma →
    ∃ inside, depthAfter? depth front = some (inside + 1)

namespace EnclosesCommas

theorem nil (depth : Nat) : EnclosesCommas depth [] := by
  intro front comma back heq
  exact absurd heq.symm (List.append_ne_nil_of_right_ne_nil front (List.cons_ne_nil comma back))

theorem cons {depth behind : Nat} {lexeme : Lexeme} {lexemes : List Lexeme}
    (hstep : ∀ front, depthAfter? depth (lexeme :: front) = depthAfter? behind front)
    (hcomma : lexeme.token = .comma → depth ≠ 0) (h : EnclosesCommas behind lexemes) :
    EnclosesCommas depth (lexeme :: lexemes) := by
  intro front comma back heq htoken
  cases front with
  | nil =>
    obtain ⟨rfl, -⟩ := List.cons.inj heq
    obtain ⟨inside, hinside⟩ := Nat.exists_eq_succ_of_ne_zero (hcomma htoken)
    exact ⟨inside, congrArg some hinside⟩
  | cons first front =>
    obtain ⟨rfl, hrest⟩ := List.cons.inj heq
    rw [hstep]
    exact h front comma back hrest htoken

end EnclosesCommas

/-- A comma outside every bracket ends a group, so none is left in a group. -/
theorem enclosesCommas_splitCommasFrom {depth : Nat} {lexemes : List Lexeme}
    (h : depthAfter? depth lexemes ≠ none) :
    EnclosesCommas depth (splitCommasFrom depth lexemes).first ∧
      ∀ group ∈ (splitCommasFrom depth lexemes).more, EnclosesCommas 0 group := by
  induction lexemes generalizing depth with
  | nil => exact ⟨.nil depth, List.forall_mem_nil _⟩
  | cons lexeme lexemes ih =>
    cases hopens : lexeme.token.opens? with
    | some bracket =>
      have hstep := depthAfter?_of_opens? (Option.isSome_of_eq_some hopens) depth
      rw [hstep] at h
      obtain ⟨hfirst, hmore⟩ := ih h
      rw [splitCommasFrom_of_opens? hopens]
      refine ⟨hfirst.cons hstep fun hcomma => ?_, hmore⟩
      rw [hcomma] at hopens
      contradiction
    | none =>
      cases hcloses : lexeme.token.closes? with
      | some bracket =>
        cases depth with
        | zero => simp [depthAfter?, hopens, hcloses] at h
        | succ depth =>
          have hstep := depthAfter?_of_closes? hcloses depth
          rw [hstep] at h
          obtain ⟨hfirst, hmore⟩ := ih h
          rw [splitCommasFrom_of_closes? hcloses]
          exact ⟨hfirst.cons hstep fun _ => Nat.succ_ne_zero depth, hmore⟩
      | none =>
        have hstep := depthAfter?_of_plain hopens hcloses depth
        rw [hstep] at h
        obtain ⟨hfirst, hmore⟩ := ih h
        by_cases hends : lexeme.token = .comma ∧ depth = 0
        · obtain ⟨hcomma, rfl⟩ := hends
          rw [splitCommasFrom_comma hcomma]
          exact ⟨.nil 0, List.forall_mem_cons.2 ⟨hfirst, hmore⟩⟩
        · have hcomma : lexeme.token = .comma → depth ≠ 0 :=
            fun htoken hzero => hends ⟨htoken, hzero⟩
          rw [splitCommasFrom_of_plain hopens hcloses hcomma]
          exact ⟨hfirst.cons hstep hcomma, hmore⟩

/-! ### Blocks -/

def blockEnd? (lexemes : List Lexeme) (start : Nat) : Option Nat :=
  (cutBlock? (lexemes.drop start)).map fun block => start + block.inner.length

/-- Some brackets that are open behind a part of some lexemes are closed in what is left. -/
theorem exists_closesAll_of_append {stack : List Bracket} {left right : List Lexeme}
    (h : closesAll stack (left ++ right) = true) :
    ∃ behind, closesAll behind right = true := by
  induction left generalizing stack with
  | nil => exact ⟨stack, h⟩
  | cons lexeme left ih =>
    rw [List.cons_append, closesAll] at h
    split at h
    · exact ih h
    · split at h
      · exact ih (Bool.and_eq_true_iff.1 h).2
      · contradiction
    · exact ih h

/-- What follows an opening bracket goes up to the bracket that closes it. -/
theorem exists_block {lexemes : List Lexeme} (h : isBalanced lexemes = true) {place : Nat}
    {opener : Lexeme} {bracket : Bracket} (hplace : lexemes[place]? = some opener)
    (hopens : opener.token.opens? = some bracket) :
    ∃ inner closer rest, lexemes.drop (place + 1) = inner ++ closer :: rest ∧ Balanced inner ∧
      closer.token.closes? = some bracket := by
  obtain ⟨hlt, hopener⟩ := List.getElem?_eq_some_iff.1 hplace
  have hsplit : lexemes.take place ++ opener :: lexemes.drop (place + 1) = lexemes := by
    rw [← hopener, List.getElem_cons_drop hlt, List.take_append_drop]
  rw [isBalanced, ← hsplit] at h
  obtain ⟨stack, hstack⟩ := exists_closesAll_of_append h
  rw [closesAll, hopens] at hstack
  obtain ⟨inner, closer, rest, heq, hinner, hcloser, -⟩ := exists_closer hstack
  exact ⟨inner, closer, rest, heq, hinner, hcloser⟩

theorem blockEnd?_eq_some {lexemes inner rest : List Lexeme} {closer : Lexeme} {bracket : Bracket}
    {start : Nat} (h : lexemes.drop start = inner ++ closer :: rest) (hinner : Balanced inner)
    (hcloser : closer.token.closes? = some bracket) :
    blockEnd? lexemes start = some (start + inner.length) := by
  rw [blockEnd?, h, cutBlock?_append_of_isClosed hinner.isClosed hcloser]
  rfl

/-! ### Both -/

/-- The groups between commas with the commas between them are the whole run. Where the brackets of
a run are balanced, those of each group are, and its commas stand inside them; and behind every
opening bracket the block ends at a bracket of the same shape, with balanced brackets in between. -/
theorem cutting_isExact (lexemes : List Lexeme) :
    (∃ commas : List Lexeme, commas.length = (splitCommas lexemes).more.length ∧
      (∀ comma ∈ commas, comma.token = .comma) ∧
      (splitCommas lexemes).joinWith commas = lexemes) ∧
    (isBalanced lexemes = true →
      (∀ group ∈ (splitCommas lexemes).toList,
        isBalanced group = true ∧ EnclosesCommas 0 group) ∧
      ∀ (place : Nat) (opener : Lexeme) (bracket : Bracket), lexemes[place]? = some opener →
        opener.token.opens? = some bracket →
        ∃ stop closer, place < stop ∧ blockEnd? lexemes (place + 1) = some stop ∧
          lexemes[stop]? = some closer ∧ closer.token.closes? = some bracket ∧
          isBalanced ((lexemes.drop (place + 1)).take (stop - (place + 1))) = true) := by
  refine ⟨exists_joinWith_splitCommasFrom 0 lexemes, fun h => ⟨?_, ?_⟩⟩
  · intro group hmem
    have hbalanced := balanced_of_isBalanced h
    have hclosed : depthAfter? 0 lexemes = some 0 := hbalanced.isClosed
    obtain ⟨hfirst, hmore⟩ := enclosesCommas_splitCommasFrom (by rw [hclosed]; simp)
    exact ⟨(hbalanced.of_mem_splitCommas group hmem).isBalanced,
      List.forall_mem_cons.2 ⟨hfirst, hmore⟩ group hmem⟩
  · intro place opener bracket hplace hopens
    obtain ⟨inner, closer, rest, hdrop, hinner, hcloser⟩ := exists_block h hplace hopens
    have hend : lexemes[place + 1 + inner.length]? = some closer := by
      rw [← List.getElem?_drop, hdrop, List.getElem?_append_right (Nat.le_refl _), Nat.sub_self]
      rfl
    refine ⟨place + 1 + inner.length, closer, by omega, blockEnd?_eq_some hdrop hinner hcloser,
      hend, hcloser, ?_⟩
    rw [hdrop, Nat.add_sub_cancel_left, List.take_left]
    exact hinner.isBalanced

/-- A function with a comma and square brackets in its block, in the first of two groups. -/
theorem cutting_isExact_nested :
    isBalanced (ofText "f(a,[b]),c".toList) = true ∧
    (splitCommas (ofText "f(a,[b]),c".toList)).toList.map List.length = [7, 1] ∧
    (∀ group ∈ (splitCommas (ofText "f(a,[b]),c".toList)).toList,
      isBalanced group = true ∧ EnclosesCommas 0 group) ∧
    ∃ closer, (ofText "f(a,[b]),c".toList)[6]? = some closer ∧
      closer.token.closes? = some .round := by
  have hbalanced : isBalanced (ofText "f(a,[b]),c".toList) = true := by decide +kernel
  obtain ⟨hgroups, hblocks⟩ := (cutting_isExact (ofText "f(a,[b]),c".toList)).2 hbalanced
  obtain ⟨stop, closer, -, hend, hstop, hcloser, -⟩ :=
    hblocks 0 ⟨.function ['f'], ⟨0, 2⟩, ['f', '(']⟩ .round (by decide +kernel) rfl
  have hsix : blockEnd? (ofText "f(a,[b]),c".toList) 1 = some 6 := by decide +kernel
  obtain rfl := Option.some.inj (hend.symm.trans hsix)
  exact ⟨hbalanced, by decide +kernel, hgroups, closer, hstop, hcloser⟩

end Css.Lexeme
