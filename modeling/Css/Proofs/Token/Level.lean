import Css.Proofs.Token.Run

/-!
# Closed runs

Cutting counts brackets without a look at their shape. Lexemes whose brackets are all closed in this
way (`IsClosed`) are passed as a whole: a block that starts in front of them goes on behind them
(`cutBlock?_append_of_isClosed`), and no comma inside brackets ends a group
(`PassesCommas.brackets`).
-/

namespace Css

namespace Lexeme

theorem opens?_of_closes? {lexeme : Lexeme} {bracket : Bracket}
    (h : lexeme.token.closes? = some bracket) : lexeme.token.opens? = none := by
  obtain ⟨token, span, raw⟩ := lexeme
  cases token <;> first | rfl | contradiction

/-- The brackets open behind lexemes that have `depth` brackets open in front, unless one closes
that is not open. -/
def depthAfter? : (depth : Nat) → List Lexeme → Option Nat
  | depth, [] => some depth
  | depth, lexeme :: lexemes =>
    if lexeme.token.opens?.isSome then depthAfter? (depth + 1) lexemes
    else if lexeme.token.closes?.isSome then
      match depth with
      | 0 => none
      | depth + 1 => depthAfter? depth lexemes
    else depthAfter? depth lexemes

def IsClosed (lexemes : List Lexeme) : Prop := depthAfter? 0 lexemes = some 0

theorem depthAfter?_of_opens? {lexeme : Lexeme} (h : lexeme.token.opens?.isSome = true)
    (depth : Nat) (lexemes : List Lexeme) :
    depthAfter? depth (lexeme :: lexemes) = depthAfter? (depth + 1) lexemes := by
  cases depth <;> simp only [depthAfter?, h, if_true]

theorem depthAfter?_of_closes? {lexeme : Lexeme} {bracket : Bracket}
    (h : lexeme.token.closes? = some bracket) (depth : Nat) (lexemes : List Lexeme) :
    depthAfter? (depth + 1) (lexeme :: lexemes) = depthAfter? depth lexemes := by
  simp [depthAfter?, opens?_of_closes? h, h]

theorem depthAfter?_of_plain {lexeme : Lexeme} (hopens : lexeme.token.opens? = none)
    (hcloses : lexeme.token.closes? = none) (depth : Nat) (lexemes : List Lexeme) :
    depthAfter? depth (lexeme :: lexemes) = depthAfter? depth lexemes := by
  cases depth <;> simp [depthAfter?, hopens, hcloses]

theorem depthAfter?_append (depth : Nat) (left right : List Lexeme) :
    depthAfter? depth (left ++ right) = (depthAfter? depth left).bind (depthAfter? · right) := by
  induction left generalizing depth with
  | nil => rfl
  | cons lexeme left ih =>
    simp only [List.cons_append, depthAfter?]
    split
    · exact ih _
    split
    · cases depth with
      | zero => rfl
      | succ depth => exact ih _
    · exact ih _

theorem depthAfter?_add {depth behind : Nat} {lexemes : List Lexeme}
    (h : depthAfter? depth lexemes = some behind) (more : Nat) :
    depthAfter? (depth + more) lexemes = some (behind + more) := by
  induction lexemes generalizing depth with
  | nil =>
    obtain rfl := Option.some.inj h
    rfl
  | cons lexeme lexemes ih =>
    simp only [depthAfter?] at h ⊢
    split at h
    · rename_i hopens
      rw [if_pos hopens, Nat.add_right_comm]
      exact ih h
    rename_i hopens
    rw [if_neg hopens]
    split at h
    · rename_i hcloses
      rw [if_pos hcloses]
      cases depth with
      | zero => contradiction
      | succ depth =>
        rw [Nat.add_right_comm]
        exact ih h
    · rename_i hcloses
      rw [if_neg hcloses]
      exact ih h

theorem IsClosed.append {left right : List Lexeme} (hleft : IsClosed left)
    (hright : IsClosed right) : IsClosed (left ++ right) := by
  rw [IsClosed, depthAfter?_append, hleft]
  exact hright

theorem IsClosed.plain {lexeme : Lexeme} {lexemes : List Lexeme}
    (hopens : lexeme.token.opens? = none) (hcloses : lexeme.token.closes? = none)
    (h : IsClosed lexemes) : IsClosed (lexeme :: lexemes) := by
  rw [IsClosed, depthAfter?_of_plain hopens hcloses]
  exact h

theorem IsClosed.brackets {opener closer : Lexeme} {bracket bracket' : Bracket}
    {inner rest : List Lexeme} (hopener : opener.token.opens? = some bracket)
    (hcloser : closer.token.closes? = some bracket') (hinner : IsClosed inner)
    (h : IsClosed rest) : IsClosed (opener :: (inner ++ closer :: rest)) := by
  have hinside : depthAfter? 1 inner = some 1 := depthAfter?_add hinner 1
  rw [IsClosed, depthAfter?_of_opens? (by rw [hopener]; rfl), depthAfter?_append, hinside,
    Option.bind_some, depthAfter?_of_closes? hcloser]
  exact h

/-- What is left open where an opening bracket comes last. -/
theorem not_isClosed_of_getLast? {lexemes : List Lexeme} {last : Lexeme}
    (hlast : lexemes.getLast? = some last) (hopens : last.token.opens?.isSome = true) :
    ¬ IsClosed lexemes := by
  obtain ⟨front, rfl⟩ := List.getLast?_eq_some_iff.1 hlast
  rw [IsClosed, depthAfter?_append]
  cases depthAfter? 0 front with
  | none => simp
  | some depth => simp [depthAfter?, hopens]

/-- Lexemes without brackets leave as many open as there were. -/
theorem depthAfter?_of_forall_plain {lexemes : List Lexeme}
    (h : ∀ lexeme ∈ lexemes, lexeme.token.opens? = none ∧ lexeme.token.closes? = none)
    (depth : Nat) : depthAfter? depth lexemes = some depth := by
  induction lexemes with
  | nil => rfl
  | cons lexeme lexemes ih =>
    obtain ⟨⟨hopens, hcloses⟩, hrest⟩ := List.forall_mem_cons.1 h
    rw [depthAfter?_of_plain hopens hcloses, ih hrest]

theorem plain_of_isVoid {lexemes : List Lexeme} (h : isVoid lexemes = true) :
    ∀ lexeme ∈ lexemes, lexeme.token.opens? = none ∧ lexeme.token.closes? = none := by
  intro lexeme hmem
  have htrivia := List.all_eq_true.1 h lexeme hmem
  exact ⟨Token.opens?_of_isTrivia htrivia, Token.closes?_of_isTrivia htrivia⟩

/-- Lexemes without brackets at both ends do not matter. -/
theorem isClosed_append_iff {before lexemes after : List Lexeme}
    (hbefore : ∀ lexeme ∈ before, lexeme.token.opens? = none ∧ lexeme.token.closes? = none)
    (hafter : ∀ lexeme ∈ after, lexeme.token.opens? = none ∧ lexeme.token.closes? = none) :
    IsClosed (before ++ (lexemes ++ after)) ↔ IsClosed lexemes := by
  rw [IsClosed, depthAfter?_append, depthAfter?_of_forall_plain hbefore, Option.bind_some,
    depthAfter?_append, IsClosed]
  cases depthAfter? 0 lexemes with
  | none => rfl
  | some depth => rw [Option.bind_some, depthAfter?_of_forall_plain hafter]

theorem isClosed_of_next? {lexemes rest : List Lexeme} {token : Token}
    (h : next? lexemes = some (token, rest)) (hopens : token.opens? = none)
    (hcloses : token.closes? = none) (hclosed : IsClosed lexemes) : IsClosed rest := by
  obtain ⟨front, lexeme, rfl, rfl, -, hfront⟩ := exists_of_next? h
  have hplain := plain_of_isVoid (List.all_eq_true.2 hfront)
  rw [← List.append_nil rest, ← List.cons_append, ← List.singleton_append, List.append_assoc,
    ← List.append_assoc] at hclosed
  exact (@isClosed_append_iff (front ++ [lexeme]) _ _ (by
    intro member hmem
    obtain hmem | hmem := List.mem_append.1 hmem
    · exact hplain member hmem
    · obtain rfl := List.mem_singleton.1 hmem
      exact ⟨hopens, hcloses⟩) (List.forall_mem_nil _)).1 hclosed

theorem isClosed_trim {lexemes : List Lexeme} (h : IsClosed lexemes) : IsClosed (trim lexemes) := by
  obtain ⟨before, after, heq, hbefore, hafter⟩ := exists_trim lexemes
  rw [heq] at h
  exact (isClosed_append_iff (plain_of_isVoid hbefore) (plain_of_isVoid hafter)).1 h

/-! ### Blocks -/

def Block.prepend (front : List Lexeme) (block : Block) : Block :=
  { block with inner := front ++ block.inner }

theorem cutBlockFrom?_append_of_depthAfter? {depth behind : Nat} {front : List Lexeme}
    (h : depthAfter? depth front = some behind) (rest : List Lexeme) :
    cutBlockFrom? depth (front ++ rest) =
      (cutBlockFrom? behind rest).map (Block.prepend front) := by
  induction front generalizing depth with
  | nil =>
    obtain rfl := Option.some.inj h
    rw [List.nil_append]
    cases cutBlockFrom? depth rest <;> rfl
  | cons lexeme front ih =>
    have hcons : ∀ {depth}, depthAfter? depth front = some behind →
        (cutBlockFrom? depth (front ++ rest)).map (Block.cons lexeme) =
          (cutBlockFrom? behind rest).map (Block.prepend (lexeme :: front)) := by
      intro depth h
      rw [ih h, Option.map_map]
      rfl
    simp only [depthAfter?] at h
    simp only [List.cons_append, cutBlockFrom?]
    split at h
    · rename_i hopens
      rw [if_pos hopens]
      exact hcons h
    rename_i hopens
    rw [if_neg hopens]
    split at h
    · rename_i hcloses
      rw [if_pos hcloses]
      cases depth with
      | zero => contradiction
      | succ depth => exact hcons h
    · rename_i hcloses
      rw [if_neg hcloses]
      exact hcons h

/-- A block is what stands before the bracket that closes it. -/
theorem cutBlock?_append_of_isClosed {inner : List Lexeme} (h : IsClosed inner) {closer : Lexeme}
    {bracket : Bracket} (hcloser : closer.token.closes? = some bracket) (rest : List Lexeme) :
    cutBlock? (inner ++ closer :: rest) = some ⟨inner, closer, rest⟩ := by
  rw [cutBlock?, cutBlockFrom?_append_of_depthAfter? h]
  simp [cutBlockFrom?, opens?_of_closes? hcloser, hcloser, Block.prepend]

theorem depthAfter?_of_cutBlockFrom? {depth : Nat} {lexemes : List Lexeme} {block : Block}
    (h : cutBlockFrom? depth lexemes = some block) : depthAfter? depth block.inner = some 0 := by
  induction lexemes generalizing depth block with
  | nil => contradiction
  | cons lexeme lexemes ih =>
    simp only [cutBlockFrom?] at h
    split at h
    · rename_i hopens
      obtain ⟨found, hfound, rfl⟩ := Option.map_eq_some_iff.1 h
      rw [Block.cons, depthAfter?_of_opens? hopens]
      exact ih hfound
    rename_i hopens
    split at h
    · rename_i hcloses
      obtain ⟨bracket, hbracket⟩ := Option.isSome_iff_exists.1 hcloses
      split at h
      · obtain rfl := Option.some.inj h
        rfl
      · obtain ⟨found, hfound, rfl⟩ := Option.map_eq_some_iff.1 h
        rw [Block.cons, depthAfter?_of_closes? hbracket]
        exact ih hfound
    · rename_i hcloses
      obtain ⟨found, hfound, rfl⟩ := Option.map_eq_some_iff.1 h
      rw [Block.cons, depthAfter?_of_plain (Option.not_isSome_iff_eq_none.1 hopens)
        (Option.not_isSome_iff_eq_none.1 hcloses)]
      exact ih hfound

theorem isClosed_of_cutBlock? {lexemes : List Lexeme} {block : Block}
    (h : cutBlock? lexemes = some block) : IsClosed block.inner :=
  depthAfter?_of_cutBlockFrom? h

theorem closes?_of_cutBlockFrom? {depth : Nat} {lexemes : List Lexeme} {block : Block}
    (h : cutBlockFrom? depth lexemes = some block) : block.closer.token.closes? ≠ none := by
  induction lexemes generalizing depth block with
  | nil => contradiction
  | cons lexeme lexemes ih =>
    have hcons : ∀ {depth}, (cutBlockFrom? depth lexemes).map (Block.cons lexeme) = some block →
        block.closer.token.closes? ≠ none := by
      intro depth h
      obtain ⟨found, hfound, rfl⟩ := Option.map_eq_some_iff.1 h
      exact @ih _ found hfound
    simp only [cutBlockFrom?] at h
    split at h
    · exact hcons h
    split at h
    · rename_i hcloses
      split at h
      · obtain rfl := Option.some.inj h
        exact Option.isSome_iff_ne_none.1 hcloses
      · exact hcons h
    · exact hcons h

/-- A block is closed by a closing bracket. -/
theorem closes?_of_cutBlock? {lexemes : List Lexeme} {block : Block}
    (h : cutBlock? lexemes = some block) : block.closer.token.closes? ≠ none :=
  closes?_of_cutBlockFrom? h

/-! ### Commas -/

theorem infix_of_cutBlock? {lexemes : List Lexeme} {block : Block}
    (h : cutBlock? lexemes = some block) :
    block.inner <:+: lexemes ∧ block.rest <:+: lexemes := by
  have hlexemes := cutBlock?_eq_some h
  exact ⟨⟨[], block.closer :: block.rest, hlexemes.symm⟩,
    block.inner ++ [block.closer], [], by rw [hlexemes]; simp⟩

theorem infix_splitCommasFrom (depth : Nat) (lexemes : List Lexeme) :
    (splitCommasFrom depth lexemes).first <+: lexemes ∧
      ∀ group ∈ (splitCommasFrom depth lexemes).more, group <:+: lexemes := by
  induction lexemes generalizing depth with
  | nil => exact ⟨List.prefix_rfl, List.forall_mem_nil _⟩
  | cons lexeme lexemes ih =>
    have hcons : ∀ depth, ((splitCommasFrom depth lexemes).cons lexeme).first <+:
        lexeme :: lexemes ∧ ∀ group ∈ ((splitCommasFrom depth lexemes).cons lexeme).more,
          group <:+: lexeme :: lexemes := fun depth =>
      ⟨(List.prefix_cons_inj lexeme).2 (ih depth).1,
        fun group hmem => List.infix_cons ((ih depth).2 group hmem)⟩
    simp only [splitCommasFrom]
    split
    · exact hcons _
    split
    · exact hcons _
    split
    · refine ⟨List.nil_prefix, fun group hmem => List.infix_cons ?_⟩
      obtain rfl | hmem := List.mem_cons.1 hmem
      · exact (ih depth).1.isInfix
      · exact (ih depth).2 group hmem
    · exact hcons _

/-- A group between commas is a part of the lexemes. -/
theorem infix_of_mem_splitCommas {lexemes group : List Lexeme}
    (h : group ∈ (splitCommas lexemes).toList) : group <:+: lexemes := by
  obtain ⟨hfirst, hmore⟩ := infix_splitCommasFrom 0 lexemes
  obtain rfl | hmem := List.mem_cons.1 h
  · exact hfirst.isInfix
  · exact hmore group hmem

/-- Some lexemes are one group; or a comma stands behind the first one, and the others are those
between the commas behind it. -/
theorem splitCommasFrom_cases (depth : Nat) (lexemes : List Lexeme) :
    (splitCommasFrom depth lexemes).toList = [lexemes] ∨
      ∃ group comma rest, lexemes = group ++ comma :: rest ∧ comma.token = .comma ∧
        (splitCommasFrom depth lexemes).toList = group :: (splitCommas rest).toList := by
  induction lexemes generalizing depth with
  | nil => exact .inl rfl
  | cons lexeme lexemes ih =>
    have hcons : ∀ depth, ((splitCommasFrom depth lexemes).cons lexeme).toList =
        [lexeme :: lexemes] ∨ ∃ group comma rest, lexeme :: lexemes = group ++ comma :: rest ∧
          comma.token = .comma ∧ ((splitCommasFrom depth lexemes).cons lexeme).toList =
            group :: (splitCommas rest).toList := by
      intro depth
      obtain hone | ⟨group, comma, rest, rfl, hcomma, hmore⟩ := ih depth
      · obtain ⟨hfirst, hmore⟩ := List.cons.inj hone
        exact .inl (by rw [Groups.toList, Groups.cons, hfirst, hmore])
      · obtain ⟨hfirst, hmore⟩ := List.cons.inj hmore
        exact .inr ⟨lexeme :: group, comma, rest, rfl, hcomma, by
          rw [Groups.toList, Groups.cons, hfirst, hmore]⟩
    simp only [splitCommasFrom]
    split
    · exact hcons _
    split
    · exact hcons _
    split
    · rename_i hcomma
      exact .inr ⟨[], lexeme, lexemes, rfl, hcomma.1, by rw [hcomma.2]; rfl⟩
    · exact hcons _

def Groups.prepend (front : List Lexeme) (groups : Groups) : Groups :=
  { groups with first := front ++ groups.first }

theorem Groups.prepend_cons (front : List Lexeme) (lexeme : Lexeme) (groups : Groups) :
    (groups.prepend front).cons lexeme = groups.prepend (lexeme :: front) := rfl

theorem splitCommasFrom_of_opens? {lexeme : Lexeme} {bracket : Bracket}
    (h : lexeme.token.opens? = some bracket) (depth : Nat) (lexemes : List Lexeme) :
    splitCommasFrom depth (lexeme :: lexemes) =
      (splitCommasFrom (depth + 1) lexemes).cons lexeme := by
  simp [splitCommasFrom, h]

theorem splitCommasFrom_of_closes? {lexeme : Lexeme} {bracket : Bracket}
    (h : lexeme.token.closes? = some bracket) (depth : Nat) (lexemes : List Lexeme) :
    splitCommasFrom depth (lexeme :: lexemes) =
      (splitCommasFrom (depth - 1) lexemes).cons lexeme := by
  simp [splitCommasFrom, opens?_of_closes? h, h]

theorem splitCommasFrom_of_plain {lexeme : Lexeme} (hopens : lexeme.token.opens? = none)
    (hcloses : lexeme.token.closes? = none) {depth : Nat}
    (hcomma : lexeme.token = .comma → depth ≠ 0) (lexemes : List Lexeme) :
    splitCommasFrom depth (lexeme :: lexemes) = (splitCommasFrom depth lexemes).cons lexeme := by
  have : ¬ (lexeme.token = .comma ∧ depth = 0) := fun h => hcomma h.1 h.2
  simp [splitCommasFrom, hopens, hcloses, this]

/-- A comma outside every bracket starts a group. -/
theorem splitCommasFrom_comma {comma : Lexeme} (h : comma.token = .comma) (lexemes : List Lexeme) :
    splitCommasFrom 0 (comma :: lexemes) = (splitCommasFrom 0 lexemes).startGroup := by
  simp [splitCommasFrom, h, Token.opens?, Token.closes?]

def PassesCommas (lexemes : List Lexeme) : Prop :=
  ∀ rest, splitCommas (lexemes ++ rest) = (splitCommas rest).prepend lexemes

/-- Inside brackets no comma ends a group. -/
theorem splitCommasFrom_append_of_depthAfter? {depth behind : Nat} {front : List Lexeme}
    (h : depthAfter? depth front = some behind) (rest : List Lexeme) :
    splitCommasFrom (depth + 1) (front ++ rest) =
      (splitCommasFrom (behind + 1) rest).prepend front := by
  induction front generalizing depth with
  | nil =>
    obtain rfl := Option.some.inj h
    rfl
  | cons lexeme front ih =>
    cases hopens : lexeme.token.opens? with
    | some bracket =>
      rw [depthAfter?_of_opens? (by rw [hopens]; rfl)] at h
      rw [List.cons_append, splitCommasFrom_of_opens? hopens, ih h, Groups.prepend_cons]
    | none =>
      cases hcloses : lexeme.token.closes? with
      | some bracket =>
        cases depth with
        | zero => simp [depthAfter?, hopens, hcloses] at h
        | succ depth =>
          rw [depthAfter?_of_closes? hcloses] at h
          rw [List.cons_append, splitCommasFrom_of_closes? hcloses, Nat.add_sub_cancel, ih h,
            Groups.prepend_cons]
      | none =>
        rw [depthAfter?_of_plain hopens hcloses] at h
        rw [List.cons_append,
          splitCommasFrom_of_plain hopens hcloses (fun _ => Nat.succ_ne_zero depth), ih h,
          Groups.prepend_cons]

namespace PassesCommas

variable {lexemes left right : List Lexeme}

theorem nil : PassesCommas [] := fun _ => rfl

theorem append (hleft : PassesCommas left) (hright : PassesCommas right) :
    PassesCommas (left ++ right) := by
  intro rest
  rw [List.append_assoc, hleft, hright]
  simp [Groups.prepend]

theorem plain {lexeme : Lexeme} (hopens : lexeme.token.opens? = none)
    (hcloses : lexeme.token.closes? = none) (hcomma : lexeme.token ≠ .comma)
    (h : PassesCommas lexemes) : PassesCommas (lexeme :: lexemes) := by
  intro rest
  rw [List.cons_append, splitCommas,
    splitCommasFrom_of_plain hopens hcloses (fun htoken => absurd htoken hcomma),
    ← splitCommas, h, Groups.prepend_cons]

theorem brackets {opener closer : Lexeme} {bracket bracket' : Bracket} {inner : List Lexeme}
    (hopener : opener.token.opens? = some bracket)
    (hcloser : closer.token.closes? = some bracket') (hinner : IsClosed inner)
    (h : PassesCommas lexemes) : PassesCommas (opener :: (inner ++ closer :: lexemes)) := by
  intro rest
  have hinside := splitCommasFrom_append_of_depthAfter? hinner (closer :: (lexemes ++ rest))
  rw [List.cons_append, List.append_assoc, List.cons_append, splitCommas,
    splitCommasFrom_of_opens? hopener, hinside, splitCommasFrom_of_closes? hcloser,
    Nat.add_sub_cancel, ← splitCommas, h]
  simp [Groups.prepend, Groups.cons]

theorem splitCommas_eq (h : PassesCommas lexemes) : splitCommas lexemes = ⟨lexemes, []⟩ := by
  have hall := h []
  simpa [splitCommas, splitCommasFrom, Groups.prepend] using hall

/-- A comma behind such lexemes ends the first group. -/
theorem splitCommas_comma (h : PassesCommas lexemes) {comma : Lexeme}
    (hcomma : comma.token = .comma) (rest : List Lexeme) :
    (splitCommas (lexemes ++ comma :: rest)).toList = lexemes :: (splitCommas rest).toList := by
  have hstart : splitCommas (comma :: rest) = (splitCommas rest).startGroup :=
    splitCommasFrom_comma hcomma rest
  rw [h, hstart]
  simp [Groups.prepend, Groups.startGroup, Groups.toList]

end PassesCommas

end Lexeme

namespace TokenRun

open Lexeme

/-- A run of closed lexemes is closed. -/
theorem isClosed_ofLexemes {lexemes : List Lexeme} (h : IsClosed lexemes) :
    IsClosed (ofLexemes lexemes).toLexemes := by
  have htokens : ∀ depth, depthAfter? depth (toLexemes (tokens lexemes)) =
      depthAfter? depth lexemes := by
    clear h
    induction lexemes with
    | nil => exact fun _ => rfl
    | cons lexeme lexemes ih =>
      intro depth
      simp only [tokens, List.map_cons, toLexemes_cons, depthAfter?] at ih ⊢
      simp only [ih]
  have hrun := ofLexemes_congr (f := fun depth run => depthAfter? depth run.toLexemes)
    (fun hopens hcloses depth run => by
      rw [toLexemes_cons]
      exact depthAfter?_of_plain hopens hcloses ..)
    (fun token run run' h depth => by simp only [toLexemes_cons, depthAfter?, h]) lexemes 0
  exact hrun.trans ((htokens 0).trans h)

end TokenRun

end Css
