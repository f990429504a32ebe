import Css.Proofs.Token.Run
import Mathlib.Data.List.Basic

/-!
# Recast lexemes

What a run of lexemes means depends neither on where its lexemes stand nor on how much trivia there
are between two of them. A `Recast` keeps the tokens that are no trivia; where trivia stand side by
side it may keep only the first. It commutes with every way of cutting a run.
-/

namespace Css

namespace Token

variable {token : Token}

theorem isBad_of_isTrivia (h : token.isTrivia = true) : token.isBad = false := by
  cases token <;> first | rfl | contradiction

theorem isKept_of_isTrivia (h : token.isTrivia = true) : TokenRun.isKept token = true := by
  cases token <;> first | rfl | contradiction

end Token

namespace Lexeme

/-- A way to write lexemes anew that keeps every token but trivia. -/
structure Recast where
  move : Lexeme → Lexeme
  /-- Whether only the first of the trivia that stand side by side is kept. -/
  merges : Bool
  isTrivia_move : ∀ lexeme, (move lexeme).isTrivia = lexeme.isTrivia
  token_move : ∀ lexeme, lexeme.isTrivia = false → (move lexeme).token = lexeme.token

namespace Recast

variable (recast : Recast) {lexeme : Lexeme}

/-- What is left of one lexeme; `gap` says whether trivia stand in front of it. -/
def front (gap : Bool) (lexeme : Lexeme) : List Lexeme :=
  if lexeme.isTrivia && gap && recast.merges then [] else [recast.move lexeme]

def map : (gap : Bool) → List Lexeme → List Lexeme
  | _, [] => []
  | gap, lexeme :: lexemes => recast.front gap lexeme ++ map lexeme.isTrivia lexemes

@[simp]
theorem map_nil (gap : Bool) : recast.map gap [] = [] := rfl

theorem map_cons (gap : Bool) (lexeme : Lexeme) (lexemes : List Lexeme) :
    recast.map gap (lexeme :: lexemes) =
      recast.front gap lexeme ++ recast.map lexeme.isTrivia lexemes := rfl

theorem map_token (h : lexeme.isTrivia = false) (gap : Bool) (lexemes : List Lexeme) :
    recast.map gap (lexeme :: lexemes) = recast.move lexeme :: recast.map false lexemes := by
  simp [map_cons, front, h]

/-- Trivia are left out behind others, or written anew, whatever follows. -/
theorem map_trivia (h : lexeme.isTrivia = true) (gap : Bool) :
    (gap = true ∧ ∀ lexemes, recast.map gap (lexeme :: lexemes) = recast.map true lexemes) ∨
      ∀ lexemes, recast.map gap (lexeme :: lexemes) =
        recast.move lexeme :: recast.map true lexemes := by
  simp only [map_cons, front, h, Bool.true_and]
  cases gap <;> cases recast.merges <;> simp

/-- Nothing is left out where no trivia stand in front. -/
theorem map_false_cons (lexeme : Lexeme) (lexemes : List Lexeme) :
    recast.map false (lexeme :: lexemes) =
      recast.move lexeme :: recast.map lexeme.isTrivia lexemes := by
  simp [map_cons, front]

theorem map_of_head (gap : Bool) {lexemes : List Lexeme}
    (h : ∀ lexeme ∈ lexemes.head?, lexeme.isTrivia = false) :
    recast.map gap lexemes = recast.map false lexemes := by
  cases lexemes with
  | nil => rfl
  | cons lexeme lexemes => rw [recast.map_token (h lexeme rfl), recast.map_token (h lexeme rfl)]

def gapBehind (gap : Bool) (lexemes : List Lexeme) : Bool :=
  (lexemes.getLast?.map isTrivia).getD gap

theorem map_append (gap : Bool) (before after : List Lexeme) :
    recast.map gap (before ++ after) =
      recast.map gap before ++ recast.map (gapBehind gap before) after := by
  induction before generalizing gap with
  | nil => rfl
  | cons first before ih =>
    have hgap : gapBehind gap (first :: before) = gapBehind first.isTrivia before := by
      rw [gapBehind, gapBehind, List.getLast?_cons]
      cases before.getLast? <;> rfl
    rw [List.cons_append, map_cons, ih, map_cons, List.append_assoc, hgap]

theorem map_append_token (h : lexeme.isTrivia = false) (gap : Bool)
    (before after : List Lexeme) :
    recast.map gap (before ++ lexeme :: after) =
      recast.map gap before ++ recast.move lexeme :: recast.map false after := by
  rw [map_append, recast.map_token h]

/-- A property of tokens that trivia do not have. -/
theorem apply_move {α : Type} {p : Token → α} {none : α}
    (hp : ∀ token, token.isTrivia = true → p token = none) (lexeme : Lexeme) :
    p (recast.move lexeme).token = p lexeme.token := by
  cases htrivia : lexeme.isTrivia with
  | true => rw [hp _ htrivia, hp _ ((recast.isTrivia_move lexeme).trans htrivia)]
  | false => rw [recast.token_move lexeme htrivia]

theorem opens?_move (lexeme : Lexeme) :
    (recast.move lexeme).token.opens? = lexeme.token.opens? :=
  recast.apply_move (fun _ => Token.opens?_of_isTrivia) lexeme

theorem closes?_move (lexeme : Lexeme) :
    (recast.move lexeme).token.closes? = lexeme.token.closes? :=
  recast.apply_move (fun _ => Token.closes?_of_isTrivia) lexeme

/-! ### Trivia -/

theorem isVoid_map (gap : Bool) (lexemes : List Lexeme) :
    isVoid (recast.map gap lexemes) = isVoid lexemes := by
  induction lexemes generalizing gap with
  | nil => rfl
  | cons lexeme lexemes ih =>
    cases htrivia : lexeme.isTrivia with
    | true =>
      obtain ⟨-, h⟩ | h := recast.map_trivia htrivia gap
      · rw [h, ih, isVoid, isVoid, List.all_cons, htrivia, Bool.true_and]
      · simp only [isVoid] at ih
        rw [h, isVoid, isVoid, List.all_cons, List.all_cons, recast.isTrivia_move, ih]
    | false =>
      rw [recast.map_token htrivia, isVoid, isVoid, List.all_cons, List.all_cons,
        recast.isTrivia_move, htrivia, Bool.false_and, Bool.false_and]

theorem next?_map (gap : Bool) (lexemes : List Lexeme) :
    next? (recast.map gap lexemes) =
      (next? lexemes).map fun (token, rest) => (token, recast.map false rest) := by
  induction lexemes generalizing gap with
  | nil => rfl
  | cons lexeme lexemes ih =>
    have hmove := recast.isTrivia_move lexeme
    cases htrivia : lexeme.isTrivia with
    | true =>
      rw [htrivia] at hmove
      rw [next?_of_isTrivia htrivia]
      obtain ⟨-, h⟩ | h := recast.map_trivia htrivia gap
      · rw [h, ih]
      · rw [h, next?_of_isTrivia hmove, ih]
    | false =>
      rw [htrivia] at hmove
      rw [recast.map_token htrivia, next?_of_not_isTrivia hmove, next?_of_not_isTrivia htrivia,
        recast.token_move lexeme htrivia]
      rfl

theorem next?_reverse_map (gap : Bool) (lexemes : List Lexeme) :
    next? (recast.map gap lexemes).reverse =
      (next? lexemes.reverse).map fun (token, rest) =>
        (token, (recast.map gap rest.reverse).reverse) := by
  cases hnext : next? lexemes.reverse with
  | none =>
    have hvoid := next?_eq_none hnext
    rw [isVoid, List.all_reverse] at hvoid
    have hmap := (recast.isVoid_map gap lexemes).trans hvoid
    rw [isVoid, ← List.all_reverse] at hmap
    rw [← next?_dropTrivia, dropTrivia_of_isVoid hmap]
    rfl
  | some cut =>
    obtain ⟨token, rest⟩ := cut
    obtain ⟨after, lexeme, hreverse, rfl, htrivia, hafter⟩ := exists_of_next? hnext
    have heq : lexemes = rest.reverse ++ lexeme :: after.reverse := by
      rw [← List.reverse_reverse lexemes, hreverse]
      simp
    have hvoid : isVoid (recast.map false after.reverse).reverse = true := by
      rw [isVoid, List.all_reverse, ← isVoid, recast.isVoid_map, isVoid, List.all_reverse]
      exact List.all_eq_true.2 hafter
    rw [heq, recast.map_append_token htrivia, List.reverse_append, List.reverse_cons,
      List.append_assoc, ← next?_dropTrivia, dropTrivia_append hvoid, next?_dropTrivia,
      List.singleton_append, next?_of_not_isTrivia ((recast.isTrivia_move lexeme).trans htrivia),
      recast.token_move lexeme htrivia]
    rfl

theorem any_map {p : Token → Bool} (hp : ∀ token, token.isTrivia = true → p token = false)
    (gap : Bool) (lexemes : List Lexeme) :
    ((recast.map gap lexemes).any fun lexeme => p lexeme.token) =
      lexemes.any fun lexeme => p lexeme.token := by
  induction lexemes generalizing gap with
  | nil => rfl
  | cons lexeme lexemes ih =>
    cases htrivia : lexeme.isTrivia with
    | true =>
      obtain ⟨-, h⟩ | h := recast.map_trivia htrivia gap
      · rw [h, ih, List.any_cons, hp _ htrivia, Bool.false_or]
      · rw [h, List.any_cons, List.any_cons, ih, recast.apply_move hp]
    | false =>
      rw [recast.map_token htrivia, List.any_cons, List.any_cons, ih, recast.apply_move hp]

theorem filter_tokens_map (gap : Bool) (lexemes : List Lexeme) :
    ((tokens (recast.map gap lexemes)).filter fun token => !token.isTrivia) =
      (tokens lexemes).filter fun token => !token.isTrivia := by
  induction lexemes generalizing gap with
  | nil => rfl
  | cons lexeme lexemes ih =>
    have hmove := recast.isTrivia_move lexeme
    simp only [tokens, List.map_cons] at ih ⊢
    cases htrivia : lexeme.isTrivia with
    | true =>
      rw [htrivia, isTrivia] at hmove
      rw [isTrivia] at htrivia
      rw [List.filter_cons_of_neg (by simp [htrivia])]
      obtain ⟨-, h⟩ | h := recast.map_trivia htrivia gap
      · rw [h, ih]
      · rw [h, List.map_cons, List.filter_cons_of_neg (by simp [hmove]), ih]
    | false =>
      rw [recast.map_token htrivia, List.map_cons, recast.token_move lexeme htrivia]
      rw [isTrivia] at htrivia
      rw [List.filter_cons_of_pos (by simp [htrivia]), List.filter_cons_of_pos (by simp [htrivia]),
        ih]

theorem trim_map (gap : Bool) (lexemes : List Lexeme) :
    trim (recast.map gap lexemes) = recast.map false (trim lexemes) := by
  obtain ⟨before, after, heq, hbefore, hafter⟩ := exists_trim lexemes
  have hhead := isTrivia_of_mem_head?_trim lexemes
  have hlast := isTrivia_of_mem_getLast?_trim lexemes
  generalize trim lexemes = inner at heq hhead hlast ⊢
  subst heq
  rw [map_append, map_append, recast.map_of_head _ hhead]
  refine trim_append ((recast.isVoid_map ..).trans hbefore) ((recast.isVoid_map ..).trans hafter)
    ?_ ?_
  · cases inner with
    | nil => exact fun _ hmem => nomatch hmem
    | cons lexeme inner =>
      intro moved hmem
      rw [map_false_cons] at hmem
      obtain rfl := Option.some.inj hmem
      exact (recast.isTrivia_move lexeme).trans (hhead lexeme rfl)
  · intro moved hmem
    cases hinner : inner.getLast? with
    | none =>
      obtain rfl := List.getLast?_eq_none_iff.1 hinner
      contradiction
    | some lexeme =>
      obtain ⟨inner, rfl⟩ := List.getLast?_eq_some_iff.1 hinner
      have htrivia := hlast lexeme hinner
      rw [recast.map_append_token htrivia, map_nil, List.getLast?_concat] at hmem
      obtain rfl := Option.some.inj hmem
      exact (recast.isTrivia_move lexeme).trans htrivia

/-! ### Brackets and commas -/

theorem closesAll_map (gap : Bool) (stack : List Bracket) (lexemes : List Lexeme) :
    closesAll stack (recast.map gap lexemes) = closesAll stack lexemes := by
  induction lexemes generalizing gap stack with
  | nil => rfl
  | cons lexeme lexemes ih =>
    have hcons : closesAll stack (recast.move lexeme :: recast.map lexeme.isTrivia lexemes) =
        closesAll stack (lexeme :: lexemes) := by
      simp only [closesAll, recast.opens?_move, recast.closes?_move, ih]
    cases htrivia : lexeme.isTrivia with
    | true =>
      rw [htrivia] at hcons
      obtain ⟨-, h⟩ | h := recast.map_trivia htrivia gap
      · simp only [h, ih, closesAll, Token.opens?_of_isTrivia htrivia,
          Token.closes?_of_isTrivia htrivia]
      · rw [h, hcons]
    | false =>
      rw [htrivia] at hcons
      rw [recast.map_token htrivia, hcons]

theorem isBalanced_map (gap : Bool) (lexemes : List Lexeme) :
    isBalanced (recast.map gap lexemes) = isBalanced lexemes :=
  recast.closesAll_map gap [] lexemes

def block (gap : Bool) (block : Block) : Block :=
  ⟨recast.map gap block.inner, recast.move block.closer, recast.map false block.rest⟩

def groups (gap : Bool) (groups : Groups) : Groups :=
  ⟨recast.map gap groups.first, groups.more.map (recast.map false)⟩

theorem cutBlockFrom?_map (gap : Bool) (depth : Nat) (lexemes : List Lexeme) :
    cutBlockFrom? depth (recast.map gap lexemes) =
      (cutBlockFrom? depth lexemes).map (recast.block gap) := by
  induction lexemes generalizing gap depth with
  | nil => rfl
  | cons lexeme lexemes ih =>
    -- a lexeme that is kept goes to the front of the block, one that is left out does not
    have hkept : (∀ lexemes, recast.map gap (lexeme :: lexemes) =
          recast.move lexeme :: recast.map lexeme.isTrivia lexemes) →
        cutBlockFrom? depth (recast.map gap (lexeme :: lexemes)) =
          (cutBlockFrom? depth (lexeme :: lexemes)).map (recast.block gap) := by
      intro hmap
      have hcons : ∀ block : Option Block,
          (block.map (recast.block lexeme.isTrivia)).map (Block.cons (recast.move lexeme)) =
            (block.map (Block.cons lexeme)).map (recast.block gap) := by
        intro block
        cases block with
        | none => rfl
        | some block => simp only [Option.map_some, Recast.block, Block.cons, hmap]
      simp only [hmap, cutBlockFrom?, recast.opens?_move, recast.closes?_move]
      split
      · rw [ih, hcons]
      · split
        · rename_i hcloses
          have htrivia : lexeme.isTrivia = false := Bool.eq_false_iff.2 fun htrivia => by
            rw [Token.closes?_of_isTrivia htrivia] at hcloses
            contradiction
          cases depth with
          | zero => simp only [htrivia]; rfl
          | succ depth => simp only [ih, hcons]
        · rw [ih, hcons]
    cases htrivia : lexeme.isTrivia with
    | false =>
      refine hkept fun lexemes => ?_
      rw [recast.map_token htrivia, htrivia]
    | true =>
      obtain ⟨-, h⟩ | h := recast.map_trivia htrivia gap
      · have hcut : cutBlockFrom? depth (lexeme :: lexemes) =
            (cutBlockFrom? depth lexemes).map (Block.cons lexeme) := by
          simp [cutBlockFrom?, Token.opens?_of_isTrivia htrivia, Token.closes?_of_isTrivia htrivia]
        rw [h, ih, hcut, Option.map_map]
        refine congrArg (Option.map · _) (funext fun block => ?_)
        simp only [Function.comp_apply, Recast.block, Block.cons, h]
      · refine hkept fun lexemes => ?_
        rw [h, htrivia]

theorem cutBlock?_map (gap : Bool) (lexemes : List Lexeme) :
    cutBlock? (recast.map gap lexemes) = (cutBlock? lexemes).map (recast.block gap) :=
  recast.cutBlockFrom?_map gap 0 lexemes

theorem splitCommasFrom_map (gap : Bool) (depth : Nat) (lexemes : List Lexeme) :
    splitCommasFrom depth (recast.map gap lexemes) =
      recast.groups gap (splitCommasFrom depth lexemes) := by
  induction lexemes generalizing gap depth with
  | nil => rfl
  | cons lexeme lexemes ih =>
    cases htrivia : lexeme.isTrivia with
    | false =>
      simp only [recast.map_token htrivia, splitCommasFrom, recast.token_move lexeme htrivia, ih]
      have hcons : ∀ groups : Groups,
          (recast.groups false groups).cons (recast.move lexeme) =
            recast.groups gap (groups.cons lexeme) := by
        intro groups
        simp only [Recast.groups, Groups.cons, recast.map_token htrivia]
      split
      · exact hcons _
      split
      · exact hcons _
      split
      · rfl
      · exact hcons _
    | true =>
      have hsplit : ∀ {trivia : Lexeme} {lexemes : List Lexeme}, trivia.isTrivia = true →
          splitCommasFrom depth (trivia :: lexemes) =
            (splitCommasFrom depth lexemes).cons trivia := by
        intro trivia lexemes h
        have hcomma : trivia.token ≠ .comma := by
          intro heq
          rw [isTrivia, heq] at h
          contradiction
        simp [splitCommasFrom, Token.opens?_of_isTrivia h, Token.closes?_of_isTrivia h, hcomma]
      rw [hsplit htrivia]
      obtain ⟨-, h⟩ | h := recast.map_trivia htrivia gap
      · rw [h, ih]
        simp only [Recast.groups, Groups.cons, h]
      · rw [h, hsplit ((recast.isTrivia_move lexeme).trans htrivia), ih]
        simp only [Recast.groups, Groups.cons, h]

theorem splitCommas_map (lexemes : List Lexeme) :
    (splitCommas (recast.map false lexemes)).toList =
      (splitCommas lexemes).toList.map (recast.map false) := by
  rw [splitCommas, recast.splitCommasFrom_map]
  rfl

/-! ### Runs -/

theorem collapse_map (gap gap' : Bool) (hgap : gap = true → gap' = true)
    (lexemes : List Lexeme) :
    TokenRun.collapse gap' ((tokens (recast.map gap lexemes)).filter TokenRun.isKept) =
      TokenRun.collapse gap' ((tokens lexemes).filter TokenRun.isKept) := by
  simp only [tokens]
  induction lexemes generalizing gap gap' with
  | nil => rfl
  | cons lexeme lexemes ih =>
    cases htrivia : lexeme.isTrivia with
    | true =>
      have hcollapse : ∀ {token : Token} {gap' : Bool} {run : List Token}, token.isTrivia = true →
          TokenRun.collapse gap' ((token :: run).filter TokenRun.isKept) =
            TokenRun.collapse true (run.filter TokenRun.isKept) := by
        intro token gap' run h
        rw [List.filter_cons_of_pos (Token.isKept_of_isTrivia h), TokenRun.collapse_trivia h]
      rw [List.map_cons, hcollapse htrivia]
      obtain ⟨htrue, h⟩ | h := recast.map_trivia htrivia gap
      · rw [h, hgap htrue]
        exact ih _ _ fun _ => rfl
      · rw [h, List.map_cons, hcollapse ((recast.isTrivia_move lexeme).trans htrivia)]
        exact ih _ _ fun _ => rfl
    | false =>
      rw [recast.map_token htrivia, List.map_cons, List.map_cons, recast.token_move lexeme htrivia]
      by_cases hkept : TokenRun.isKept lexeme.token = true
      · rw [List.filter_cons_of_pos hkept, List.filter_cons_of_pos hkept,
          TokenRun.collapse_token htrivia, TokenRun.collapse_token htrivia, ih _ _ id]
      · rw [List.filter_cons_of_neg hkept, List.filter_cons_of_neg hkept]
        exact ih _ _ fun h => Bool.noConfusion h

theorem ofLexemes_map (gap : Bool) (lexemes : List Lexeme) :
    TokenRun.ofLexemes (recast.map gap lexemes) = TokenRun.ofLexemes lexemes := by
  induction lexemes generalizing gap with
  | nil => rfl
  | cons lexeme lexemes ih =>
    simp only [TokenRun.ofLexemes, tokens] at ih ⊢
    cases htrivia : lexeme.isTrivia with
    | true =>
      have hdrop : ∀ {token : Token} {run : List Token}, token.isTrivia = true →
          ((token :: run).filter TokenRun.isKept).dropWhile Token.isTrivia =
            (run.filter TokenRun.isKept).dropWhile Token.isTrivia := by
        intro token run h
        rw [List.filter_cons_of_pos (Token.isKept_of_isTrivia h), List.dropWhile_cons_of_pos h]
      rw [List.map_cons, hdrop htrivia]
      obtain ⟨-, h⟩ | h := recast.map_trivia htrivia gap
      · rw [h, ih]
      · rw [h, List.map_cons, hdrop ((recast.isTrivia_move lexeme).trans htrivia), ih]
    | false =>
      rw [recast.map_token htrivia, List.map_cons, List.map_cons, recast.token_move lexeme htrivia]
      by_cases hkept : TokenRun.isKept lexeme.token = true
      · have hsolid : ¬ lexeme.token.isTrivia = true := Bool.eq_false_iff.1 htrivia
        have hrest := recast.collapse_map false false id lexemes
        simp only [tokens] at hrest
        rw [List.filter_cons_of_pos hkept, List.filter_cons_of_pos hkept,
          List.dropWhile_cons_of_neg hsolid, List.dropWhile_cons_of_neg hsolid,
          TokenRun.collapse_token htrivia, TokenRun.collapse_token htrivia, hrest]
      · rw [List.filter_cons_of_neg hkept, List.filter_cons_of_neg hkept, ih]

/-! ### Runs as recasts -/

def printed : Recast where
  move lexeme :=
    let token := if lexeme.isTrivia then .whitespace else lexeme.token
    ⟨token, .point 0, token.toText .pretty⟩
  merges := true
  isTrivia_move lexeme := by
    cases h : lexeme.isTrivia with
    | true => rfl
    | false => exact h
  token_move lexeme h := by simp [h]

theorem printed_move_of_isTrivia (h : lexeme.isTrivia = true) :
    printed.move lexeme = ⟨.whitespace, .point 0, [' ']⟩ := by
  simp only [printed, h, if_true]
  rfl

theorem printed_map_true_of_isTrivia (h : lexeme.isTrivia = true) (lexemes : List Lexeme) :
    printed.map true (lexeme :: lexemes) = printed.map true lexemes := by
  rw [map_cons, front, h]
  rfl

theorem toLexemes_collapse {lexemes : List Lexeme}
    (hlast : ∀ lexeme ∈ lexemes.getLast?, lexeme.isTrivia = false) :
    (TokenRun.collapse false (tokens lexemes)).toLexemes = printed.map false lexemes ∧
      (lexemes ≠ [] → (TokenRun.collapse true (tokens lexemes)).toLexemes =
        ⟨.whitespace, .point 0, [' ']⟩ :: printed.map true lexemes) := by
  induction lexemes with
  | nil => exact ⟨rfl, fun hne => absurd rfl hne⟩
  | cons lexeme lexemes ih =>
    have hrest : ∀ last ∈ lexemes.getLast?, last.isTrivia = false := fun last hmem =>
      hlast last (List.mem_getLast?_cons hmem)
    obtain ⟨hfalse, htrue⟩ := ih hrest
    rw [tokens, List.map_cons, ← tokens]
    cases htrivia : lexeme.isTrivia with
    | true =>
      have hne : lexemes ≠ [] := by
        rintro rfl
        rw [hlast lexeme rfl] at htrivia
        contradiction
      rw [TokenRun.collapse_trivia htrivia, TokenRun.collapse_trivia htrivia, htrue hne,
        printed.map_false_cons, htrivia, printed_move_of_isTrivia htrivia,
        printed_map_true_of_isTrivia htrivia]
      exact ⟨rfl, fun _ => rfl⟩
    | false =>
      have hmove : printed.move lexeme = ⟨lexeme.token, .point 0, lexeme.token.toText .pretty⟩ := by
        simp [printed, htrivia]
      rw [TokenRun.collapse_token htrivia, TokenRun.collapse_token htrivia,
        printed.map_token htrivia, printed.map_token htrivia, hmove, if_neg Bool.false_ne_true,
        if_pos rfl, TokenRun.toLexemes_cons, TokenRun.toLexemes_cons, TokenRun.toLexemes_cons,
        hfalse]
      exact ⟨rfl, fun _ => rfl⟩

/-- The run of some lexemes is a recast of what stands between the trivia at their ends. -/
theorem toLexemes_ofLexemes {lexemes : List Lexeme}
    (hkept : ∀ lexeme ∈ lexemes, TokenRun.isKept lexeme.token = true) :
    (TokenRun.ofLexemes lexemes).toLexemes = printed.map false (trim lexemes) := by
  have htrim : ∀ lexeme ∈ trim lexemes, TokenRun.isKept lexeme.token = true := fun lexeme hmem =>
    hkept lexeme ((isInfix_trim lexemes).subset hmem)
  rw [← TokenRun.ofLexemes_trim, TokenRun.ofLexemes_eq_collapse htrim,
    dropTrivia_eq_self (isTrivia_of_mem_head?_trim lexemes)]
  exact (toLexemes_collapse (isTrivia_of_mem_getLast?_trim lexemes)).1

end Recast

/-! ### Places do not matter -/

structure Moves (move : Lexeme → Lexeme) : Prop where
  token : ∀ lexeme, (move lexeme).token = lexeme.token
  raw : ∀ lexeme, (move lexeme).raw = lexeme.raw

namespace Moves

variable {move : Lexeme → Lexeme} (h : Moves move)
include h

def recast : Recast where
  move := move
  merges := false
  isTrivia_move lexeme := by rw [isTrivia, h.token, isTrivia]
  token_move lexeme _ := h.token lexeme

theorem map_recast (gap : Bool) (lexemes : List Lexeme) :
    h.recast.map gap lexemes = lexemes.map move := by
  induction lexemes generalizing gap with
  | nil => rfl
  | cons lexeme lexemes ih =>
    rw [Recast.map_cons, ih, List.map_cons]
    simp [Recast.front, recast]

theorem rawText_map (lexemes : List Lexeme) : rawText (lexemes.map move) = rawText lexemes := by
  have htrivia : ∀ lexeme, (move lexeme).isTrivia = lexeme.isTrivia := h.recast.isTrivia_move
  have hcomment : isComment ∘ move = isComment := funext fun lexeme => by
    rw [Function.comp_apply, isComment, h.token, isComment]
  have hraw : ((fun lexeme => lexeme.raw) ∘ move) = fun lexeme => lexeme.raw := funext h.raw
  have hjoin : ∀ (text : Text) (lexemes : List Lexeme),
      joinSpaced text (lexemes.map move) = joinSpaced text lexemes := by
    intro text lexemes
    induction lexemes generalizing text with
    | nil => rfl
    | cons lexeme lexemes ih => simp only [List.map_cons, joinSpaced, htrivia, h.raw, ih]
  have htrim : trim (lexemes.map move) = (trim lexemes).map move := by
    rw [← h.map_recast false, h.recast.trim_map, h.map_recast]
  simp only [rawText, htrim, List.any_map, hcomment, hjoin, List.flatMap_def, List.map_map, hraw]

theorem closesAll_map (stack : List Bracket) (lexemes : List Lexeme) :
    closesAll stack (lexemes.map move) = closesAll stack lexemes := by
  rw [← h.map_recast false, h.recast.closesAll_map]

theorem ofLexemes_map (lexemes : List Lexeme) :
    TokenRun.ofLexemes (lexemes.map move) = TokenRun.ofLexemes lexemes := by
  rw [← h.map_recast false, h.recast.ofLexemes_map]

end Moves

theorem moves_bare : Moves bare := ⟨fun _ => rfl, fun _ => rfl⟩

end Lexeme

end Css
