import Css.Proofs.Token.Balanced
import Css.Proofs.Token.Recast
import Css.Proofs.Token.Scanned

/-!
# What ends a segment

Where a segment ends depends on its brackets and semicolons alone, the marks of its lexemes: it ends
at a semicolon or a curly bracket that stands outside the brackets it has open, and it is given up
where a bracket is opened that there is no room for. So lexemes with the marks of others go on
wherever these do (`Lexeme.behind?_congr`), and so do lexemes with some brackets less
(`Lexeme.Balanced.behind?_of_lighter`).
-/

namespace Css

inductive Mark where
  | opening (bracket : Bracket)
  | closing (bracket : Bracket)
  | semicolon
  deriving DecidableEq

def Token.mark? : Token → Option Mark
  | function _ => some (.opening .round)
  | opening bracket => some (.opening bracket)
  | closing bracket => some (.closing bracket)
  | semicolon => some .semicolon
  | _ => none

/-- The brackets open behind a mark, innermost first, if the segment goes on behind it. A block is
opened by a curly bracket, where `atBlock` says so; `room` is how many brackets may be open. -/
def Mark.behind? (atBlock atSemicolon : Bool) (room : Nat) (stack : List Bracket) :
    Mark → Option (List Bracket)
  | opening bracket =>
    if (bracket = .curly ∧ stack = [] ∧ atBlock = true) ∨ room ≤ stack.length then none
    else some (bracket :: stack)
  | closing bracket => if stack.head? = some bracket then some stack.tail else none
  | semicolon => if atSemicolon = true ∧ .curly ∉ stack then none else some stack

namespace Lexeme

def marks (lexemes : List Lexeme) : List Mark := lexemes.filterMap (·.token.mark?)

def behind? (atBlock atSemicolon : Bool) (room : Nat) (stack : List Bracket)
    (lexemes : List Lexeme) : Option (List Bracket) :=
  (marks lexemes).foldlM (Mark.behind? atBlock atSemicolon room) stack

/-! ### Marks -/

@[simp]
theorem marks_nil : marks [] = [] := rfl

@[simp]
theorem marks_append (left right : List Lexeme) :
    marks (left ++ right) = marks left ++ marks right :=
  List.filterMap_append

theorem marks_cons (lexeme : Lexeme) (lexemes : List Lexeme) :
    marks (lexeme :: lexemes) = lexeme.token.mark?.toList ++ marks lexemes := by
  rw [marks, List.filterMap_cons]
  cases lexeme.token.mark? <;> rfl

end Lexeme

namespace Token

variable {token : Token}

theorem mark?_eq_opening {bracket : Bracket} :
    token.mark? = some (.opening bracket) ↔ token.opens? = some bracket := by
  cases token <;> simp [mark?, opens?]

theorem mark?_eq_closing {bracket : Bracket} :
    token.mark? = some (.closing bracket) ↔ token.closes? = some bracket := by
  cases token <;> simp [mark?, closes?]

theorem mark?_eq_semicolon : token.mark? = some .semicolon ↔ token = .semicolon := by
  cases token <;> simp [mark?]

theorem mark?_eq_none :
    token.mark? = none ↔ token.opens? = none ∧ token.closes? = none ∧ token ≠ .semicolon := by
  cases token <;> simp [mark?, opens?, closes?]

theorem mark?_of_isTrivia (h : token.isTrivia = true) : token.mark? = none := by
  cases token <;> first | rfl | contradiction

end Token

namespace Lexeme

variable {lexemes : List Lexeme}

theorem marks_of_plain (h : ∀ lexeme ∈ lexemes, lexeme.token.mark? = none) : marks lexemes = [] :=
  List.filterMap_eq_nil_iff.2 h

theorem marks_of_isVoid (h : isVoid lexemes = true) : marks lexemes = [] :=
  marks_of_plain fun lexeme hmem => Token.mark?_of_isTrivia (List.all_eq_true.1 h lexeme hmem)

theorem marks_trim (lexemes : List Lexeme) : marks (trim lexemes) = marks lexemes := by
  obtain ⟨before, after, heq, hbefore, hafter⟩ := exists_trim lexemes
  conv => rhs; rw [heq]
  rw [marks_append, marks_append, marks_of_isVoid hbefore, marks_of_isVoid hafter,
    List.nil_append, List.append_nil]

theorem marks_map (recast : Recast) (gap : Bool) (lexemes : List Lexeme) :
    marks (recast.map gap lexemes) = marks lexemes := by
  induction lexemes generalizing gap with
  | nil => rfl
  | cons lexeme lexemes ih =>
    rw [marks_cons]
    cases htrivia : lexeme.isTrivia with
    | true =>
      have hmove := (recast.isTrivia_move lexeme).trans htrivia
      rw [Token.mark?_of_isTrivia htrivia]
      obtain ⟨-, h⟩ | h := recast.map_trivia htrivia gap
      · rw [h, ih]
        rfl
      · rw [h, marks_cons, Token.mark?_of_isTrivia hmove, ih]
    | false => rw [recast.map_token htrivia, marks_cons, recast.token_move lexeme htrivia, ih]

theorem marks_map_bare (lexemes : List Lexeme) : marks (lexemes.map bare) = marks lexemes := by
  rw [← moves_bare.map_recast false, marks_map]

/-- Nothing is left out of the groups between commas but commas. -/
theorem marks_splitCommas (lexemes : List Lexeme) :
    (splitCommas lexemes).toList.flatMap marks = marks lexemes := by
  obtain hone | ⟨group, comma, rest, heq, hcomma, hmore⟩ := splitCommasFrom_cases 0 lexemes
  · rw [splitCommas, hone, List.flatMap_singleton]
  · have hshorter : rest.length < lexemes.length := by
      rw [heq, List.length_append, List.length_cons]
      omega
    have hmark : comma.token.mark? = none := by
      rw [hcomma]
      rfl
    calc (splitCommas lexemes).toList.flatMap marks
      _ = marks group ++ (splitCommas rest).toList.flatMap marks := by
        rw [splitCommas, hmore, List.flatMap_cons]
      _ = marks group ++ marks rest := by rw [marks_splitCommas rest]
      _ = marks lexemes := by rw [heq, marks_append, marks_cons, hmark]; rfl
termination_by lexemes.length

/-- A run has the marks of its lexemes, but for those of tokens that were cut short. -/
theorem marks_ofLexemes (h : ∀ lexeme ∈ lexemes, TokenRun.isKept lexeme.token = true) :
    marks (TokenRun.ofLexemes lexemes).toLexemes = marks lexemes := by
  have hcollapse : ∀ (gap : Bool) (lexemes : List Lexeme),
      marks (TokenRun.collapse gap (tokens lexemes)).toLexemes = marks lexemes := by
    intro gap lexemes
    induction lexemes generalizing gap with
    | nil => rfl
    | cons lexeme lexemes ih =>
      rw [tokens, List.map_cons, marks_cons]
      cases htrivia : lexeme.token.isTrivia with
      | true =>
        rw [TokenRun.collapse_trivia htrivia, Token.mark?_of_isTrivia htrivia]
        exact ih true
      | false =>
        rw [TokenRun.collapse_token htrivia]
        split
        · rw [TokenRun.toLexemes_cons, TokenRun.toLexemes_cons, marks_cons, marks_cons]
          exact congrArg (lexeme.token.mark?.toList ++ ·) (ih false)
        · rw [TokenRun.toLexemes_cons, marks_cons]
          exact congrArg (lexeme.token.mark?.toList ++ ·) (ih false)
  have hdrop : marks (dropTrivia lexemes) = marks lexemes := by
    conv => rhs; rw [← List.takeWhile_append_dropWhile (p := isTrivia) (l := lexemes)]
    rw [marks_append, marks_of_isVoid List.all_takeWhile]
    rfl
  rw [TokenRun.ofLexemes_eq_collapse h, hcollapse, hdrop]

/-! ### Where a segment goes on -/

variable {atBlock atSemicolon : Bool} {room : Nat} {stack behind : List Bracket}

theorem behind?_congr {lexemes' : List Lexeme} (h : marks lexemes' = marks lexemes)
    (atBlock atSemicolon : Bool) (room : Nat) (stack : List Bracket) :
    behind? atBlock atSemicolon room stack lexemes' =
      behind? atBlock atSemicolon room stack lexemes := by
  rw [behind?, h, behind?]

theorem behind?_of_marks_eq_nil (h : marks lexemes = []) :
    behind? atBlock atSemicolon room stack lexemes = some stack := by
  rw [behind?, h]
  rfl

theorem behind?_append (left right : List Lexeme) :
    behind? atBlock atSemicolon room stack (left ++ right) =
      (behind? atBlock atSemicolon room stack left).bind fun stack =>
        behind? atBlock atSemicolon room stack right := by
  rw [behind?, marks_append, List.foldlM_append]
  rfl

theorem behind?_cons (lexeme : Lexeme) (lexemes : List Lexeme) :
    behind? atBlock atSemicolon room stack (lexeme :: lexemes) =
      (behind? atBlock atSemicolon room stack [lexeme]).bind fun stack =>
        behind? atBlock atSemicolon room stack lexemes :=
  behind?_append [lexeme] lexemes

theorem behind?_singleton (lexeme : Lexeme) :
    behind? atBlock atSemicolon room stack [lexeme] =
      match lexeme.token.mark? with
      | none => some stack
      | some mark => mark.behind? atBlock atSemicolon room stack := by
  rw [behind?, marks_cons]
  cases lexeme.token.mark? with
  | none => rfl
  | some mark => exact bind_pure _

theorem behind?_cons_eq_some {lexeme : Lexeme} :
    behind? atBlock atSemicolon room stack (lexeme :: lexemes) = some behind ↔
      ∃ middle, behind? atBlock atSemicolon room stack [lexeme] = some middle ∧
        behind? atBlock atSemicolon room middle lexemes = some behind := by
  rw [behind?_cons, Option.bind_eq_some_iff]

theorem behind?_of_opens? {lexeme : Lexeme} {bracket : Bracket}
    (h : lexeme.token.opens? = some bracket) :
    behind? atBlock atSemicolon room stack [lexeme] = some behind ↔
      behind = bracket :: stack ∧ stack.length < room ∧
        ¬(bracket = .curly ∧ stack = [] ∧ atBlock = true) := by
  rw [behind?_singleton, Token.mark?_eq_opening.2 h]
  simp only [Mark.behind?, Option.ite_none_left_eq_some, not_or, Nat.not_le, Option.some.injEq]
  exact ⟨fun ⟨⟨hblock, hroom⟩, heq⟩ => ⟨heq.symm, hroom, hblock⟩,
    fun ⟨heq, hroom, hblock⟩ => ⟨⟨hblock, hroom⟩, heq.symm⟩⟩

theorem behind?_of_closes? {lexeme : Lexeme} {bracket : Bracket}
    (h : lexeme.token.closes? = some bracket) :
    behind? atBlock atSemicolon room stack [lexeme] = some behind ↔ stack = bracket :: behind := by
  rw [behind?_singleton, Token.mark?_eq_closing.2 h]
  cases stack with
  | nil => simp [Mark.behind?]
  | cons top stack => simp [Mark.behind?]

theorem behind?_of_semicolon {lexeme : Lexeme} (h : lexeme.token = .semicolon) :
    behind? atBlock atSemicolon room stack [lexeme] = some behind ↔
      behind = stack ∧ (atSemicolon = true → .curly ∈ stack) := by
  rw [behind?_singleton, Token.mark?_eq_semicolon.2 h]
  simp only [Mark.behind?, Option.ite_none_left_eq_some, Option.some.injEq, not_and,
    Decidable.not_not]
  exact ⟨fun ⟨hcurly, heq⟩ => ⟨heq.symm, hcurly⟩, fun ⟨heq, hcurly⟩ => ⟨hcurly, heq.symm⟩⟩

/-- Lexemes that open and close nothing leave open what was open. -/
theorem behind?_of_append {before after : List Lexeme}
    (hbefore : ∀ lexeme ∈ before, lexeme.token.opens? = none ∧ lexeme.token.closes? = none)
    (hafter : ∀ lexeme ∈ after, lexeme.token.opens? = none ∧ lexeme.token.closes? = none)
    (h : behind? atBlock atSemicolon room stack (before ++ (lexemes ++ after)) = some behind) :
    behind? atBlock atSemicolon room stack lexemes = some behind := by
  have hleaves : ∀ {lexemes : List Lexeme} {stack behind : List Bracket},
      (∀ lexeme ∈ lexemes, lexeme.token.opens? = none ∧ lexeme.token.closes? = none) →
        behind? atBlock atSemicolon room stack lexemes = some behind → behind = stack := by
    intro lexemes stack behind hplain h
    induction lexemes generalizing stack with
    | nil => exact (Option.some.inj h).symm
    | cons lexeme lexemes ih =>
      obtain ⟨⟨hopens, hcloses⟩, hrest⟩ := List.forall_mem_cons.1 hplain
      obtain ⟨middle, hmiddle, h⟩ := behind?_cons_eq_some.1 h
      have hsame : middle = stack := by
        by_cases hsemicolon : lexeme.token = .semicolon
        · exact ((behind?_of_semicolon hsemicolon).1 hmiddle).1
        · rw [behind?_singleton, Token.mark?_eq_none.2 ⟨hopens, hcloses, hsemicolon⟩] at hmiddle
          exact (Option.some.inj hmiddle).symm
      rw [ih hrest h, hsame]
  rw [behind?_append] at h
  obtain ⟨middle, hmiddle, hrest⟩ := Option.bind_eq_some_iff.1 h
  rw [behind?_append] at hrest
  obtain ⟨last, hlast, hend⟩ := Option.bind_eq_some_iff.1 hrest
  rw [hleaves hafter hend, ← hlast, hleaves hbefore hmiddle]

/-! ### Balanced lexemes -/

/-- Balanced lexemes leave open what was open, and go on in fewer brackets too, as long as some are
left and a curly one is, if there was one. -/
theorem Balanced.behind?_of_lighter (h : Balanced lexemes) (stack' : List Bracket)
    (hgoes : behind? atBlock atSemicolon room stack lexemes = some behind)
    (hlength : stack'.length ≤ stack.length) (hcurly : .curly ∈ stack → .curly ∈ stack')
    (hnil : stack' = [] → stack = []) :
    behind = stack ∧ behind? atBlock atSemicolon room stack' lexemes = some stack' := by
  induction h generalizing stack stack' behind with
  | nil => exact ⟨(Option.some.inj hgoes).symm, rfl⟩
  | @plain lexeme lexemes hopens hcloses _ ih =>
    obtain ⟨middle, hmiddle, hrest⟩ := behind?_cons_eq_some.1 hgoes
    by_cases hsemicolon : lexeme.token = .semicolon
    · obtain ⟨rfl, hends⟩ := (behind?_of_semicolon hsemicolon).1 hmiddle
      obtain ⟨hsame, hlighter⟩ := ih _ hrest hlength hcurly hnil
      refine ⟨hsame, behind?_cons_eq_some.2 ⟨stack', ?_, hlighter⟩⟩
      exact (behind?_of_semicolon hsemicolon).2 ⟨rfl, fun hat => hcurly (hends hat)⟩
    · have hmark := Token.mark?_eq_none.2 ⟨hopens, hcloses, hsemicolon⟩
      rw [behind?_singleton, hmark] at hmiddle
      obtain rfl := Option.some.inj hmiddle
      obtain ⟨hsame, hlighter⟩ := ih _ hrest hlength hcurly hnil
      refine ⟨hsame, behind?_cons_eq_some.2 ⟨stack', ?_, hlighter⟩⟩
      rw [behind?_singleton, hmark]
  | @block opener closer bracket inner lexemes hopens hcloses _ _ ihinner ih =>
    obtain ⟨inside, hopen, hrest⟩ := behind?_cons_eq_some.1 hgoes
    obtain ⟨rfl, hroom, hblock⟩ := (behind?_of_opens? hopens).1 hopen
    rw [behind?_append] at hrest
    obtain ⟨middle, hinner, hrest⟩ := Option.bind_eq_some_iff.1 hrest
    obtain ⟨outside, hclose, hrest⟩ := behind?_cons_eq_some.1 hrest
    -- inside the block there are brackets open, whatever was around it
    obtain ⟨rfl, hinner'⟩ := @ihinner _ _ (bracket :: stack') hinner (Nat.succ_le_succ hlength)
      (fun hmem => by
        obtain rfl | hmem := List.mem_cons.1 hmem
        · exact List.mem_cons_self
        · exact List.mem_cons_of_mem _ (hcurly hmem))
      (fun heq => absurd heq (List.cons_ne_nil _ _))
    obtain ⟨-, rfl⟩ := List.cons.inj ((behind?_of_closes? hcloses).1 hclose)
    obtain ⟨hsame, hlighter⟩ := ih _ hrest hlength hcurly hnil
    refine ⟨hsame, behind?_cons_eq_some.2 ⟨bracket :: stack', ?_, ?_⟩⟩
    · refine (behind?_of_opens? hopens).2 ⟨rfl, Nat.lt_of_le_of_lt hlength hroom, ?_⟩
      rintro ⟨hshape, hempty, hat⟩
      exact hblock ⟨hshape, hnil hempty, hat⟩
    · rw [behind?_append, hinner', Option.bind_some]
      exact behind?_cons_eq_some.2 ⟨stack', (behind?_of_closes? hcloses).2 rfl, hlighter⟩

theorem Balanced.eq_of_behind? (h : Balanced lexemes)
    (hgoes : behind? atBlock atSemicolon room stack lexemes = some behind) : behind = stack :=
  (h.behind?_of_lighter stack hgoes (Nat.le_refl _) id id).1

end Lexeme

/-! ### Runs of tokens -/

open Lexeme

def TokenRun.marks (run : TokenRun) : List Mark := run.filterMap Token.mark?

namespace TokenRun

theorem marks_tokens (lexemes : List Lexeme) : marks (tokens lexemes) = Lexeme.marks lexemes := by
  rw [marks, tokens, List.filterMap_map]
  rfl

theorem marks_toLexemes (run : TokenRun) : Lexeme.marks run.toLexemes = run.marks := by
  rw [← marks_tokens, tokens_toLexemes]

theorem marks_append (left right : TokenRun) : marks (left ++ right) = left.marks ++ right.marks :=
  List.filterMap_append

theorem marks_of_plain {run : TokenRun} (h : ∀ token ∈ run, token.mark? = none) : run.marks = [] :=
  List.filterMap_eq_nil_iff.2 h

/-- The marks of a block, with its brackets. -/
theorem marks_block {opener closer : Token} {bracket : Bracket}
    (hopens : opener.opens? = some bracket) (hcloses : closer.closes? = some bracket)
    (run : TokenRun) :
    marks (opener :: (run ++ [closer])) =
      .opening bracket :: (run.marks ++ [.closing bracket]) := by
  rw [marks, List.filterMap_cons, Token.mark?_eq_opening.2 hopens, ← marks, marks_append]
  simp [marks, Token.mark?_eq_closing.2 hcloses]

end TokenRun

/-- The marks of a block that is cut from balanced lexemes. -/
theorem Lexeme.Balanced.marks_eq {opener : Lexeme} {lexemes : List Lexeme} {bracket : Bracket}
    {block : Block} (h : Balanced (opener :: lexemes)) (hopens : opener.token.opens? = some bracket)
    (hcut : cutBlock? lexemes = some block) :
    marks (opener :: lexemes) =
      .opening bracket :: (marks block.inner ++ [.closing bracket]) ++ marks block.rest := by
  obtain ⟨found, hfound, hcloses⟩ := h.exists_cutBlock? hopens
  obtain rfl := Option.some.inj (hcut.symm.trans hfound)
  rw [cutBlock?_eq_some hcut, marks_cons, marks_append, marks_cons,
    Token.mark?_eq_opening.2 hopens, Token.mark?_eq_closing.2 hcloses]
  simp

end Css
