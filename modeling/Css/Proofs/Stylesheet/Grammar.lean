import Css.Proofs.Stylesheet.Declarations

/-!
# A grammar of style sheets

What a source without mistakes is made of, apart from the parser that reads it: declarations with
semicolons between them, rules side by side, and trivia anywhere. A declaration, the head of a rule
and the prelude of an at-rule each go on up to what ends them (`Lexeme.behind?`), in as many
brackets as the blocks around them leave.
-/

namespace Css

open Lexeme

open Parser.State (readPrelude)

/-- Whether a token between the rules inside `depth` blocks says nothing. -/
def Token.isIdleAt (depth : Nat) (token : Token) : Bool :=
  token.isTrivia || (depth == 0 && (token == .cdo || token == .cdc))

/-- Lexemes from which a declaration is read, where `room` is left for its brackets. -/
structure IsDeclaration (room : Nat) (lexemes : List Lexeme) (declaration : Declaration) :
    Prop where
  solid : ∃ first ∈ lexemes.head?, first.isTrivia = false
  goesOn : behind? false true room [] lexemes = some []
  parse : Declaration.parse true lexemes = .ok declaration

/-- The declarations of a block. Only the last one may do without a semicolon. -/
inductive AreDeclarations (room : Nat) : List Lexeme → List Declaration → Prop
  | nil : AreDeclarations room [] []
  | idle {lexeme : Lexeme} {lexemes : List Lexeme} {declarations : List Declaration} :
    lexeme.isTrivia = true ∨ lexeme.token = .semicolon →
    AreDeclarations room lexemes declarations →
    AreDeclarations room (lexeme :: lexemes) declarations
  | last {lexemes : List Lexeme} {declaration : Declaration} :
    IsDeclaration room lexemes declaration → AreDeclarations room lexemes [declaration]
  | more {lexemes rest : List Lexeme} {semicolon : Lexeme} {declaration : Declaration}
    {declarations : List Declaration} :
    IsDeclaration room lexemes declaration → semicolon.token = .semicolon →
    AreDeclarations room rest declarations →
    AreDeclarations room (lexemes ++ semicolon :: rest) (declaration :: declarations)

structure IsHead (limit depth : Nat) (lexemes : List Lexeme) (selectors : SelectorList) : Prop where
  starts : ∃ first ∈ lexemes.head?, first.token.isIdleAt depth = false ∧
    ∀ name, first.token ≠ .atKeyword name
  goesOn : behind? true false (limit - depth) [] lexemes = some []
  parse : SelectorList.parse lexemes = .ok selectors

inductive IsAtHead (limit depth : Nat) : List Lexeme → Text → Prelude → Prop
  | intro {keyword : Lexeme} {lexemes : List Lexeme} {name : Text} :
    keyword.token = .atKeyword name →
    behind? true true (limit - depth) [] lexemes = some [] →
    IsAtHead limit depth (keyword :: lexemes) name (readPrelude name lexemes)

/-- The rules inside `depth` blocks. Only the last one may be a statement without a semicolon. -/
inductive AreRules (limit : Nat) : (depth : Nat) → List Lexeme → List Rule → Prop
  | nil {depth : Nat} : AreRules limit depth [] []
  | idle {depth : Nat} {lexeme : Lexeme} {lexemes : List Lexeme} {rules : List Rule} :
    lexeme.token.isIdleAt depth = true → AreRules limit depth lexemes rules →
    AreRules limit depth (lexeme :: lexemes) rules
  | style {depth : Nat} {head body rest : List Lexeme} {opener closer : Lexeme}
    {selectors : SelectorList} {declarations : List Declaration} {rules : List Rule} :
    depth < limit → IsHead limit depth head selectors → opener.token = .opening .curly →
    AreDeclarations (limit - (depth + 1)) body declarations → closer.token = .closing .curly →
    AreRules limit depth rest rules →
    AreRules limit depth (head ++ opener :: (body ++ closer :: rest))
      (.style selectors declarations :: rules)
  | descriptors {depth : Nat} {head body rest : List Lexeme} {opener closer : Lexeme} {name : Text}
    {prelude : Prelude} {declarations : List Declaration} {rules : List Rule} :
    depth < limit → IsAtHead limit depth head name prelude →
    BlockKind.ofAtRule name = .declarations → opener.token = .opening .curly →
    AreDeclarations (limit - (depth + 1)) body declarations → closer.token = .closing .curly →
    AreRules limit depth rest rules →
    AreRules limit depth (head ++ opener :: (body ++ closer :: rest))
      (.descriptors name prelude declarations :: rules)
  | group {depth : Nat} {head body rest : List Lexeme} {opener closer : Lexeme} {name : Text}
    {prelude : Prelude} {inner rules : List Rule} :
    depth < limit → IsAtHead limit depth head name prelude →
    BlockKind.ofAtRule name = .rules → opener.token = .opening .curly →
    AreRules limit (depth + 1) body inner → closer.token = .closing .curly →
    AreRules limit depth rest rules →
    AreRules limit depth (head ++ opener :: (body ++ closer :: rest))
      (.group name prelude inner :: rules)
  | last {depth : Nat} {head : List Lexeme} {name : Text} {prelude : Prelude} :
    IsAtHead limit depth head name prelude → AreRules limit depth head [.statement name prelude]
  | statement {depth : Nat} {head rest : List Lexeme} {semicolon : Lexeme} {name : Text}
    {prelude : Prelude} {rules : List Rule} :
    IsAtHead limit depth head name prelude → semicolon.token = .semicolon →
    AreRules limit depth rest rules →
    AreRules limit depth (head ++ semicolon :: rest) (.statement name prelude :: rules)

/-! ### Places do not matter -/

section Places

variable {room limit depth : Nat} {lexemes lexemes' : List Lexeme}

/-- Lexemes that are the same but for their places can be cut where one of them is. -/
theorem exists_of_map_bare_append {left right : List Lexeme}
    (h : lexemes'.map bare = (left ++ right).map bare) :
    ∃ left' right', lexemes' = left' ++ right' ∧ left'.map bare = left.map bare ∧
      right'.map bare = right.map bare := by
  rw [List.map_append] at h
  exact List.map_eq_append_iff.1 h

theorem exists_of_map_bare_cons {lexeme : Lexeme}
    (h : lexemes'.map bare = (lexeme :: lexemes).map bare) :
    ∃ lexeme' rest', lexemes' = lexeme' :: rest' ∧ lexeme'.token = lexeme.token ∧
      rest'.map bare = lexemes.map bare := by
  obtain ⟨lexeme', rest', rfl, hlexeme, hrest⟩ := List.map_eq_cons_iff.1 h
  exact ⟨lexeme', rest', rfl, (congrArg Lexeme.token hlexeme :), hrest⟩

theorem exists_of_map_bare_block {head body rest : List Lexeme} {opener closer : Lexeme}
    (h : lexemes'.map bare = (head ++ opener :: (body ++ closer :: rest)).map bare) :
    ∃ head' opener' body' closer' rest',
      lexemes' = head' ++ opener' :: (body' ++ closer' :: rest') ∧
      head'.map bare = head.map bare ∧ opener'.token = opener.token ∧
      body'.map bare = body.map bare ∧ closer'.token = closer.token ∧
      rest'.map bare = rest.map bare := by
  obtain ⟨head', block', rfl, hhead, hblock⟩ := exists_of_map_bare_append h
  obtain ⟨opener', inside', rfl, hopener, hinside⟩ := exists_of_map_bare_cons hblock
  obtain ⟨body', end', rfl, hbody, hend⟩ := exists_of_map_bare_append hinside
  obtain ⟨closer', rest', rfl, hcloser, hrest⟩ := exists_of_map_bare_cons hend
  exact ⟨head', opener', body', closer', rest', rfl, hhead, hopener, hbody, hcloser, hrest⟩

theorem behind?_congr_bare (h : lexemes'.map bare = lexemes.map bare) (atBlock atSemicolon : Bool)
    (room : Nat) (stack : List Bracket) :
    behind? atBlock atSemicolon room stack lexemes' =
      behind? atBlock atSemicolon room stack lexemes := by
  refine behind?_congr ?_ ..
  rw [← marks_map_bare, h, marks_map_bare]

theorem exists_head?_congr (holds : Token → Prop) (h : lexemes'.map bare = lexemes.map bare)
    (hhead : ∃ first ∈ lexemes.head?, holds first.token) :
    ∃ first ∈ lexemes'.head?, holds first.token := by
  obtain ⟨first, hfirst, hholds⟩ := hhead
  obtain ⟨rest, rfl⟩ := List.head?_eq_some_iff.1 hfirst
  obtain ⟨first', rest', rfl, htoken, -⟩ := exists_of_map_bare_cons h
  exact ⟨first', rfl, htoken ▸ hholds⟩

theorem IsDeclaration.congr {declaration : Declaration} (h : IsDeclaration room lexemes declaration)
    (hbare : lexemes'.map bare = lexemes.map bare) : IsDeclaration room lexemes' declaration where
  solid := exists_head?_congr (·.isTrivia = false) hbare h.solid
  goesOn := by rw [behind?_congr_bare hbare, h.goesOn]
  parse := by rw [← moves_bare.declaration_map, hbare, moves_bare.declaration_map, h.parse]

theorem AreDeclarations.congr {declarations : List Declaration}
    (h : AreDeclarations room lexemes declarations)
    (hbare : lexemes'.map bare = lexemes.map bare) :
    AreDeclarations room lexemes' declarations := by
  induction h generalizing lexemes' with
  | nil =>
    obtain rfl := List.map_eq_nil_iff.1 hbare
    exact .nil
  | idle hidle _ ih =>
    obtain ⟨lexeme', rest', rfl, htoken, hrest⟩ := exists_of_map_bare_cons hbare
    rw [isTrivia, ← htoken] at hidle
    exact .idle hidle (ih hrest)
  | last hdeclaration => exact .last (hdeclaration.congr hbare)
  | more hdeclaration hsemicolon _ ih =>
    obtain ⟨front', back', rfl, hfront, hback⟩ := exists_of_map_bare_append hbare
    obtain ⟨semicolon', rest', rfl, htoken, hrest⟩ := exists_of_map_bare_cons hback
    exact .more (hdeclaration.congr hfront) (htoken.trans hsemicolon) (ih hrest)

theorem IsHead.congr {selectors : SelectorList} (h : IsHead limit depth lexemes selectors)
    (hbare : lexemes'.map bare = lexemes.map bare) : IsHead limit depth lexemes' selectors where
  starts := exists_head?_congr
    (fun token => token.isIdleAt depth = false ∧ ∀ name, token ≠ .atKeyword name) hbare h.starts
  goesOn := by rw [behind?_congr_bare hbare, h.goesOn]
  parse := by rw [← moves_bare.selectors_map, hbare, moves_bare.selectors_map, h.parse]

theorem readPrelude_congr (hbare : lexemes'.map bare = lexemes.map bare) (name : Text) :
    readPrelude name lexemes' = readPrelude name lexemes := by
  have hmedia : MediaList.parse? lexemes' = MediaList.parse? lexemes := by
    rw [← moves_bare.media_map, hbare, moves_bare.media_map]
  have hrun : TokenRun.ofLexemes lexemes' = TokenRun.ofLexemes lexemes := by
    rw [← moves_bare.ofLexemes_map, hbare, moves_bare.ofLexemes_map]
  rw [readPrelude, hmedia, hrun, readPrelude]

theorem IsAtHead.congr {name : Text} {prelude : Prelude}
    (h : IsAtHead limit depth lexemes name prelude)
    (hbare : lexemes'.map bare = lexemes.map bare) :
    IsAtHead limit depth lexemes' name prelude := by
  cases h with
  | intro hkeyword hgoes =>
    obtain ⟨keyword', rest', rfl, htoken, hrest⟩ := exists_of_map_bare_cons hbare
    rw [← readPrelude_congr hrest name]
    exact .intro (htoken.trans hkeyword) (by rw [behind?_congr_bare hrest, hgoes])

/-- A derivation does not depend on where its lexemes stand. -/
theorem AreRules.congr {rules : List Rule} (h : AreRules limit depth lexemes rules)
    (hbare : lexemes'.map bare = lexemes.map bare) : AreRules limit depth lexemes' rules := by
  induction h generalizing lexemes' with
  | nil =>
    obtain rfl := List.map_eq_nil_iff.1 hbare
    exact .nil
  | idle hidle _ ih =>
    obtain ⟨lexeme', rest', rfl, htoken, hrest⟩ := exists_of_map_bare_cons hbare
    exact .idle (htoken ▸ hidle) (ih hrest)
  | style hdepth hhead hopener hbody hcloser _ ih =>
    obtain ⟨_, _, _, _, _, rfl, hhead', hopener', hbody', hcloser', hrest⟩ :=
      exists_of_map_bare_block hbare
    exact .style hdepth (hhead.congr hhead') (hopener'.trans hopener) (hbody.congr hbody')
      (hcloser'.trans hcloser) (ih hrest)
  | descriptors hdepth hhead hkind hopener hbody hcloser _ ih =>
    obtain ⟨_, _, _, _, _, rfl, hhead', hopener', hbody', hcloser', hrest⟩ :=
      exists_of_map_bare_block hbare
    exact .descriptors hdepth (hhead.congr hhead') hkind (hopener'.trans hopener)
      (hbody.congr hbody') (hcloser'.trans hcloser) (ih hrest)
  | group hdepth hhead hkind hopener _ hcloser _ ihbody ih =>
    obtain ⟨_, _, _, _, _, rfl, hhead', hopener', hbody', hcloser', hrest⟩ :=
      exists_of_map_bare_block hbare
    exact .group hdepth (hhead.congr hhead') hkind (hopener'.trans hopener) (ihbody hbody')
      (hcloser'.trans hcloser) (ih hrest)
  | last hhead => exact .last (hhead.congr hbare)
  | statement hhead hsemicolon _ ih =>
    obtain ⟨front', back', rfl, hfront, hback⟩ := exists_of_map_bare_append hbare
    obtain ⟨semicolon', rest', rfl, htoken, hrest⟩ := exists_of_map_bare_cons hback
    exact .statement (hhead.congr hfront) (htoken.trans hsemicolon) (ih hrest)

end Places

end Css
