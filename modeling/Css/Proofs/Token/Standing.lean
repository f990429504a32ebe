import Css.Proofs.Token.Respaced

/-!
# Runs that stand where they are put

A run stands where it is put (`TokenRun.Stands`) if its tokens are scanned as what they are in front
of a separator, and its brackets are closed. So does the run of closed lexemes that stood side by
side in a text without backslashes, none of them cut short and no url among them empty
(`Lexeme.IsSound.stands`).
-/

namespace Css

open Lexeme

variable {lineComments : Bool}

/-! ### Runs -/

namespace TokenRun

theorem areScanned_cons {token : Token} {run : TokenRun} {follow : Text}
    (hspells : Token.Spells lineComments (run.toText .pretty ++ follow) token
      (token.toText .pretty))
    (h : AreScanned lineComments run.toLexemes follow) :
    AreScanned lineComments (toLexemes (token :: run)) follow := by
  rw [← text_toLexemes] at hspells
  exact ⟨.of_spells hspells, h⟩

theorem areScanned_append {left right : TokenRun} {follow : Text}
    (hleft : AreScanned lineComments left.toLexemes (right.toText .pretty ++ follow))
    (hright : AreScanned lineComments right.toLexemes follow) :
    AreScanned lineComments (toLexemes (left ++ right)) follow := by
  rw [toLexemes_append]
  rw [← text_toLexemes] at hleft
  exact eachStands_append.2 ⟨hleft, hright⟩

structure Stands (lineComments : Bool) (run : TokenRun) : Prop where
  scanned : ∀ follow, Separates follow → AreScanned lineComments run.toLexemes follow
  closed : IsClosed run.toLexemes

namespace Stands

variable {run left right : TokenRun}

theorem nil : Stands lineComments [] := ⟨fun _ _ => trivial, rfl⟩

theorem append (hleft : left.Stands lineComments) (hright : right.Stands lineComments)
    (hseparates : Separates (right.toText .pretty)) : (left ++ right).Stands lineComments where
  scanned := fun follow hfollow =>
    areScanned_append (hleft.scanned _ (hseparates.append hfollow)) (hright.scanned follow hfollow)
  closed := by
    rw [toLexemes_append]
    exact hleft.closed.append hright.closed

theorem word {name : Text} (hname : name.IsWord lineComments) (h : run.Stands lineComments)
    (hseparates : Separates (run.toText .pretty)) :
    Stands lineComments (.ident name :: run) where
  scanned := fun follow hfollow =>
    areScanned_cons (hname _ (hseparates.append hfollow)) (h.scanned follow hfollow)
  closed := .plain rfl rfl h.closed

theorem colon (h : run.Stands lineComments) : Stands lineComments (.colon :: run) where
  scanned := fun follow hfollow => ⟨.of_spells (.single rfl), h.scanned follow hfollow⟩
  closed := .plain rfl rfl h.closed

theorem comma (h : run.Stands lineComments) : Stands lineComments (.comma :: run) where
  scanned := fun follow hfollow => ⟨.of_spells (.single rfl), h.scanned follow hfollow⟩
  closed := .plain rfl rfl h.closed

theorem space (h : run.Stands lineComments) {token : Token} (hhead : run.head? = some token)
    (htrivia : token.isTrivia = false) : Stands lineComments (.whitespace :: run) where
  scanned := by
    intro follow hfollow
    obtain ⟨run, rfl⟩ := List.head?_eq_some_iff.1 hhead
    exact areScanned_space (h.scanned follow hfollow) htrivia
  closed := .plain rfl rfl h.closed

end Stands

end TokenRun

/-! ### Parts of lexemes -/

namespace Lexeme

def IsSound (lineComments : Bool) (lexemes : List Lexeme) : Prop :=
  ∃ follow, AreSound lineComments lexemes follow

theorem IsSound.part {part lexemes : List Lexeme} (h : IsSound lineComments lexemes)
    (hpart : part <:+: lexemes) : IsSound lineComments part := by
  obtain ⟨follow, hsound⟩ := h
  obtain ⟨front, back, rfl⟩ := hpart
  exact ⟨_, hsound.append_left.append_right⟩

theorem IsSound.kept {lexemes : List Lexeme} (h : IsSound lineComments lexemes) :
    ∀ lexeme ∈ lexemes, TokenRun.isKept lexeme.token = true := by
  obtain ⟨follow, hsound⟩ := h
  exact hsound.kept

/-- The run of closed lexemes is scanned as its tokens. -/
theorem IsSound.stands {lexemes : List Lexeme} (h : IsSound lineComments lexemes)
    (hclosed : IsClosed lexemes) : (TokenRun.ofLexemes lexemes).Stands lineComments := by
  obtain ⟨follow, hsound⟩ := h
  exact ⟨fun _ hy => TokenRun.areScanned_ofLexemes hsound hclosed hy,
    TokenRun.isClosed_ofLexemes hclosed⟩

namespace IsRead

variable {lexeme : Lexeme} {x : Text}

/-- What a string holds can be written between its quotes. -/
theorem forall_of_string (h : IsRead lineComments lexeme x) (hplain : '\\' ∉ lexeme.raw ++ x)
    {content : Text} {quote : Quote} (htoken : lexeme.token = .string content quote) :
    '\\' ∉ content ∧ ∀ c ∈ content, c ≠ quote.toChar ∧ isNewline c = false := by
  have hread := h.spells_or_isOpen (by rw [htoken]; rfl) (by rw [isTrivia, htoken]; rfl) hplain
  have hraw : '\\' ∉ lexeme.raw := fun hmem => hplain (List.mem_append_left _ hmem)
  generalize lexeme.raw ++ x = text at hread hplain
  generalize lexeme.raw = raw at hread hraw
  rw [htoken] at hread
  have hlength : '\\' ∉ content ∧
      ∃ follow, chainLength (stringUnit quote) (content ++ follow) = content.length := by
    obtain hspells | hopen := hread
    · cases hspells with
      | single hchar =>
        exact absurd (Token.toText_of_ofChar? hchar .pretty)
          (by simp [Token.toText, Quote.enclose, Text.enclosed])
      | string hcontent => exact ⟨fun hmem => hraw (by simp [hmem]), _, hcontent⟩
    · cases hopen with
      | string htext hcontent =>
        exact ⟨fun hmem => hplain (by simp [htext, hmem]), [], by rwa [List.append_nil]⟩
  obtain ⟨hcontent, follow, hlength⟩ := hlength
  exact ⟨hcontent, forall_of_stringLength hcontent hlength⟩

/-- The name of a token that is spelled where it stands is a name without escapes. -/
theorem isIdentifier_ident (h : IsRead lineComments lexeme x) (hplain : '\\' ∉ lexeme.raw)
    {name : Text} (htoken : lexeme.token = .ident name) : name.isIdentifier = true := by
  have hspells := h.spells_of_sound (fun problem hreads => by rw [htoken] at hreads; cases hreads)
    (by simp [htoken])
  rw [htoken] at hspells
  generalize lexeme.raw = raw at hspells hplain
  cases hspells with
  | single hchar => exact absurd (Token.isPlain_of_ofChar? hchar).2 (Option.some_ne_none name)
  | ident hstarts hends => exact Text.isIdentifier_of_nameEnds hplain hstarts hends

theorem isIdentifier_hash (h : IsRead lineComments lexeme x) (hplain : '\\' ∉ lexeme.raw)
    {name : Text} (htoken : lexeme.token = .hash name true) : name.isIdentifier = true := by
  have hspells := h.spells_of_sound (fun problem hreads => by rw [htoken] at hreads; cases hreads)
    (by simp [htoken])
  generalize lexeme.raw = raw at hspells hplain
  generalize lexeme.token = token at hspells htoken
  cases hspells with
  | single hchar =>
    rw [htoken] at hchar
    exact absurd (Token.isPlain_of_ofChar? hchar).2 (Option.some_ne_none name)
  | hash hne hends =>
    obtain ⟨rfl, hstarts⟩ := Token.hash.inj htoken
    exact Text.isIdentifier_of_nameEnds (fun hmem => hplain (List.mem_cons_of_mem _ hmem)) hstarts
      hends
  | _ => contradiction

/-- The name of a function is one without escapes, that of a quoted url too. -/
theorem isIdentifier_function (h : IsRead lineComments lexeme x) (hplain : '\\' ∉ lexeme.raw)
    {name : Text} (htoken : lexeme.token = .function name) : name.isIdentifier = true := by
  have hspells := h.spells_function htoken
  generalize lexeme.raw = raw at hspells hplain
  cases hspells with
  | single hchar =>
    unfold Token.ofChar? at hchar
    split at hchar <;> simp at hchar
  | function hstarts hends =>
    exact Text.isIdentifier_of_nameEnds (fun hmem => hplain (List.mem_append_left _ hmem)) hstarts
      hends
  | quotedUrl hname =>
    obtain ⟨hends, hstarts, -⟩ := @Token.nameEnds_url _ hname [] rfl
    exact Text.isIdentifier_of_nameEnds (fun hmem => hplain (List.mem_append_left _ hmem)) hstarts
      hends

end IsRead

/-- A lexeme that stands among others is what is read there. -/
theorem IsSound.isRead {lexemes : List Lexeme} (h : IsSound lineComments lexemes) {lexeme : Lexeme}
    (hmem : lexeme ∈ lexemes) : ∃ x, IsRead lineComments lexeme x ∧ '\\' ∉ lexeme.raw ++ x := by
  obtain ⟨front, back, rfl⟩ := List.append_of_mem hmem
  obtain ⟨follow, hsound⟩ := h.part (List.suffix_append front (lexeme :: back)).isInfix
  refine ⟨_, hsound.read.1, ?_⟩
  rw [← List.append_assoc, ← text_cons]
  exact hsound.plain

theorem IsSound.isIdentifier_of_mem {lexemes : List Lexeme} (h : IsSound lineComments lexemes)
    {lexeme : Lexeme} (hmem : lexeme ∈ lexemes) {name : Text}
    (htoken : lexeme.token = .ident name) :
    name.isIdentifier = true := by
  obtain ⟨x, hread, hplain⟩ := h.isRead hmem
  exact hread.isIdentifier_ident (fun hmem => hplain (List.mem_append_left x hmem)) htoken

/-- Where a quote follows, the first token in front of a closing bracket is a string. -/
theorem AreSound.exists_string {inner rest : List Lexeme} {closer : Lexeme} {x : Text}
    (h : AreSound lineComments (inner ++ closer :: rest) x) (hcloser : closer.token.closes? ≠ none)
    {q : Char} {more : Text} (hstarts : text (inner ++ closer :: rest) ++ x = q :: more)
    (hquote : isQuote q = true) :
    ∃ content quote behind, next? inner = some (.string content quote, behind) := by
  cases inner with
  | nil =>
    rw [List.nil_append, text_cons, List.append_assoc] at hstarts
    obtain ⟨content, quote, hstring⟩ :=
      h.read.1.exists_string (h.kept _ List.mem_cons_self) hstarts hquote
    exact absurd (congrArg Token.closes? hstring) hcloser
  | cons lexeme inner =>
    rw [List.cons_append, text_cons, List.append_assoc] at hstarts
    obtain ⟨content, quote, hstring⟩ :=
      h.read.1.exists_string (h.kept _ List.mem_cons_self) hstarts hquote
    refine ⟨content, quote, inner, ?_⟩
    rw [next?_of_not_isTrivia (by rw [isTrivia, hstring]; rfl), hstring]

/-- The first token between the brackets of a quoted url is its string. -/
theorem IsSound.exists_string {opener closer : Lexeme} {inner rest : List Lexeme} {name : Text}
    (h : IsSound lineComments (opener :: (inner ++ closer :: rest)))
    (htoken : opener.token = .function name) (hurl : name.isKeyword "url" = true)
    (hcloser : closer.token.closes? ≠ none) :
    ∃ content quote behind, next? inner = some (.string content quote, behind) := by
  obtain ⟨x, h⟩ := h
  have hspells := h.read.1.spells_function htoken
  have hopens : ∃ blanks, Token.OpensString blanks (text (inner ++ closer :: rest) ++ x) := by
    generalize opener.raw = raw at hspells
    cases hspells with
    | single hchar =>
      exact absurd ((Token.isPlain_of_ofChar? hchar).1.symm.trans hurl) Bool.noConfusion
    | function _ _ hother => exact absurd (hother.symm.trans hurl) Bool.noConfusion
    | quotedUrl _ _ hopens => exact ⟨_, hopens⟩
  obtain ⟨blanks, ⟨-, q, more, hstarts, hquote⟩ | ⟨b, q, more, hstarts, hblank, hquote⟩⟩ := hopens
  · exact h.tail.exists_string hcloser hstarts hquote
  · cases inner with
    | nil =>
      rw [List.nil_append, text_cons, List.append_assoc] at hstarts
      have hspace := (h.tail.read.1.eq_whitespace hstarts hblank hquote).1
      exact absurd (congrArg Token.closes? hspace) hcloser
    | cons lexeme inner =>
      rw [List.cons_append, text_cons, List.append_assoc] at hstarts
      obtain ⟨hspace, hrest⟩ := h.tail.read.1.eq_whitespace hstarts hblank hquote
      rw [next?_of_isTrivia (by rw [isTrivia, hspace]; rfl)]
      exact h.tail.tail.exists_string hcloser hrest hquote

/-- A name that was read is a word. -/
theorem isWord_of_next? {lexemes rest : List Lexeme} {name : Text}
    (h : IsSound lineComments lexemes) (hnext : next? lexemes = some (.ident name, rest)) :
    name.IsWord lineComments := by
  obtain ⟨front, lexeme, rfl, htoken, htrivia, -⟩ := exists_of_next? hnext
  obtain ⟨follow, hsound⟩ := h.part (List.suffix_append front (lexeme :: rest)).isInfix
  have hplain := hsound.plain
  rw [text_cons, List.append_assoc] at hplain
  intro y hy
  have hspells := hsound.read.1.spells_toText (hsound.kept _ List.mem_cons_self) htrivia
    (hsound.ne_url _ List.mem_cons_self) hplain (Alike.of_separates hy _)
    (fun _ _ hfunction => by
      rw [htoken] at hfunction
      contradiction)
  rw [htoken] at hspells
  exact hspells

end Lexeme

end Css
