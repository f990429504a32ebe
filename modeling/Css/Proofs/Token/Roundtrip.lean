import Css.Proofs.Token.Iteration
import Css.Proofs.Token.Respaced

/-!
# Token runs survive printing

The run of a text is tidy (`TokenRun.IsTidy`): whitespace stands alone and between two tokens, and
nothing else in it is left out by printing. Where the text has no backslash, nothing in it is cut
short and no url in it is empty, the run is what is read from its own text
(`TokenRun.ofLexemes_toText`).
-/

namespace Css

open Lexeme

namespace TokenRun

variable {lineComments : Bool}

/-! ### Tidy runs -/

theorem exists_of_getLast?_collapse {gap : Bool} {lexemes : List Lexeme} {token : Token}
    (h : (collapse gap (tokens lexemes)).getLast? = some token) :
    ∃ front lexeme behind, lexemes = front ++ lexeme :: behind ∧ lexeme.token = token ∧
      isVoid behind = true := by
  induction lexemes generalizing gap with
  | nil => contradiction
  | cons lexeme lexemes ih =>
    have hbehind : ∀ {gap : Bool}, (collapse gap (tokens lexemes)).getLast? = some token →
        ∃ front last behind, lexeme :: lexemes = front ++ last :: behind ∧ last.token = token ∧
          isVoid behind = true := by
      intro gap hlast
      obtain ⟨front, last, behind, rfl, htoken, hvoid⟩ := ih hlast
      exact ⟨lexeme :: front, last, behind, rfl, htoken, hvoid⟩
    rw [tokens, List.map_cons] at h
    cases htrivia : lexeme.isTrivia with
    | true =>
      rw [collapse_trivia htrivia] at h
      exact hbehind h
    | false =>
      have hlast : (lexeme.token :: collapse false (tokens lexemes)).getLast? = some token := by
        rw [collapse_token htrivia] at h
        cases gap with
        | true =>
          rw [if_pos rfl, List.getLast?_cons_cons] at h
          exact h
        | false => exact h
      rw [List.getLast?_cons] at hlast
      cases hrest : (collapse false (tokens lexemes)).getLast? with
      | some found =>
        rw [hrest] at hlast
        exact hbehind (hrest.trans hlast)
      | none =>
        rw [hrest] at hlast
        have hnext := next?_collapse false lexemes
        rw [List.getLast?_eq_none_iff.1 hrest] at hnext
        exact ⟨[], lexeme, lexemes, rfl, Option.some.inj hlast,
          next?_eq_none (Option.map_eq_none_iff.1 hnext.symm)⟩

/-- Trivia at the end of a text do not start like the string of a url. -/
theorem not_opensString {trivia : List Lexeme} (hread : EachStands (IsRead lineComments) trivia [])
    (hvoid : isVoid trivia = true) (blanks : Text) : ¬Token.OpensString blanks (text trivia) := by
  have hfirst : ∀ {lexeme : Lexeme} {behind : List Lexeme} {q : Char} {rest : Text},
      EachStands (IsRead lineComments) (lexeme :: behind) [] →
        isVoid (lexeme :: behind) = true → text (lexeme :: behind) = q :: rest →
          isQuote q = false := by
    intro lexeme behind q rest hread hvoid hstarts
    have hstarts' : lexeme.raw ++ (text behind ++ []) = q :: rest := by
      rw [List.append_nil, ← hstarts, text_cons]
    exact hread.1.isQuote_head (List.all_eq_true.1 hvoid lexeme List.mem_cons_self) hstarts'
  rintro (⟨-, q, rest, hstarts, hquote⟩ | ⟨b, q, rest, hstarts, hblank, hquote⟩)
  · cases trivia with
    | nil => contradiction
    | cons lexeme behind => simp [hfirst hread hvoid hstarts] at hquote
  · cases trivia with
    | nil => contradiction
    | cons lexeme behind =>
      have hstarts' : lexeme.raw ++ (text behind ++ []) = b :: q :: rest := by
        rw [List.append_nil, ← hstarts, text_cons]
      have hspace := hread.1.eq_whitespace hstarts' hblank hquote
      rw [List.append_nil] at hspace
      have hbehind : isVoid behind = true :=
        List.all_eq_true.2 fun lexeme hmem =>
          List.all_eq_true.1 hvoid lexeme (List.mem_cons_of_mem _ hmem)
      cases behind with
      | nil => exact absurd hspace.2 (by simp)
      | cons next behind => simp [hfirst hread.2 hbehind hspace.2] at hquote

/-- A text does not end behind the bracket of a quoted url, since its string belongs to it. -/
theorem not_url_of_getLast? {lexemes : List Lexeme} {gap : Bool} {name : Text}
    (h : EachStands (IsRead lineComments) lexemes [])
    (hlast : (collapse gap (tokens lexemes)).getLast? = some (.function name)) :
    name.isKeyword "url" = false := by
  obtain ⟨front, lexeme, trivia, rfl, htoken, hvoid⟩ := exists_of_getLast?_collapse hlast
  obtain ⟨hread, hbehind⟩ := (eachStands_append.1 h).2
  have hspells := hread.spells_function htoken
  rw [List.append_nil] at hspells
  generalize lexeme.raw = raw at hspells
  cases hspells with
  | single hchar => exact (Token.isPlain_of_ofChar? hchar).1
  | function _ _ hname => exact hname
  | quotedUrl _ _ hopens => exact absurd hopens (not_opensString hbehind hvoid _)

/-! ### The round trip -/

/-- The end of a text has no place in a run. -/
theorem ofLexemes_atEnd (lexemes : List Lexeme) (place : Nat) :
    ofLexemes (lexemes ++ [Lexeme.atEnd place]) = ofLexemes lexemes := by
  rw [ofLexemes, tokens, List.map_append, List.filter_append]
  have hend : ([Lexeme.atEnd place].map (·.token)).filter isKept = [] := rfl
  rw [hend, List.append_nil]
  rfl

theorem ofLexemes_rest (lineComments : Bool) (text : Text) :
    ofLexemes (Tokenizer.ofText lineComments text).rest.1 =
      ofLexemes ((Reading.all lineComments 0 text).map (·.lexeme)) :=
  ofLexemes_atEnd ..

theorem areScanned_ofLexemes_all {lexemes : List Lexeme} (h : AreSound lineComments lexemes []) :
    AreScanned lineComments (ofLexemes lexemes).toLexemes [] := by
  rw [ofLexemes_eq_collapse h.kept]
  rw [← List.takeWhile_append_dropWhile (p := Lexeme.isTrivia) (l := lexemes)] at h
  have hsound : AreSound lineComments (dropTrivia lexemes) [] := h.append_right
  exact areScanned_collapse hsound (fun _ hmem => by contradiction) false
    fun _ => not_url_of_getLast? hsound.read

end TokenRun

end Css
