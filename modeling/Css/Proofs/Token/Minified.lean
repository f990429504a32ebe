import Css.Proofs.Token.Reduced
import Css.Proofs.Token.Roundtrip

/-!
# Token runs in fewest characters

Minified output leaves out whitespace beside brackets, commas and colons and writes numbers by their
values. Where no token goes on with what then stands behind it (`TokenRun.keepsApart`), the run is
read with the same tokens, numbers by their values (`TokenRun.solid_toText`). There are runs where
one does, as `1` and `-0`, whose zero loses its sign (`TokenRun.not_solid_toText`).
-/

namespace Css

theorem Lexeme.tokens_map_bare (lexemes : List Lexeme) :
    tokens (lexemes.map bare) = tokens lexemes := by
  rw [tokens, tokens, List.map_map]
  rfl

/-- What is scanned as a token that is written to be read is spelled so. -/
theorem Lexeme.IsScanned.spells {lineComments : Bool} {token : Token} {x : Text}
    (h : IsScanned lineComments ⟨token, .point 0, token.toText .pretty⟩ x) :
    Token.Spells lineComments x token (token.toText .pretty) := by
  obtain ⟨c, cs, hraw, hscan⟩ := h
  have hcomment : ∀ content, token ≠ .comment content := by
    rintro content rfl
    contradiction
  have hspelled := @Token.isSpelled_scan lineComments c (cs ++ x) (by rw [hscan])
    (by rw [hscan]; exact hcomment)
  rw [Token.Scan.IsSpelled, hscan, ← List.cons_append, ← hraw] at hspelled
  rwa [List.take_left, List.drop_left] at hspelled

namespace TokenRun

open Lexeme

def keepsApart : TokenRun → Bool
  | [] => true
  | token :: run => !token.joins (run.flatMap (Token.toText .minified)) && keepsApart run

def solid (run : TokenRun) : TokenRun := (run.filter (· ≠ .whitespace)).map Token.valued

variable {lineComments : Bool}

theorem areScanned_cons_iff {token : Token} {run : TokenRun} :
    AreScanned lineComments (toLexemes (token :: run)) [] ↔
      Token.Spells lineComments (text run.toLexemes) token (token.toText .pretty) ∧
        AreScanned lineComments run.toLexemes [] := by
  rw [← List.append_nil (text run.toLexemes)]
  exact ⟨fun h => ⟨h.1.spells, h.2⟩, fun h => ⟨.of_spells h.1, h.2⟩⟩

/-- A run that is scanned as its own tokens is what its text is read as. -/
theorem tokens_all {run : TokenRun} (h : AreScanned lineComments run.toLexemes []) :
    tokens ((Reading.all lineComments 0 (Lexeme.text run.toLexemes)).map (·.lexeme)) = run := by
  have hread := congrArg tokens (Reading.bare_all h.isRead 0)
  rwa [tokens_map_bare, tokens_map_bare, tokens_toLexemes] at hread

theorem tokens_rest (lineComments : Bool) (text : Text) :
    tokens (Tokenizer.ofText lineComments text).rest.1 =
      tokens ((Reading.all lineComments 0 text).map (·.lexeme)) ++ [.eof] := List.map_append

theorem text_minified (run : TokenRun) :
    text (toLexemes (run.map Token.minified)) = run.flatMap (Token.toText .minified) := by
  induction run with
  | nil => rfl
  | cons token run ih =>
    rw [List.map_cons, toLexemes_cons, text_cons, ih, Token.toText_minified, List.flatMap_cons]

/-! ### Whitespace that is left out -/

theorem squeeze_cons_of_ne {token : Token} (h : token ≠ .whitespace) (after : Bool)
    (run : TokenRun) : squeeze after (token :: run) = token :: squeeze (absorbsAfter token) run :=
  if_neg fun hgone => h hgone.1

theorem toText_ne_of_absorbsAfter {token : Token} (h : absorbsAfter token = true) :
    token.toText .pretty ≠ ['-'] ∧ token.toText .pretty ≠ ['!'] := by
  unfold absorbsAfter at h
  split at h
  · decide
  · simp [Token.toText, List.append_eq_singleton_iff]
  · decide
  · decide
  · decide
  · contradiction

/-- What absorbs the whitespace in front of it is a separator. -/
theorem separates_squeeze {run : TokenRun} (h : (run.head?.map absorbsBefore).getD false = true)
    (after : Bool) :
    ∃ c rest, (squeeze after run).flatMap (Token.toText .minified) = c :: rest ∧
      isSeparator c = true ∧ isBlank c = false := by
  cases run with
  | nil => contradiction
  | cons token run =>
    have habsorbs : absorbsBefore token = true := h
    have hspace : token ≠ .whitespace := by
      rintro rfl
      contradiction
    rw [squeeze_cons_of_ne hspace, List.flatMap_cons]
    unfold absorbsBefore at habsorbs
    split at habsorbs
    · exact ⟨')', _, rfl, by decide, by decide⟩
    · exact ⟨']', _, rfl, by decide, by decide⟩
    · exact ⟨',', _, rfl, by decide, by decide⟩
    · contradiction

/-- Where a run starts with a string, it does so in fewest characters. -/
theorem exists_quote_squeeze {run : TokenRun} {q : Char} {rest : Text}
    (h : AreScanned lineComments run.toLexemes []) (hstarts : text run.toLexemes = q :: rest)
    (hquote : isQuote q = true) (after : Bool) :
    ∃ q rest, (squeeze after run).flatMap (Token.toText .minified) = q :: rest ∧
      isQuote q = true := by
  cases run with
  | nil => contradiction
  | cons token run =>
    have hkept : isKept token = true := by
      obtain ⟨c, cs, hraw, -⟩ := h.1
      cases token <;> first | rfl | contradiction
    rw [toLexemes_cons, text_cons] at hstarts
    have hread := h.isRead.1
    rw [List.append_nil] at hread
    obtain ⟨content, quote, rfl⟩ := hread.exists_string hkept hstarts hquote
    rw [squeeze_cons_of_ne Token.noConfusion, List.flatMap_cons]
    exact ⟨quote.toChar, _, rfl, isQuote_toChar quote⟩

/-- The string of a quoted url stands right behind its bracket. -/
theorem opensString_squeeze {run : TokenRun} {blanks : Text}
    (h : AreScanned lineComments run.toLexemes [])
    (hopens : Token.OpensString blanks (text (toLexemes run))) :
    Token.OpensString [] ((squeeze true run).flatMap (Token.toText .minified)) := by
  refine .inl ⟨rfl, ?_⟩
  obtain ⟨-, q, rest, hstarts, hquote⟩ | ⟨b, q, rest, hstarts, hblank, hquote⟩ := hopens
  · exact exists_quote_squeeze h hstarts hquote true
  · cases run with
    | nil => contradiction
    | cons token run =>
      have hread := h.isRead.1
      rw [List.append_nil] at hread
      rw [toLexemes_cons, text_cons] at hstarts
      obtain ⟨rfl, hrest⟩ := hread.eq_whitespace hstarts hblank hquote
      rw [squeeze, if_pos ⟨rfl, .inl rfl⟩]
      exact exists_quote_squeeze h.2 hrest hquote false

/-! ### Scanning minified runs -/

/-- A run is scanned as its own tokens in fewest characters where none of them goes on with what
stands behind it. -/
theorem areScanned_minified {run : TokenRun} (h : AreScanned lineComments run.toLexemes [])
    {after : Bool} (hapart : keepsApart (squeeze after run) = true) :
    AreScanned lineComments (toLexemes ((squeeze after run).map Token.minified)) [] ∧
      (after = false →
        Reduces (text run.toLexemes) ((squeeze after run).flatMap (Token.toText .minified))) := by
  induction run generalizing after with
  | nil => exact ⟨trivial, fun _ => .of_separates (fun _ h => by contradiction)
      (fun _ h => by contradiction) _⟩
  | cons token run ih =>
    obtain ⟨hspells, hrest⟩ := areScanned_cons_iff.1 h
    by_cases hgone : token = .whitespace ∧
      (after = true ∨ (run.head?.map absorbsBefore).getD false = true)
    · rw [squeeze, if_pos hgone] at hapart ⊢
      refine ⟨(ih hrest hapart).1, ?_⟩
      rintro rfl
      obtain ⟨c, rest, htext, hseparates, hblank⟩ :=
        separates_squeeze (hgone.2.resolve_left Bool.false_ne_true) false
      rw [htext]
      refine .of_separates (separates_cons hseparates rest) (fun d hd => ?_) _
      rwa [← Option.some.inj hd]
    · rw [squeeze, if_neg hgone, keepsApart, Bool.and_eq_true, Bool.not_eq_true'] at hapart
      rw [squeeze, if_neg hgone]
      obtain ⟨hjoins, hapart⟩ := hapart
      obtain ⟨hscanned, hreduces⟩ := ih hrest hapart
      refine ⟨areScanned_cons_iff.2 ⟨?_, hscanned⟩, fun _ => ?_⟩
      · rw [text_minified, Token.toText_minified]
        cases habsorbs : absorbsAfter token with
        | false =>
          rw [habsorbs] at hjoins hreduces
          exact hspells.minified rfl habsorbs (hreduces rfl) hjoins
        | true =>
          refine hspells.of_absorbsAfter habsorbs fun name htoken hname => ?_
          subst htoken
          exact opensString_squeeze hrest (hspells.opensString hname rfl)
      · rw [toLexemes_cons, text_cons, List.flatMap_cons]
        refine hspells.reduces rfl fun hsign => hreduces (Bool.eq_false_iff.2 fun habsorbs => ?_)
        obtain ⟨hhyphen, hmark⟩ := toText_ne_of_absorbsAfter habsorbs
        exact hsign.elim hhyphen hmark

theorem mem_squeeze {after : Bool} {run : TokenRun} {token : Token}
    (h : token ∈ squeeze after run) : token ∈ run := by
  induction run generalizing after with
  | nil => exact h
  | cons first run ih =>
    rw [squeeze] at h
    split at h
    · exact List.mem_cons_of_mem _ (ih h)
    · obtain rfl | h := List.mem_cons.1 h
      · exact List.mem_cons_self
      · exact List.mem_cons_of_mem _ (ih h)

theorem exists_spells {run : TokenRun} (h : AreScanned lineComments run.toLexemes []) :
    ∀ token ∈ run, ∃ x raw, Token.Spells lineComments x token raw := by
  induction run with
  | nil => exact List.forall_mem_nil _
  | cons token run ih =>
    obtain ⟨hspells, hrest⟩ := areScanned_cons_iff.1 h
    exact List.forall_mem_cons.2 ⟨⟨_, _, hspells⟩, ih hrest⟩

theorem keepsApart_of_areScanned {run : TokenRun}
    (hrun : ∀ token ∈ run, ∃ x raw, Token.Spells lineComments x token raw)
    (h : AreScanned lineComments (toLexemes (run.map Token.minified)) []) :
    keepsApart run = true := by
  induction run with
  | nil => rfl
  | cons token run ih =>
    obtain ⟨⟨x, raw, htoken⟩, hrun⟩ := List.forall_mem_cons.1 hrun
    obtain ⟨hspells, hrest⟩ := areScanned_cons_iff.1 h
    rw [text_minified, Token.toText_minified] at hspells
    rw [keepsApart, htoken.joins_eq_false hspells, ih hrun hrest]
    rfl

/-- A run is scanned as its own tokens in fewest characters where none of them goes on with what
stands behind it, and only there. -/
theorem areScanned_minified_iff {run : TokenRun} (h : AreScanned lineComments run.toLexemes [])
    (after : Bool) :
    AreScanned lineComments (toLexemes ((squeeze after run).map Token.minified)) [] ↔
      keepsApart (squeeze after run) = true :=
  ⟨keepsApart_of_areScanned fun token hmem => exists_spells h token (mem_squeeze hmem),
    fun hapart => (areScanned_minified h hapart).1⟩

/-! ### Reading minified runs -/

theorem solid_append (left right : TokenRun) :
    solid (left ++ right) = solid left ++ solid right := by
  rw [solid, List.filter_append, List.map_append]
  rfl

theorem solid_cons (token : Token) (run : TokenRun) :
    solid (token :: run) = solid [token] ++ solid run := solid_append [token] run

/-- The tokens in fewest characters are those of the run. -/
theorem solid_minified {run : TokenRun} (h : AreScanned lineComments run.toLexemes [])
    (after : Bool) : solid ((squeeze after run).map Token.minified) = solid run := by
  induction run generalizing after with
  | nil => rfl
  | cons token run ih =>
    obtain ⟨hspells, hrest⟩ := areScanned_cons_iff.1 h
    rw [squeeze]
    split
    · rename_i hgone
      rw [ih hrest, hgone.1]
      rfl
    · have htoken : solid [token.minified] = solid [token] := by
        by_cases hspace : token = .whitespace
        · rw [hspace]
          rfl
        · have hspace' : token.minified ≠ .whitespace := fun heq =>
            hspace (Token.minified_eq_whitespace.1 heq)
          simp [solid, hspace, hspace', hspells.valued_minified]
      rw [List.map_cons, solid_cons, ih hrest, htoken, ← solid_cons]

/-- The minified run of a text without backslashes, in which nothing is cut short and no url is
empty, is read with the same tokens if none of them goes on with what stands behind it. -/
theorem solid_toText (lineComments : Bool) (text : Text) (hplain : '\\' ∉ text)
    (hsound : ∀ lexeme ∈ (Tokenizer.ofText lineComments text).rest.1,
      lexeme.token.isBad = false ∧ lexeme.token ≠ .url [])
    (hapart : keepsApart (squeeze false
      (ofLexemes (Tokenizer.ofText lineComments text).rest.1)) = true) :
    solid (tokens (Tokenizer.ofText lineComments
        ((ofLexemes (Tokenizer.ofText lineComments text).rest.1).toText .minified)).rest.1) =
      solid (ofLexemes (Tokenizer.ofText lineComments text).rest.1) ++ [.eof] := by
  have hlexemes : AreSound lineComments ((Reading.all lineComments 0 text).map (·.lexeme)) [] :=
    Reading.areSound_all hplain fun reading hmem =>
      hsound reading.lexeme (List.mem_append_left _ (List.mem_map_of_mem hmem))
  rw [ofLexemes_rest] at hapart ⊢
  have hscanned := areScanned_ofLexemes_all hlexemes
  generalize ofLexemes ((Reading.all lineComments 0 text).map (·.lexeme)) = run at *
  have htext : run.toText .minified =
      Lexeme.text (toLexemes ((squeeze false run).map Token.minified)) := (text_minified _).symm
  rw [tokens_rest, htext, tokens_all ((areScanned_minified_iff hscanned false).2 hapart),
    solid_append, solid_minified hscanned]
  rfl

/-- Signs at the front of numbers, points and exponents keep numbers apart from what stands in
front of them where they are written. -/
theorem solid_toText_signed :
    solid (tokens (Tokenizer.ofText true ((ofLexemes (Tokenizer.ofText true
        "f( +1-2.50px ) , url( 'a' )1.0-.5%a -0e3 [ #b+.5 ] 1e3 x".toList).rest.1).toText
          .minified)).rest.1) =
      solid (ofLexemes (Tokenizer.ofText true
        "f( +1-2.50px ) , url( 'a' )1.0-.5%a -0e3 [ #b+.5 ] 1e3 x".toList).rest.1) ++ [.eof] :=
  solid_toText true _ (by decide +kernel) (by decide +kernel) (by decide +kernel)

/-- A zero loses the sign that kept it apart from the number in front of it. -/
theorem not_solid_toText :
    let run := ofLexemes (Tokenizer.ofText true "1-0".toList).rest.1
    run.toText .minified = "10".toList ∧
      solid (tokens (Tokenizer.ofText true (run.toText .minified)).rest.1) ≠
        solid run ++ [.eof] := by
  decide +kernel

end TokenRun

end Css
