import Css.Proofs.Token.Faults
import Css.Proofs.Token.Level
import Css.Proofs.Token.Plain

/-!
# Runs that are written and read again

A run was read from lexemes that stood side by side in a text. Written to be read, its tokens are
scanned as what they are (`TokenRun.areScanned_ofLexemes`): each of them is followed by what it was
followed by, or by a space where there were trivia. This holds in a text without backslashes, if
nothing in it is cut short and no url in it is empty.
-/

namespace Css

namespace Lexeme

variable {lineComments : Bool}

/-- Whether a lexeme is what is read where its characters stand and some text follows. -/
def IsRead (lineComments : Bool) (lexeme : Lexeme) (follow : Text) : Prop :=
  ∃ c cs, lexeme.raw = c :: cs ∧
    (Token.scan lineComments c (cs ++ follow)).token = lexeme.token ∧
    (Token.scan lineComments c (cs ++ follow)).length = lexeme.raw.length

namespace IsRead

variable {lexeme : Lexeme} {x : Text}

/-- A token that has no faults is spelled by its characters. -/
theorem spells_of_sound (h : IsRead lineComments lexeme x)
    (hsound : ∀ problem, ¬lexeme.token.Reads (some problem))
    (hcomment : ∀ content, lexeme.token ≠ .comment content) :
    Token.Spells lineComments x lexeme.token lexeme.raw := by
  obtain ⟨c, cs, hraw, htoken, hlength⟩ := h
  have hproblem : (Token.scan lineComments c (cs ++ x)).problem = none := by
    have hreads := Token.reads_scan lineComments c (cs ++ x)
    rw [htoken] at hreads
    cases hproblem : (Token.scan lineComments c (cs ++ x)).problem with
    | none => rfl
    | some problem =>
      rw [hproblem] at hreads
      exact absurd hreads (hsound problem)
  have hspelled := Token.isSpelled_scan lineComments hproblem (by rwa [htoken])
  rwa [Token.Scan.IsSpelled, htoken, hlength, ← List.cons_append, ← hraw, List.take_left,
    List.drop_left] at hspelled

theorem spells_or_isOpen (h : IsRead lineComments lexeme x) (hkept : TokenRun.isKept lexeme.token)
    (htrivia : lexeme.isTrivia = false) (hplain : '\\' ∉ lexeme.raw ++ x) :
    Token.Spells lineComments x lexeme.token lexeme.raw ∨
      Token.IsOpen (lexeme.raw ++ x) lexeme.token := by
  obtain ⟨c, cs, hraw, htoken, hlength⟩ := h
  rw [Lexeme.isTrivia, ← htoken] at htrivia
  cases hproblem : (Token.scan lineComments c (cs ++ x)).problem with
  | none =>
    have hspelled := Token.isSpelled_scan lineComments hproblem fun content heq => by
      rw [heq] at htrivia
      contradiction
    rw [Token.Scan.IsSpelled, htoken, hlength, ← List.cons_append, ← hraw, List.take_left,
      List.drop_left] at hspelled
    exact .inl hspelled
  | some problem =>
    have hc : c ≠ '\\' := by
      rintro rfl
      exact hplain (by simp [hraw])
    have hopen := Token.isOpen_scan hc htrivia hproblem
    rw [htoken, ← List.cons_append, ← hraw] at hopen
    refine .inr (hopen.resolve_left ?_)
    intro hbad
    simp [TokenRun.isKept, hbad] at hkept

/-- A token is spelled by what is written for it, if what follows now goes on with no token that the
old text did not go on with. -/
theorem spells_toText (h : IsRead lineComments lexeme x) (hkept : TokenRun.isKept lexeme.token)
    (htrivia : lexeme.isTrivia = false) (hurl : lexeme.token ≠ .url [])
    (hplain : '\\' ∉ lexeme.raw ++ x) {y : Text} (halike : Alike x y)
    (hopens : ∀ name blanks, lexeme.token = .function name → name.isKeyword "url" = true →
      Token.OpensString blanks x → Token.OpensString [] y) :
    Token.Spells lineComments y lexeme.token (lexeme.token.toText .pretty) := by
  obtain hspells | hopen := h.spells_or_isOpen hkept htrivia hplain
  · refine hspells.reprint ?_ hurl (fun hmem => hplain (List.mem_append_left x hmem)) halike hopens
    intro hspace
    rw [Lexeme.isTrivia, hspace] at htrivia
    contradiction
  · exact hopen.spells hplain hurl y

/-- A token is written as it was read, or it starts in a way that goes on with nothing new. -/
theorem toText_eq_or_diverges (h : IsRead lineComments lexeme x)
    (hkept : TokenRun.isKept lexeme.token) (htrivia : lexeme.isTrivia = false)
    (hplain : '\\' ∉ lexeme.raw ++ x) :
    lexeme.token.toText .pretty = lexeme.raw ∨
      ∀ p q, Diverges (lexeme.raw ++ p) (lexeme.token.toText .pretty ++ q) := by
  have hstarts : ∀ {text q : Text}, StartsUrl text → StartsUrl (text ++ q) := by
    intro text q h
    cases text with
    | nil => exact absurd h (by simp [StartsUrl])
    | cons c text => exact h
  obtain hspells | hopen := h.spells_or_isOpen hkept htrivia hplain
  · by_cases hkind : lexeme.token.IsPlain
    · exact .inl (hspells.toText_eq hkind)
    · have hspace : lexeme.token ≠ .whitespace := by
        intro hspace
        rw [Lexeme.isTrivia, hspace] at htrivia
        contradiction
      obtain ⟨hraw, htext⟩ := hspells.startsUrl hspace hkind
      exact .inr fun p q => .inr ⟨hstarts hraw, hstarts htext⟩
  · right
    intro p q
    obtain ⟨c, cs, hraw, -⟩ := h
    generalize lexeme.token = token at hopen ⊢
    cases hopen with
    | @string content quote =>
      refine .inl (.inl ?_)
      intro c hc
      obtain rfl := Option.some.inj hc
      cases quote <;> rfl
    | url hfront =>
      rw [hraw] at hfront ⊢
      exact .inr ⟨hfront, .inl rfl⟩

/-- What starts with a quote is a string. -/
theorem exists_string (h : IsRead lineComments lexeme x) (hkept : TokenRun.isKept lexeme.token)
    {q : Char} {rest : Text} (hstarts : lexeme.raw ++ x = q :: rest) (hquote : isQuote q = true) :
    ∃ content quote, lexeme.token = .string content quote := by
  obtain ⟨c, cs, hraw, htoken, -⟩ := h
  rw [hraw] at hstarts
  obtain rfl := (List.cons.inj hstarts).1
  obtain ⟨quote, rfl⟩ : ∃ quote : Quote, c = quote.toChar := by
    obtain rfl | rfl : c = '"' ∨ c = '\'' := by simpa [isQuote] using hquote
    · exact ⟨.double, rfl⟩
    · exact ⟨.single, rfl⟩
  rw [Token.scan_quote] at htoken
  unfold Token.scanString at htoken
  simp only at htoken
  split at htoken
  · exact ⟨_, _, htoken.symm⟩
  split at htoken
  · exact ⟨_, _, htoken.symm⟩
  · rw [← htoken] at hkept
    contradiction

/-- What starts with a blank is whitespace. -/
theorem eq_whitespace (h : IsRead lineComments lexeme x) {b q : Char} {rest : Text}
    (hstarts : lexeme.raw ++ x = b :: q :: rest) (hblank : isBlank b = true)
    (hquote : isQuote q = true) : lexeme.token = .whitespace ∧ x = q :: rest := by
  obtain ⟨c, cs, hraw, htoken, hlength⟩ := h
  rw [hraw, List.cons_append, List.cons.injEq] at hstarts
  obtain ⟨rfl, hrest⟩ := hstarts
  have hsolid : isBlank q = false := by
    obtain rfl | rfl : q = '"' ∨ q = '\'' := by simpa [isQuote] using hquote
    · rfl
    · rfl
  rw [Token.scan_of_isBlank lineComments hblank, hrest] at htoken hlength
  refine ⟨htoken.symm, ?_⟩
  have hcs : cs = [] := by
    simp only [blanksLength, List.takeWhile_cons, hsolid, Bool.false_eq_true, if_false,
      List.length_nil, hraw, List.length_cons] at hlength
    exact List.length_eq_zero_iff.1 (by omega)
  rw [← hrest, hcs, List.nil_append]

end IsRead

structure AreRead (lineComments : Bool) (lexemes : List Lexeme) (follow : Text) : Prop where
  read : EachStands (IsRead lineComments) lexemes follow
  plain : '\\' ∉ text lexemes ++ follow

namespace AreRead

variable {left right lexemes : List Lexeme} {x : Text}

theorem append_left (h : AreRead lineComments (left ++ right) x) :
    AreRead lineComments left (text right ++ x) where
  read := (eachStands_append.1 h.read).1
  plain := by
    have hplain := h.plain
    rwa [text_append, List.append_assoc] at hplain

theorem append_right (h : AreRead lineComments (left ++ right) x) :
    AreRead lineComments right x where
  read := (eachStands_append.1 h.read).2
  plain := by
    have hplain := h.plain
    rw [text_append, List.append_assoc] at hplain
    exact fun hmem => hplain (List.mem_append_right (text left) hmem)

end AreRead

/-- Lexemes as they stand side by side in a text without backslashes, none of them cut short and no
url among them empty. -/
structure AreSound (lineComments : Bool) (lexemes : List Lexeme) (follow : Text) : Prop
    extends AreRead lineComments lexemes follow where
  kept : ∀ lexeme ∈ lexemes, TokenRun.isKept lexeme.token = true
  ne_url : ∀ lexeme ∈ lexemes, lexeme.token ≠ .url []

namespace AreSound

variable {left right lexemes : List Lexeme} {lexeme : Lexeme} {x : Text}

theorem append_left (h : AreSound lineComments (left ++ right) x) :
    AreSound lineComments left (text right ++ x) where
  toAreRead := h.toAreRead.append_left
  kept := fun lexeme hmem => h.kept lexeme (List.mem_append_left right hmem)
  ne_url := fun lexeme hmem => h.ne_url lexeme (List.mem_append_left right hmem)

theorem append_right (h : AreSound lineComments (left ++ right) x) :
    AreSound lineComments right x where
  toAreRead := h.toAreRead.append_right
  kept := fun lexeme hmem => h.kept lexeme (List.mem_append_right left hmem)
  ne_url := fun lexeme hmem => h.ne_url lexeme (List.mem_append_right left hmem)

theorem tail (h : AreSound lineComments (lexeme :: lexemes) x) : AreSound lineComments lexemes x :=
  append_right (show AreSound lineComments ([lexeme] ++ lexemes) x from h)

end AreSound

end Lexeme

/-- What is scanned is read. -/
theorem Lexeme.AreScanned.isRead {lineComments : Bool} {lexemes : List Lexeme} {follow : Text}
    (h : AreScanned lineComments lexemes follow) :
    EachStands (IsRead lineComments) lexemes follow := by
  induction lexemes with
  | nil => trivial
  | cons lexeme lexemes ih =>
    obtain ⟨⟨c, cs, hraw, hscan⟩, hrest⟩ := h
    exact ⟨⟨c, cs, hraw, by rw [hscan], by rw [hscan]⟩, ih hrest⟩

/-- But for their places, lexemes that are read where they stand are what their text is read as. -/
theorem Reading.bare_all {lineComments : Bool} {lexemes : List Lexeme}
    (h : Lexeme.EachStands (Lexeme.IsRead lineComments) lexemes []) (offset : Nat) :
    ((all lineComments offset (Lexeme.text lexemes)).map (·.lexeme)).map Lexeme.bare =
      lexemes.map Lexeme.bare := by
  induction lexemes generalizing offset with
  | nil => rw [Lexeme.text_nil, all]; rfl
  | cons lexeme lexemes ih =>
    obtain ⟨⟨c, cs, hraw, htoken, hlength⟩, hrest⟩ := h
    rw [List.append_nil] at htoken hlength
    have htake : (c :: (cs ++ Lexeme.text lexemes)).take lexeme.raw.length = lexeme.raw := by
      rw [← List.cons_append, ← hraw, List.take_left]
    have hdrop : (c :: (cs ++ Lexeme.text lexemes)).drop lexeme.raw.length =
        Lexeme.text lexemes := by
      rw [← List.cons_append, ← hraw, List.drop_left]
    rw [Lexeme.text_cons]
    conv => lhs; rw [hraw, List.cons_append, all_cons, hlength]
    simp only [htake, hdrop, List.map_cons, ih hrest]
    simp only [first, htoken, hlength, htake, Lexeme.bare]

/-- Every lexeme of a text is what is read where it stands. -/
theorem Reading.eachStands_all (lineComments : Bool) (offset : Nat) (source : Text) :
    Lexeme.EachStands (Lexeme.IsRead lineComments)
      ((all lineComments offset source).map (·.lexeme)) [] := by
  fun_induction all lineComments offset source with
  | case1 => trivial
  | case2 offset c cs reading ih =>
    refine ⟨?_, ih⟩
    obtain ⟨n, hn⟩ := Nat.exists_eq_succ_of_ne_zero
      (Nat.ne_of_gt (Token.scan_length lineComments c cs).1)
    have hraw : reading.lexeme.raw = c :: cs.take n := by
      show (c :: cs).take (Token.scan lineComments c cs).length = _
      rw [hn, List.take_succ_cons]
    have hlength := (Token.scan_length lineComments c cs).2
    refine ⟨c, cs.take n, hraw, ?_⟩
    rw [text_all, List.append_nil, hn, List.drop_succ_cons, List.take_append_drop, hraw,
      List.length_cons, List.length_take, hn]
    exact ⟨rfl, by omega⟩

theorem Reading.areRead_all {source : Text} (lineComments : Bool) (offset : Nat)
    (hplain : '\\' ∉ source) :
    Lexeme.AreRead lineComments ((all lineComments offset source).map (·.lexeme)) [] where
  read := eachStands_all lineComments offset source
  plain := by rwa [text_all, List.append_nil]

/-- The lexemes of a text without backslashes, if none is cut short and no url among them empty. -/
theorem Reading.areSound_all {lineComments : Bool} {offset : Nat} {source : Text}
    (hplain : '\\' ∉ source)
    (hsound : ∀ reading ∈ all lineComments offset source,
      reading.lexeme.token.isBad = false ∧ reading.lexeme.token ≠ .url []) :
    Lexeme.AreSound lineComments ((all lineComments offset source).map (·.lexeme)) [] where
  toAreRead := areRead_all lineComments offset hplain
  kept := by
    intro lexeme hmem
    obtain ⟨reading, hreading, rfl⟩ := List.mem_map.1 hmem
    have hne := (reads_of_mem_all hreading).ne_eof
    simp [TokenRun.isKept, (hsound reading hreading).1, hne]
  ne_url := by
    intro lexeme hmem
    obtain ⟨reading, hreading, rfl⟩ := List.mem_map.1 hmem
    exact (hsound reading hreading).2

namespace TokenRun

open Lexeme

variable {lineComments : Bool} {lexemes : List Lexeme} {x y : Text}

/-- A space is scanned as one in front of a token that is none. -/
theorem areScanned_space {token : Token} {run : TokenRun}
    (h : AreScanned lineComments (toLexemes (token :: run)) y) (htrivia : token.isTrivia = false) :
    AreScanned lineComments (toLexemes (.whitespace :: token :: run)) y := by
  refine ⟨.of_spells (.whitespace (List.cons_ne_nil ' ' []) (List.forall_mem_singleton.2 rfl)
    fun d hd => ?_), h⟩
  obtain ⟨c, cs, hraw, hscan⟩ := h.1
  have htext : text (toLexemes (token :: run)) = (c :: cs) ++ text (toLexemes run) := by
    rw [toLexemes_cons, text_cons, hraw]
  change d ∈ (text (toLexemes (token :: run)) ++ y).head? at hd
  rw [htext] at hd
  obtain rfl := Option.some.inj hd
  cases hblank : isBlank c with
  | false => rfl
  | true =>
    rw [Token.scan_of_isBlank lineComments hblank] at hscan
    have hspace : Token.whitespace = token := congrArg Scan.token hscan
    rw [← hspace] at htrivia
    contradiction

/-- Behind trivia a run starts with a space, if it has a token at all. -/
theorem separates_collapse (hy : Separates y) (run : TokenRun) :
    Separates (text (toLexemes (collapse true run)) ++ y) := by
  induction run with
  | nil => exact hy
  | cons token run ih =>
    cases htrivia : token.isTrivia with
    | true =>
      rw [collapse_trivia htrivia]
      exact ih
    | false =>
      rw [collapse_token htrivia, if_pos rfl]
      intro c hc
      obtain rfl := Option.some.inj hc
      rfl

/-- What is written for lexemes starts as these do up to where it goes on with nothing new. -/
theorem exists_diverges (h : AreSound lineComments lexemes x) (hy : Separates y) :
    ∃ front p q, text lexemes ++ x = front ++ p ∧
      text (toLexemes (collapse false (tokens lexemes))) ++ y = front ++ q ∧ Diverges p q := by
  induction lexemes with
  | nil => exact ⟨[], x, y, rfl, rfl, .inl (.inl hy)⟩
  | cons lexeme lexemes ih =>
    cases htrivia : lexeme.isTrivia with
    | true =>
      refine ⟨[], _, _, rfl, rfl, .inl (.inl ?_)⟩
      rw [tokens, List.map_cons, collapse_trivia htrivia]
      exact separates_collapse hy _
    | false =>
      have hplain := h.plain
      rw [text_cons, List.append_assoc] at hplain
      obtain ⟨front, p, q, hp, hq, hdiverges⟩ := ih h.tail
      rw [tokens, List.map_cons, collapse_token htrivia, if_neg Bool.false_ne_true, toLexemes_cons,
        text_cons, text_cons, List.append_assoc, List.append_assoc]
      obtain htext | hall := h.read.1.toText_eq_or_diverges (h.kept _ List.mem_cons_self)
        htrivia hplain
      · refine ⟨lexeme.raw ++ front, p, q, ?_, ?_, hdiverges⟩
        · rw [hp, List.append_assoc]
        · simp only [htext]
          rw [tokens] at hq
          rw [hq, List.append_assoc]
      · exact ⟨[], _, _, rfl, rfl, hall _ _⟩

theorem alike_collapse (h : AreSound lineComments lexemes x) (hy : Separates y) :
    Alike (text lexemes ++ x) (text (toLexemes (collapse false (tokens lexemes))) ++ y) := by
  obtain ⟨front, p, q, hp, hq, hdiverges⟩ := exists_diverges h hy
  have hplain := h.plain
  rw [hp] at hplain ⊢
  rw [hq]
  refine hdiverges.append ?_ ?_
  · rintro rfl
    exact hplain (by simp)
  · rintro rfl
    exact hplain (by simp)

/-- The string of a quoted url is written behind it. -/
theorem opensString_collapse (h : AreSound lineComments lexemes x) {blanks : Text}
    (hopens : Token.OpensString blanks (text lexemes ++ x))
    (hne : collapse false (tokens lexemes) ≠ []) :
    Token.OpensString [] (text (toLexemes (collapse false (tokens lexemes))) ++ y) := by
  have hstring : ∀ {lexeme : Lexeme} {lexemes : List Lexeme} {q : Char} {rest : Text},
      AreSound lineComments (lexeme :: lexemes) x → text (lexeme :: lexemes) ++ x = q :: rest →
        isQuote q = true → ∃ content quote, lexeme.token = .string content quote := by
    intro lexeme lexemes q rest h hstarts hquote
    rw [text_cons, List.append_assoc] at hstarts
    exact h.read.1.exists_string (h.kept _ List.mem_cons_self) hstarts hquote
  cases lexemes with
  | nil => exact absurd rfl hne
  | cons lexeme lexemes =>
    obtain ⟨-, q, rest, hstarts, hquote⟩ | ⟨b, q, rest, hstarts, hblank, hquote⟩ := hopens
    · obtain ⟨content, quote, htoken⟩ := hstring h hstarts hquote
      rw [tokens, List.map_cons, htoken, collapse_token rfl, if_neg Bool.false_ne_true]
      exact .inl ⟨rfl, quote.toChar, _, rfl, isQuote_toChar quote⟩
    · rw [text_cons, List.append_assoc] at hstarts
      obtain ⟨hspace, hrest⟩ := h.read.1.eq_whitespace hstarts hblank hquote
      rw [tokens, List.map_cons, hspace, collapse_trivia rfl] at hne ⊢
      cases lexemes with
      | nil => exact absurd rfl hne
      | cons next lexemes =>
        obtain ⟨content, quote, htoken⟩ := hstring h.tail hrest hquote
        rw [List.map_cons, htoken, collapse_token rfl, if_pos rfl]
        exact .inr ⟨' ', quote.toChar, _, rfl, rfl, isQuote_toChar quote⟩

theorem areScanned_collapse (h : AreSound lineComments lexemes x) (hy : Separates y) (gap : Bool)
    (hlast : ∀ name, (collapse gap (tokens lexemes)).getLast? = some (.function name) →
      name.isKeyword "url" = false) :
    AreScanned lineComments (toLexemes (collapse gap (tokens lexemes))) y := by
  induction lexemes generalizing gap with
  | nil => trivial
  | cons lexeme lexemes ih =>
    cases htrivia : lexeme.isTrivia with
    | true =>
      rw [tokens, List.map_cons, collapse_trivia htrivia] at hlast ⊢
      exact ih h.tail true hlast
    | false =>
      rw [tokens, List.map_cons, collapse_token htrivia] at hlast ⊢
      have hlast' : ∀ name, (lexeme.token :: collapse false (tokens lexemes)).getLast? =
          some (.function name) → name.isKeyword "url" = false := by
        cases gap with
        | true =>
          rw [if_pos rfl, List.getLast?_cons_cons] at hlast
          exact hlast
        | false => exact hlast
      have hrest : AreScanned lineComments (toLexemes (collapse false (tokens lexemes))) y := by
        refine ih h.tail false fun name hname => hlast' name ?_
        rw [List.getLast?_cons, hname]
        rfl
      have hplain := h.plain
      rw [text_cons, List.append_assoc] at hplain
      have hspells := h.read.1.spells_toText (h.kept _ List.mem_cons_self) htrivia
        (h.ne_url _ List.mem_cons_self) hplain (alike_collapse h.tail hy)
        fun name blanks htoken hname hopens => by
          refine opensString_collapse h.tail hopens fun hnil => ?_
          have hfalse := hlast' name (by rw [hnil, htoken]; rfl)
          rw [hname] at hfalse
          contradiction
      have htoken : AreScanned lineComments
          (toLexemes (lexeme.token :: collapse false (tokens lexemes))) y :=
        ⟨.of_spells hspells, hrest⟩
      cases gap with
      | true => exact areScanned_space htoken htrivia
      | false => exact htoken

/-- The tokens of a run are scanned as what they are where a separator follows, or nothing. -/
theorem areScanned_ofLexemes (h : AreSound lineComments lexemes x) (hclosed : IsClosed lexemes)
    (hy : Separates y) : AreScanned lineComments (toLexemes (ofLexemes lexemes)) y := by
  have hrun := ofLexemes_eq_collapse h.kept
  have hsound : AreSound lineComments (dropTrivia lexemes) x := by
    rw [← List.takeWhile_append_dropWhile (p := Lexeme.isTrivia) (l := lexemes)] at h
    exact h.append_right
  rw [hrun]
  refine areScanned_collapse hsound hy false fun name hlast => ?_
  have hopen : (ofLexemes lexemes).toLexemes.getLast? =
      some ⟨.function name, .point 0, Token.toText .pretty (.function name)⟩ := by
    rw [toLexemes, List.getLast?_map, hrun, hlast]
    rfl
  exact absurd (isClosed_ofLexemes hclosed) (not_isClosed_of_getLast? hopen rfl)

end TokenRun

end Css
