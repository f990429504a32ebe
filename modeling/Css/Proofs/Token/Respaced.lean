import Css.Proofs.Token.Follow
import Css.Proofs.Token.Recast
import Mathlib.Data.List.Basic

/-!
# Other trivia between the same lexemes

Lexemes may have other trivia between them than the ones that were read, as long as there are some
where there were some (`Lexeme.Respaced`). Where what was read had no backslash, what it becomes is
read as its own lexemes again (`Respaced.eachStands`), and written in one way both are the same
(`Respaced.condense_eq`).
-/

namespace Css

/-- Behind the bracket of a quoted url stands its string, or one blank and its string. -/
theorem Token.Spells.opensString {lineComments : Bool} {follow raw name blanks : Text}
    (h : Spells lineComments follow (.function name) raw) (hname : name.isKeyword "url" = true)
    (hraw : raw = name ++ '(' :: blanks) : OpensString blanks follow := by
  cases h with
  | single hchar => exact absurd ((isPlain_of_ofChar? hchar).1.symm.trans hname) Bool.noConfusion
  | function _ _ hother => exact absurd (hother.symm.trans hname) Bool.noConfusion
  | quotedUrl _ _ hopens =>
    obtain ⟨-, rfl⟩ := List.cons.inj (List.append_cancel_left hraw)
    exact hopens

namespace Lexeme

structure IsSpace (lexeme : Lexeme) : Prop where
  token : lexeme.token = .whitespace
  raw_ne_nil : lexeme.raw ≠ []
  isBlank : ∀ c ∈ lexeme.raw, isBlank c = true

/-- Whether the second lexemes are the first with one whitespace in place of the trivia between two
of them. A single blank stays one, since behind the bracket of a quoted url it is no part of it;
other blanks there may become as many as one likes. -/
inductive Respaced : List Lexeme → List Lexeme → Prop
  | nil : Respaced [] []
  | token {lexeme : Lexeme} {xs ys : List Lexeme} : lexeme.isTrivia = false →
    (lexeme.token = .badString → ∃ c rest, text ys = c :: rest ∧ isNewline c = true) →
    Respaced xs ys → Respaced (lexeme :: xs) (lexeme :: ys)
  | gap {trivia xs ys : List Lexeme} {space : Lexeme} : trivia ≠ [] → isVoid trivia = true →
    (∀ lexeme ∈ xs.head?, lexeme.isTrivia = false) → space.IsSpace →
    (∀ blank, trivia = [blank] → blank.raw.length = 1 → space.raw.length = 1) →
    Respaced xs ys → Respaced (trivia ++ xs) (space :: ys)
  | quotedUrl {name blanks blanks' : Text} {opener opener' space space' : Lexeme}
      {xs ys : List Lexeme} : name.isKeyword "url" = true →
    opener.token = .function name → opener.raw = name ++ '(' :: blanks →
    opener'.token = .function name → opener'.raw = name ++ '(' :: blanks' →
    (∀ c ∈ blanks', isBlank c = true) → space.token = .whitespace → space'.IsSpace →
    space'.raw.length = 1 → Respaced xs ys →
    Respaced (opener :: space :: xs) (opener' :: space' :: ys)

/-! ### First characters -/

namespace IsRead

variable {lineComments : Bool} {lexeme : Lexeme} {x : Text}

theorem raw_ne_nil (h : IsRead lineComments lexeme x) : lexeme.raw ≠ [] := by
  obtain ⟨c, cs, hraw, -⟩ := h
  rw [hraw]
  exact List.cons_ne_nil c cs

theorem isBlank_head (h : IsRead lineComments lexeme x) (htrivia : lexeme.isTrivia = false)
    {c : Char} {rest : Text} (hstarts : lexeme.raw ++ x = c :: rest) : isBlank c = false := by
  obtain ⟨d, ds, hraw, htoken, -⟩ := h
  rw [hraw] at hstarts
  obtain rfl := (List.cons.inj hstarts).1
  cases hblank : isBlank d with
  | false => rfl
  | true =>
    rw [Token.scan_of_isBlank lineComments hblank] at htoken
    rw [Lexeme.isTrivia, ← htoken] at htrivia
    contradiction

theorem isQuote_head (h : IsRead lineComments lexeme x) (htrivia : lexeme.isTrivia = true)
    {c : Char} {rest : Text} (hstarts : lexeme.raw ++ x = c :: rest) : isQuote c = false := by
  cases hquote : isQuote c with
  | false => rfl
  | true =>
    obtain ⟨content, quote, hstring⟩ := h.exists_string (Token.isKept_of_isTrivia htrivia) hstarts
      hquote
    rw [Lexeme.isTrivia, hstring] at htrivia
    contradiction

end IsRead

theorem IsRead.spells_function {lineComments : Bool} {lexeme : Lexeme} {x name : Text}
    (h : IsRead lineComments lexeme x) (htoken : lexeme.token = .function name) :
    Token.Spells lineComments x (.function name) lexeme.raw := by
  refine htoken ▸ h.spells_of_sound (fun problem hreads => ?_) (by simp [htoken])
  rw [htoken] at hreads
  cases hreads

theorem IsSpace.isRead {space : Lexeme} (h : space.IsSpace) (lineComments : Bool) {follow : Text}
    (hfollow : ∀ c rest, follow = c :: rest → Css.isBlank c = false) :
    IsRead lineComments space follow := by
  have hspells : Token.Spells lineComments follow .whitespace space.raw := by
    refine .whitespace h.raw_ne_nil h.isBlank fun c hc => ?_
    obtain ⟨rest, rfl⟩ := List.head?_eq_some_iff.1 hc
    exact hfollow c rest rfl
  obtain ⟨c, cs, hraw, hscan⟩ := hspells.scan_eq
  exact ⟨c, cs, hraw, by rw [hscan, h.token], by rw [hscan]⟩

theorem text_eq_nil {lineComments : Bool} {lexemes : List Lexeme} {x : Text}
    (h : EachStands (IsRead lineComments) lexemes x) (hnil : text lexemes = []) : lexemes = [] := by
  cases lexemes with
  | nil => rfl
  | cons lexeme lexemes =>
    rw [text_cons] at hnil
    exact absurd (List.append_eq_nil_iff.1 hnil).1 h.1.raw_ne_nil

/-- Whether lexemes go up to the end of a text, or end neither with trivia nor with the bracket of a
quoted url. -/
def EndsBefore (follow : Text) (lexemes : List Lexeme) : Prop :=
  follow = [] ∨ ∀ last ∈ lexemes.getLast?,
    last.isTrivia = false ∧ ∀ name, last.token = .function name → name.isKeyword "url" = false

theorem EndsBefore.of_append {x : Text} (front : List Lexeme) {back : List Lexeme}
    (h : EndsBefore x (front ++ back)) : EndsBefore x back := by
  refine h.imp_right fun hlast last hmem => hlast last ?_
  rw [List.getLast?_append, Option.mem_def.1 hmem]
  rfl

/-- Where nothing stands behind a lexeme, the text is over if the lexeme is trivia or the bracket of
a quoted url. -/
theorem EndsBefore.eq_nil {x : Text} {lexeme : Lexeme} (h : EndsBefore x [lexeme])
    (hlexeme : lexeme.isTrivia = true ∨
      ∃ name, lexeme.token = .function name ∧ name.isKeyword "url" = true) : x = [] := by
  obtain h | h := h
  · exact h
  · obtain ⟨htrivia, hopens⟩ := h lexeme rfl
    obtain hlexeme | ⟨name, htoken, hname⟩ := hlexeme
    · rw [htrivia] at hlexeme
      contradiction
    · rw [hopens name htoken] at hname
      contradiction

/-- Where nothing stands behind trivia, the text is over. -/
theorem EndsBefore.eq_nil_of_isVoid {x : Text} {trivia : List Lexeme} (h : EndsBefore x trivia)
    (hne : trivia ≠ []) (hvoid : isVoid trivia = true) : x = [] := by
  obtain rfl | ⟨front, last, rfl⟩ := List.eq_nil_or_concat trivia
  · exact absurd rfl hne
  · rw [List.concat_eq_append] at h hvoid
    exact (h.of_append front).eq_nil (.inl (List.all_eq_true.1 hvoid last (by simp)))

/-- Behind the bracket of a quoted url and trivia stands its string. -/
theorem IsRead.exists_quote {lineComments : Bool} {opener space : Lexeme} {name blanks x : Text}
    (h : IsRead lineComments opener (space.raw ++ x)) (hread : IsRead lineComments space x)
    (htoken : opener.token = .function name) (hname : name.isKeyword "url" = true)
    (hraw : opener.raw = name ++ '(' :: blanks) (htrivia : space.isTrivia = true) :
    ∃ q rest, x = q :: rest ∧ isQuote q = true := by
  obtain ⟨-, q, rest, hstarts, hquote⟩ | ⟨b, q, rest, hstarts, hblank, hquote⟩ :=
    (h.spells_function htoken).opensString hname hraw
  · rw [hread.isQuote_head htrivia hstarts] at hquote
    contradiction
  · exact ⟨q, rest, (hread.eq_whitespace hstarts hblank hquote).2, hquote⟩

/-- A lone backslash that stands in front of no trivia is the last of its lexemes. -/
theorem eq_nil_of_backslash {lineComments : Bool} {lexeme : Lexeme} {xs : List Lexeme} {x : Text}
    (hread : EachStands (IsRead lineComments) (lexeme :: xs) x)
    (hparts : (lexeme :: xs).IsChain fun left right => right.isTrivia = true → left.raw ≠ ['\\'])
    (hraw : lexeme.raw = ['\\']) : xs = [] := by
  cases xs with
  | nil => rfl
  | cons next xs =>
    exfalso
    have hnext : next.isTrivia = false :=
      Bool.eq_false_iff.2 fun htrivia => (List.isChain_cons_cons.1 hparts).1 htrivia hraw
    have hescape := hread.1.escapeLength_of_backslash hraw
    obtain ⟨c, cs, hcons, -⟩ := hread.2.1
    rw [text_cons, hcons] at hescape
    have hblank := hread.2.1.isBlank_head hnext (by rw [hcons]; rfl)
    refine (escapeLength_cons_ne_zero '\\' c _).2 ⟨rfl, ?_⟩ hescape
    exact (Bool.or_eq_false_iff.1 (Bool.or_eq_false_iff.1 hblank).1).1

namespace Respaced

variable {lineComments : Bool} {xs ys : List Lexeme} {x y : Text}

/-- Without trivia in front both start with the same character. -/
theorem text_eq_cons (h : Respaced xs ys) (hread : EachStands (IsRead lineComments) xs x)
    (hhead : ∀ lexeme ∈ xs.head?, lexeme.isTrivia = false) :
    (xs = [] ∧ ys = []) ∨ ∃ c p q, text xs = c :: p ∧ text ys = c :: q := by
  cases h with
  | nil => exact .inl ⟨rfl, rfl⟩
  | @token lexeme xs ys =>
    obtain ⟨c, cs, hraw, -⟩ := hread.1
    exact .inr ⟨c, _, _, by rw [text_cons, hraw]; rfl, by rw [text_cons, hraw]; rfl⟩
  | @gap trivia xs ys space hne hvoid =>
    obtain ⟨blank, trivia, rfl⟩ := List.exists_cons_of_ne_nil hne
    have hfalse := hhead blank rfl
    rw [isVoid, List.all_cons, hfalse] at hvoid
    contradiction
  | @quotedUrl name blanks blanks' opener opener' space space' xs ys hname _ hraw _ hraw' =>
    cases name with
    | nil => contradiction
    | cons c name =>
      exact .inr ⟨c, _, _, by rw [text_cons, hraw]; rfl, by rw [text_cons, hraw']; rfl⟩

theorem eq_nil_iff (h : Respaced xs ys) : xs = [] ↔ ys = [] := by
  cases h with
  | gap hne => simp [hne]
  | _ => simp

/-- Both are the same up to where the second goes on with no token. In front of that stands no lone
backslash, unless the second ends there. -/
theorem exists_diverges (h : Respaced xs ys) (hread : EachStands (IsRead lineComments) xs x)
    (hparts : xs.IsChain fun left right => right.isTrivia = true → left.raw ≠ ['\\'])
    (hy : StandsApart y) :
    ∃ front p q, text xs ++ x = front ++ p ∧ text ys ++ y = front ++ q ∧ Diverges p q ∧
      (front = ['\\'] ∨ front = ['-', '\\'] → q = y) := by
  have hblank : ∀ {space : Lexeme}, space.IsSpace → ∀ rest, Separates (space.raw ++ rest) := by
    intro space hspace rest c hc
    obtain ⟨d, ds, hraw⟩ := List.exists_cons_of_ne_nil hspace.raw_ne_nil
    rw [hraw] at hc
    obtain rfl := Option.some.inj hc
    have := hspace.isBlank d (by simp [hraw])
    simp [isSeparator, this]
  induction h with
  | nil => exact ⟨[], x, y, rfl, rfl, .inl hy, fun _ => rfl⟩
  | @token lexeme xs ys _ _ h ih =>
    obtain ⟨front, p, q, hp, hq, hdiverges, hfront⟩ := ih hread.2 hparts.of_cons
    refine ⟨lexeme.raw ++ front, p, q, ?_, ?_, hdiverges, ?_⟩
    · rw [text_cons, List.append_assoc, hp, List.append_assoc]
    · rw [text_cons, List.append_assoc, hq, List.append_assoc]
    · rintro (heq | heq)
      · obtain ⟨hnil, -⟩ | ⟨hraw, rfl⟩ := List.append_eq_singleton_iff.1 heq
        · exact absurd hnil hread.1.raw_ne_nil
        · obtain rfl := h.eq_nil_iff.1 (eq_nil_of_backslash hread hparts hraw)
          exact hq.symm
      · obtain ⟨hnil, -⟩ | ⟨tail, hraw, htail⟩ := List.append_eq_cons_iff.1 heq
        · exact absurd hnil hread.1.raw_ne_nil
        · obtain ⟨-, hfront'⟩ | ⟨rfl, -⟩ := List.append_eq_singleton_iff.1 htail.symm
          · exact hfront (.inl hfront')
          · exact absurd hraw hread.1.raw_ne_hyphen
  | @gap trivia xs ys space _ _ _ hspace =>
    refine ⟨[], text (trivia ++ xs) ++ x, text (space :: ys) ++ y, rfl, rfl, .inl (.inl ?_),
      by simp⟩
    rw [text_cons, List.append_assoc]
    exact hblank hspace _
  | @quotedUrl name blanks blanks' opener opener' space space' xs ys hname _ hraw _ hraw' hblanks
      _ hspace =>
    refine ⟨name ++ ['('], blanks ++ (space.raw ++ text xs ++ x),
      blanks' ++ (space'.raw ++ text ys ++ y), ?_, ?_, .inl (.inl ?_), ?_⟩
    · simp [hraw]
    · simp [hraw']
    · cases blanks' with
      | nil =>
        rw [List.nil_append, List.append_assoc]
        exact hblank hspace _
      | cons c blanks' =>
        intro d hd
        obtain rfl := Option.some.inj hd
        have := hblanks c List.mem_cons_self
        simp [isSeparator, this]
    · rintro (heq | heq) <;> exact absurd (congrArg List.getLast? heq) (by simp)

theorem alike (h : Respaced xs ys) (hread : EachStands (IsRead lineComments) xs x)
    (hplain : '\\' ∉ text xs ++ x) (hy : StandsApart y) :
    Alike (text xs ++ x) (text ys ++ y) := by
  have hparts : xs.IsChain fun left right => right.isTrivia = true → left.raw ≠ ['\\'] := by
    refine (List.pairwise_of_forall_mem_list fun left hleft _ _ _ hraw => hplain ?_).isChain
    exact List.mem_append_left _ (List.mem_flatMap.2 ⟨left, hleft, by simp [hraw]⟩)
  obtain ⟨front, p, q, hp, hq, hdiverges, -⟩ := h.exists_diverges hread hparts hy
  rw [hp] at hplain ⊢
  rw [hq]
  refine hdiverges.append ?_ ?_
  · rintro rfl
    exact hplain (by simp)
  · rintro rfl
    exact hplain (by simp)

/-- The first character is a quote where it was, if the text goes on. -/
theorem exists_quote (h : Respaced xs ys) (hread : EachStands (IsRead lineComments) xs x)
    (hxs : xs ≠ []) {q : Char} {rest : Text} (hstarts : text xs ++ x = q :: rest)
    (hquote : isQuote q = true) : ∃ rest', text ys = q :: rest' := by
  have hhead : ∀ first ∈ xs.head?, first.isTrivia = false := by
    intro first hfirst
    obtain ⟨xs, rfl⟩ := List.head?_eq_some_iff.1 hfirst
    rw [text_cons, List.append_assoc] at hstarts
    cases htrivia : first.isTrivia with
    | false => rfl
    | true =>
      rw [hread.1.isQuote_head htrivia hstarts] at hquote
      contradiction
  obtain ⟨hnil, -⟩ | ⟨c, p, p', hfirst, hfirst'⟩ := h.text_eq_cons hread hhead
  · exact absurd hnil hxs
  · rw [hfirst] at hstarts
    obtain ⟨rfl, -⟩ := List.cons.inj hstarts
    exact ⟨p', hfirst'⟩

/-- Behind trivia no blank follows. -/
theorem isBlank_head (h : Respaced xs ys) (hread : EachStands (IsRead lineComments) xs x)
    (hhead : ∀ lexeme ∈ xs.head?, lexeme.isTrivia = false) (hend : xs = [] → y = []) (c : Char)
    (rest : Text) (hstarts : text ys ++ y = c :: rest) : isBlank c = false := by
  obtain ⟨hxs, rfl⟩ | ⟨d, p, p', hfirst, hfirst'⟩ := h.text_eq_cons hread hhead
  · rw [hend hxs] at hstarts
    contradiction
  · rw [hfirst'] at hstarts
    obtain ⟨rfl, -⟩ := List.cons.inj hstarts
    cases xs with
    | nil => contradiction
    | cons lexeme xs =>
      have hstarts : lexeme.raw ++ (text xs ++ x) = d :: (p ++ x) := by
        rw [← List.append_assoc, ← text_cons, hfirst]
        rfl
      exact hread.1.isBlank_head (hhead lexeme rfl) hstarts

/-- The string of a quoted url stays where it is. -/
theorem opensString (h : Respaced xs ys) (hread : EachStands (IsRead lineComments) xs x)
    {opener : Lexeme} (hends : EndsBefore x (opener :: xs))
    (hopener : ∃ name, opener.token = .function name ∧ name.isKeyword "url" = true)
    {blanks : Text} (hopens : Token.OpensString blanks (text xs ++ x)) :
    Token.OpensString blanks (text ys ++ y) := by
  have hxs : xs ≠ [] := by
    rintro rfl
    rw [hends.eq_nil (.inr hopener)] at hopens
    obtain ⟨-, q, rest, hnil, -⟩ | ⟨b, q, rest, hnil, -⟩ := hopens <;> contradiction
  obtain ⟨rfl, q, rest, hstarts, hquote⟩ | ⟨b, q, rest, hstarts, hblank, hquote⟩ := hopens
  · obtain ⟨rest', hrest'⟩ := h.exists_quote hread hxs hstarts hquote
    exact .inl ⟨rfl, q, rest' ++ y, by rw [hrest']; rfl, hquote⟩
  · have hsolid : ∀ {lexeme : Lexeme} {xs : List Lexeme}, lexeme.isTrivia = false →
        EachStands (IsRead lineComments) (lexeme :: xs) x →
          text (lexeme :: xs) ++ x ≠ b :: q :: rest := by
      intro lexeme xs htrivia hread hstarts
      rw [text_cons, List.append_assoc] at hstarts
      rw [hread.1.isBlank_head htrivia hstarts] at hblank
      contradiction
    cases h with
    | nil => exact absurd rfl hxs
    | token htrivia => exact absurd hstarts (hsolid htrivia hread)
    | quotedUrl _ htoken =>
      refine absurd hstarts (hsolid ?_ hread)
      rw [Lexeme.isTrivia, htoken]
      rfl
    | @gap trivia xs ys space hne hvoid _ hspace hsingle h =>
      obtain ⟨blank, trivia, rfl⟩ := List.exists_cons_of_ne_nil hne
      rw [List.cons_append] at hread hends hstarts
      rw [text_cons, List.append_assoc] at hstarts
      obtain ⟨hwhitespace, hrest⟩ := hread.1.eq_whitespace hstarts hblank hquote
      rw [hrest] at hstarts
      have hlength : blank.raw.length = 1 := by
        have := congrArg List.length hstarts
        simp only [List.length_append, List.length_cons] at this
        omega
      cases trivia with
      | nil =>
        have hxs : xs ≠ [] := by
          rintro rfl
          have hblanks : EndsBefore x [blank] := EndsBefore.of_append [opener] hends
          rw [hblanks.eq_nil (.inl (by rw [Lexeme.isTrivia, hwhitespace]; rfl))] at hrest
          contradiction
        obtain ⟨rest', hrest'⟩ := h.exists_quote hread.2 hxs hrest hquote
        obtain ⟨c, hc⟩ := List.length_eq_one_iff.1 (hsingle blank rfl hlength)
        refine .inr ⟨c, q, rest' ++ y, ?_, hspace.isBlank c (by simp [hc]), hquote⟩
        rw [text_cons, hc, hrest']
        rfl
      | cons more trivia =>
        rw [isVoid, List.all_cons, List.all_cons, Bool.and_eq_true, Bool.and_eq_true] at hvoid
        rw [List.cons_append, text_cons, List.append_assoc] at hrest
        rw [hread.2.1.isQuote_head hvoid.2.1 hrest] at hquote
        contradiction

/-- Lexemes that are read where they stand are read where they have other trivia between them, if
this holds of those that are no trivia. -/
theorem eachStands_of (h : Respaced xs ys) (hread : EachStands (IsRead lineComments) xs x)
    (hends : EndsBefore x xs) (hend : x = [] → y = [])
    (htoken : ∀ {lexeme : Lexeme} {rest rest' : List Lexeme}, lexeme :: rest <:+ xs →
      lexeme :: rest' <:+ ys → EachStands (IsRead lineComments) (lexeme :: rest) x →
      lexeme.isTrivia = false →
      (lexeme.token = .badString → ∃ c rest, text rest' = c :: rest ∧ isNewline c = true) →
      Respaced rest rest' → IsRead lineComments lexeme (text rest' ++ y)) :
    EachStands (IsRead lineComments) ys y := by
  induction h with
  | nil => trivial
  | @token lexeme xs ys htrivia hcut h ih =>
    refine ⟨htoken (List.suffix_refl _) (List.suffix_refl _) hread htrivia hcut h,
      ih hread.2 (hends.of_append [lexeme]) fun hxs hys => ?_⟩
    exact htoken (hxs.trans (List.suffix_cons ..)) (hys.trans (List.suffix_cons ..))
  | @gap trivia xs ys space hne hvoid hhead hspace hsingle h ih =>
    have hread' := (eachStands_append.1 hread).2
    refine ⟨hspace.isRead lineComments (h.isBlank_head hread' hhead ?_),
      ih hread' (hends.of_append _) fun hxs hys => ?_⟩
    · rintro rfl
      rw [List.append_nil] at hends
      exact hend (hends.eq_nil_of_isVoid hne hvoid)
    · exact htoken (hxs.trans (List.suffix_append ..)) (hys.trans (List.suffix_cons ..))
  | @quotedUrl name blanks blanks' opener opener' space space' xs ys hname hopener hraw hopener'
      hraw' hblanks hwhitespace hspace hlength h ih =>
    have htrivia : space.isTrivia = true := by
      rw [Lexeme.isTrivia, hwhitespace]
      rfl
    have hends' : EndsBefore x (space :: xs) := hends.of_append [opener]
    have hquoted := hread.1
    rw [text_cons, List.append_assoc] at hquoted
    obtain ⟨q, rest, hstarts, hquote⟩ :=
      hquoted.exists_quote hread.2.1 hopener hname hraw htrivia
    have hxs : xs ≠ [] := by
      rintro rfl
      rw [hends'.eq_nil (.inl htrivia)] at hstarts
      contradiction
    obtain ⟨rest', hrest'⟩ := h.exists_quote hread.2.2 hxs hstarts hquote
    obtain ⟨b, hb⟩ := List.length_eq_one_iff.1 hlength
    have hblank := hspace.isBlank b (by simp [hb])
    have hspells : Token.Spells lineComments (text (space' :: ys) ++ y) (.function name)
        opener'.raw := by
      rw [hraw']
      refine .quotedUrl hname hblanks (.inr ⟨b, q, rest' ++ y, ?_, hblank, hquote⟩)
      rw [text_cons, hb, hrest']
      rfl
    obtain ⟨c, cs, hcons, hscan⟩ := hspells.scan_eq
    refine ⟨⟨c, cs, hcons, by rw [hscan, hopener'], by rw [hscan]⟩, ?_,
      ih hread.2.2 (hends'.of_append [space]) fun hxs hys => ?_⟩
    · refine hspace.isRead lineComments fun d ds hd => ?_
      rw [hrest'] at hd
      obtain ⟨rfl, -⟩ := List.cons.inj hd
      obtain rfl | rfl : q = '"' ∨ q = '\'' := by simpa [isQuote] using hquote
      · rfl
      · rfl
    · exact htoken (hxs.trans (List.suffix_append [opener, space] xs))
        (hys.trans (List.suffix_append [opener', space'] ys))

/-- Lexemes of a text without backslashes that are read where they stand are read where they have
other trivia between them. -/
theorem eachStands (h : Respaced xs ys) (hread : EachStands (IsRead lineComments) xs x)
    (hplain : '\\' ∉ text xs ++ x) (hends : EndsBefore x xs) (hy : StandsApart y)
    (hend : x = [] → y = []) : EachStands (IsRead lineComments) ys y := by
  refine h.eachStands_of hread hends hend fun {lexeme rest rest'} hxs _ hpart htrivia hcut hys => ?_
  obtain ⟨front, rfl⟩ := hxs
  rw [text_append, text_cons, List.append_assoc, List.append_assoc] at hplain
  have hplain := fun hmem => hplain (List.mem_append_right (text front) hmem)
  have hrest := fun hmem => hplain (List.mem_append_right lexeme.raw hmem)
  refine hpart.1.congr htrivia (fun hmem => hplain (List.mem_append_left _ hmem))
    (hys.alike hpart.2 hrest hy) ?_ ?_ ?_
  · intro hnil
    obtain ⟨hxs, hx⟩ := List.append_eq_nil_iff.1 hnil
    obtain rfl := hys.eq_nil_iff.1 (text_eq_nil hpart.2 hxs)
    exact hend hx
  · intro name blanks htoken hname _ hopens
    exact hys.opensString hpart.2 (hends.of_append front) ⟨name, htoken, hname⟩ hopens
  · intro hbad
    obtain ⟨c, rest, hstarts, hc⟩ := hcut hbad
    exact ⟨c, rest ++ y, by rw [hstarts]; rfl, hc⟩

end Respaced

/-- No comment is left. -/
theorem Respaced.isComment_eq {xs ys : List Lexeme} (h : Respaced xs ys) :
    ∀ lexeme ∈ ys, lexeme.isComment = false := by
  induction h with
  | nil => exact List.forall_mem_nil _
  | @token lexeme xs ys htrivia _ _ ih =>
    refine List.forall_mem_cons.2 ⟨?_, ih⟩
    obtain ⟨token, span, raw⟩ := lexeme
    cases token <;> first | rfl | contradiction
  | gap _ _ _ hspace _ _ ih => exact List.forall_mem_cons.2 ⟨by rw [isComment, hspace.token], ih⟩
  | quotedUrl _ _ _ htoken _ _ _ hspace _ _ ih =>
    exact List.forall_mem_cons.2 ⟨by rw [isComment, htoken],
      List.forall_mem_cons.2 ⟨by rw [isComment, hspace.token], ih⟩⟩

/-! ### Sound lexemes -/

section Sound

variable {lineComments : Bool} {lexeme : Lexeme} {xs : List Lexeme} {x : Text}

/-- A sound lexeme in front of a text is scanned as what it is. -/
theorem IsRead.isScanned (h : IsRead lineComments lexeme x) (hx : x ≠ [])
    (hcomment : lexeme.isComment = false) (hbad : lexeme.token.isBad = false)
    (hplain : '\\' ∉ lexeme.raw) : IsScanned lineComments lexeme x := by
  refine .of_spells ?_
  cases htrivia : lexeme.isTrivia with
  | false => exact h.spells hx htrivia hbad hplain
  | true =>
    have htoken : lexeme.token = .whitespace := by
      obtain ⟨token, span, raw⟩ := lexeme
      cases token <;> first | rfl | contradiction
    refine h.spells_of_sound (fun problem hreads => ?_) (by simp [htoken])
    rw [htoken] at hreads
    cases hreads

theorem areScanned_of_isRead (h : EachStands (IsRead lineComments) xs x) (hx : x ≠ [])
    (hsound : ∀ lexeme ∈ xs, lexeme.isComment = false ∧ lexeme.token.isBad = false)
    (hplain : '\\' ∉ text xs) : AreScanned lineComments xs x := by
  induction xs with
  | nil => trivial
  | cons lexeme xs ih =>
    rw [text_cons] at hplain
    obtain ⟨⟨hcomment, hbad⟩, hsound⟩ := List.forall_mem_cons.1 hsound
    refine ⟨h.1.isScanned (by simp [hx]) hcomment hbad fun hmem => ?_, ih h.2 hsound fun hmem => ?_⟩
    · exact hplain (List.mem_append_left _ hmem)
    · exact hplain (List.mem_append_right _ hmem)

end Sound

/-! ### One way to write both -/

/-- A lexeme without its place, a space if it is trivia. What stands behind the bracket of a
function is left out. -/
def condensed (lexeme : Lexeme) : Lexeme :=
  if lexeme.isTrivia then ⟨.whitespace, .point 0, [' ']⟩
  else match lexeme.token with
    | .function name => ⟨.function name, .point 0, name ++ ['(']⟩
    | token => ⟨token, .point 0, lexeme.raw⟩

def condense : Recast where
  move := condensed
  merges := true
  isTrivia_move lexeme := by
    unfold condensed
    cases htrivia : lexeme.isTrivia with
    | true => rfl
    | false =>
      simp only [Bool.false_eq_true, if_false]
      split
      · rfl
      · exact htrivia
  token_move lexeme htrivia := by
    unfold condensed
    rw [htrivia]
    simp only [Bool.false_eq_true, if_false]
    split
    · rename_i htoken
      rw [htoken]
    · rfl

theorem condensed_of_function {lexeme : Lexeme} {name : Text}
    (htoken : lexeme.token = .function name) :
    condensed lexeme = ⟨.function name, .point 0, name ++ ['(']⟩ := by
  simp [condensed, Lexeme.isTrivia, Token.isTrivia, htoken]

/-- Trivia behind others are left out. -/
theorem condense_map_void {trivia : List Lexeme} (hvoid : isVoid trivia = true)
    (lexemes : List Lexeme) :
    condense.map true (trivia ++ lexemes) = condense.map true lexemes := by
  induction trivia with
  | nil => rfl
  | cons blank trivia ih =>
    rw [isVoid, List.all_cons, Bool.and_eq_true] at hvoid
    rw [List.cons_append, Recast.map_cons, hvoid.1, ih hvoid.2]
    simp [Recast.front, hvoid.1, condense]

theorem condense_map_cons {lexeme lexeme' : Lexeme} (h : condensed lexeme = condensed lexeme')
    {xs ys : List Lexeme} (hrest : ∀ gap, condense.map gap xs = condense.map gap ys) (gap : Bool) :
    condense.map gap (lexeme :: xs) = condense.map gap (lexeme' :: ys) := by
  have htrivia : lexeme.isTrivia = lexeme'.isTrivia := by
    rw [← condense.isTrivia_move lexeme, ← condense.isTrivia_move lexeme']
    exact congrArg isTrivia h
  have hmove : condense.move lexeme = condense.move lexeme' := h
  rw [Recast.map_cons, Recast.map_cons, hrest, htrivia, Recast.front, Recast.front, htrivia, hmove]

/-- Lexemes with other trivia between them are written in the same way. -/
theorem Respaced.condense_eq {xs ys : List Lexeme} (h : Respaced xs ys) (gap : Bool) :
    condense.map gap xs = condense.map gap ys := by
  have hspaces : ∀ {blank space : Lexeme}, blank.isTrivia = true → space.token = .whitespace →
      condensed blank = condensed space := by
    intro blank space hblank hspace
    have htrivia : space.isTrivia = true := by
      rw [Lexeme.isTrivia, hspace]
      rfl
    rw [condensed, condensed, if_pos hblank, if_pos htrivia]
  induction h generalizing gap with
  | nil => rfl
  | token _ _ _ ih => exact condense_map_cons rfl ih gap
  | @gap trivia xs ys space hne hvoid _ hspace _ _ ih =>
    obtain ⟨blank, trivia, rfl⟩ := List.exists_cons_of_ne_nil hne
    rw [isVoid, List.all_cons, Bool.and_eq_true] at hvoid
    have hcons := condense_map_cons (hspaces hvoid.1 hspace.token) ih gap
    rw [← hcons, List.cons_append, Recast.map_cons, Recast.map_cons, hvoid.1,
      condense_map_void hvoid.2]
  | @quotedUrl _ _ _ opener opener' space _ _ _ _ htoken _ htoken' _ _ hwhitespace hspace _ _ ih =>
    have hblank : space.isTrivia = true := by
      rw [Lexeme.isTrivia, hwhitespace]
      rfl
    exact condense_map_cons
      ((condensed_of_function htoken).trans (condensed_of_function htoken').symm)
      (condense_map_cons (hspaces hblank hspace.token) ih) gap

end Lexeme

namespace Lexeme.Respaced

variable {lineComments : Bool} {xs ys : List Lexeme} {x : Text}

theorem plain (h : Respaced xs ys) (hplain : '\\' ∉ text xs) : '\\' ∉ text ys := by
  have hblanks : ∀ {blanks : Text}, (∀ c ∈ blanks, isBlank c = true) → '\\' ∉ blanks :=
    fun h hmem => absurd (h _ hmem) (by decide)
  induction h with
  | nil => exact hplain
  | token _ _ _ ih =>
    simp only [text_cons, List.mem_append, not_or] at hplain ⊢
    exact ⟨hplain.1, ih hplain.2⟩
  | gap _ _ _ hspace _ _ ih =>
    simp only [text_append, text_cons, List.mem_append, not_or] at hplain ⊢
    exact ⟨hblanks hspace.isBlank, ih hplain.2⟩
  | quotedUrl _ _ hraw _ hraw' hblanks' _ hspace _ _ ih =>
    simp only [text_cons, hraw, hraw', List.mem_append, List.mem_cons, not_or] at hplain ⊢
    exact ⟨⟨hplain.1.1, hplain.1.2.1, hblanks hblanks'⟩, hblanks hspace.isBlank, ih hplain.2.2⟩

theorem isBad_eq (h : Respaced xs ys) (hsound : ∀ lexeme ∈ xs, lexeme.token.isBad = false) :
    ∀ lexeme ∈ ys, lexeme.token.isBad = false := by
  have hbad := condense.any_map (p := Token.isBad) (fun _ => Token.isBad_of_isTrivia) false
  have hall : (xs.any fun lexeme => lexeme.token.isBad) = false := by simpa using hsound
  rw [← hbad xs, h.condense_eq, hbad ys] at hall
  simpa using hall

/-- Neither has trivia in front or at its end unless the other has. -/
theorem isTrivia_head (h : Respaced xs ys) (hhead : ∀ lexeme ∈ xs.head?, lexeme.isTrivia = false) :
    ∀ lexeme ∈ ys.head?, lexeme.isTrivia = false := by
  intro lexeme hmem
  cases h with
  | nil => contradiction
  | token htrivia =>
    obtain rfl := Option.some.inj hmem
    exact htrivia
  | @gap trivia xs ys space hne hvoid =>
    obtain ⟨blank, trivia, rfl⟩ := List.exists_cons_of_ne_nil hne
    have hblank := hhead blank rfl
    rw [isVoid, List.all_cons, hblank] at hvoid
    contradiction
  | quotedUrl _ _ _ htoken =>
    obtain rfl := Option.some.inj hmem
    rw [Lexeme.isTrivia, htoken]
    rfl

theorem isTrivia_last (h : Respaced xs ys)
    (hlast : ∀ lexeme ∈ xs.getLast?, lexeme.isTrivia = false) :
    ∀ lexeme ∈ ys.getLast?, lexeme.isTrivia = false := by
  have hcons : ∀ {first : Lexeme} {ys : List Lexeme}, first.isTrivia = false ∨ ys ≠ [] →
      (∀ lexeme ∈ ys.getLast?, lexeme.isTrivia = false) →
        ∀ lexeme ∈ (first :: ys).getLast?, lexeme.isTrivia = false := by
    intro first ys hfirst hys lexeme hmem
    rw [List.getLast?_cons] at hmem
    obtain rfl := Option.some.inj hmem
    cases hend : ys.getLast? with
    | none => exact hfirst.resolve_right fun hne => hne (List.getLast?_eq_none_iff.1 hend)
    | some last => exact hys last hend
  induction h with
  | nil => exact hlast
  | token htrivia _ _ ih =>
    exact hcons (.inl htrivia) (ih fun lexeme hmem => hlast lexeme (List.mem_getLast?_cons hmem))
  | @gap trivia xs ys space hne hvoid _ _ _ h ih =>
    refine hcons (.inr fun hnil => ?_) (ih fun lexeme hmem => hlast lexeme ?_)
    · obtain rfl := h.eq_nil_iff.2 hnil
      obtain ⟨front, last, rfl⟩ := List.eq_nil_or_concat trivia |>.resolve_left hne
      have htrivia := List.all_eq_true.1 hvoid last (by simp)
      rw [hlast last (by simp)] at htrivia
      contradiction
    · exact List.mem_getLast?_append_of_mem_getLast? hmem
  | @quotedUrl _ _ _ _ opener' space _ xs ys _ _ _ htoken' _ _ hwhitespace _ _ h ih =>
    have hopener : opener'.isTrivia = false := by
      rw [Lexeme.isTrivia, htoken']
      rfl
    refine hcons (.inl hopener)
      (hcons (.inr fun hnil => ?_) (ih fun lexeme hmem => hlast lexeme ?_))
    · obtain rfl := h.eq_nil_iff.2 hnil
      have htrivia := hlast space rfl
      rw [Lexeme.isTrivia, hwhitespace] at htrivia
      contradiction
    · exact List.mem_getLast?_cons (List.mem_getLast?_cons hmem)

end Lexeme.Respaced

end Css
