import Css.Proofs.Token.Spaced
import Css.Proofs.Token.Level

/-!
# Source text read again

The source text that is kept of some lexemes is read as these lexemes, with other trivia between
them: as they were written, or with one space for the trivia between two of them.
-/

namespace Css

/-! ### Last characters -/

theorem wholeLength_append_le {front x : Text} (hdigit : startsDigit x = false)
    (hsign : signLength x = 0) :
    signLength (front ++ x) + digitsLength ((front ++ x).drop (signLength (front ++ x))) ≤
      front.length := by
  cases front with
  | nil =>
    rw [List.nil_append, hsign, List.drop_zero, Nat.zero_add]
    exact @Token.digitsLength_append_le [] x hdigit
  | cons c front =>
    have hle := signLength_le (c :: front)
    rw [signLength_append (List.cons_ne_nil c front), List.drop_append_of_le_length hle]
    have hdigits := @Token.digitsLength_append_le ((c :: front).drop (signLength (c :: front))) x
      hdigit
    rw [List.length_drop] at hdigits
    omega

theorem fractionLength_append_le {front x : Text} (hdigit : startsDigit x = false)
    (hfraction : fractionLength x = 0) : fractionLength (front ++ x) ≤ front.length := by
  cases front with
  | nil => exact Nat.le_of_eq hfraction
  | cons c front =>
    have hdigits := @Token.digitsLength_append_le front x hdigit
    by_cases hc : c = '.'
    · subst hc
      simp only [List.cons_append, fractionLength, List.length_cons]
      split <;> omega
    · simp [fractionLength, hc]

theorem exponentLength_append_le {front x : Text} (hdigit : startsDigit x = false)
    (hsign : signLength x = 0) (hexponent : exponentLength x = 0) :
    exponentLength (front ++ x) ≤ front.length := by
  cases front with
  | nil => exact Nat.le_of_eq hexponent
  | cons c front =>
    have hwhole := @wholeLength_append_le front x hdigit hsign
    simp only [List.cons_append, exponentLength, List.length_cons]
    split <;> omega

/-- A numeral does not reach into a text that starts like no part of one. -/
theorem numeralLength_append_le {front x : Text} (hdigit : startsDigit x = false)
    (hsign : signLength x = 0) (hfraction : fractionLength x = 0)
    (hexponent : exponentLength x = 0) :
    numeralLength (front ++ x) ≤ front.length := by
  have hwhole := @wholeLength_append_le front x hdigit hsign
  simp only [numeralLength, numeralParts]
  generalize signLength (front ++ x) + digitsLength ((front ++ x).drop (signLength (front ++ x))) =
    whole at hwhole ⊢
  have hpoint := @fractionLength_append_le (front.drop whole) x hdigit hfraction
  rw [List.drop_append_of_le_length hwhole]
  generalize fractionLength (front.drop whole ++ x) = fraction at hpoint ⊢
  rw [List.length_drop] at hpoint
  have hletter := @exponentLength_append_le (front.drop (whole + fraction)) x hdigit hsign hexponent
  rw [List.drop_append_of_le_length (by omega)]
  rw [List.length_drop] at hletter
  omega

theorem NameEnds.isNameChar_of_plain {name follow : Text} (h : NameEnds name follow)
    (hplain : '\\' ∉ name) : ∀ c ∈ name, isNameChar c = true := by
  induction name with
  | nil => exact fun _ hmem => nomatch hmem
  | cons c name ih =>
    obtain ⟨hc, hname⟩ := not_or.1 (fun h => hplain (List.mem_cons.2 h))
    have hpos := h.nameUnit_pos
    rw [nameUnit_of_ne (Ne.symm hc)] at hpos
    have hchar : isNameChar c = true := by
      cases hchar : isNameChar c with
      | true => rfl
      | false => simp [hchar] at hpos
    exact List.forall_mem_cons.2 ⟨hchar, ih (h.tail hchar) hname⟩

/-- No numeral ends in a space. -/
theorem NumeralEnds.ne_concat {numeral follow : Text} (h : NumeralEnds numeral follow)
    (front : Text) : numeral ≠ front ++ [' '] := by
  rintro rfl
  have hle : numeralLength (front ++ ' ' :: follow) ≤ front.length :=
    numeralLength_append_le rfl rfl rfl rfl
  rw [NumeralEnds, List.append_assoc, List.singleton_append, List.length_append] at h
  simp only [List.length_singleton] at h
  omega

/-- Only the bracket of a quoted url has a space at its end, unless the token is whitespace, the
last one of its text, or its name ends in an escape. -/
theorem Token.Spells.exists_quotedUrl {lineComments : Bool} {follow raw : Text} {token : Token}
    (h : Spells lineComments follow token raw) (hlast : raw.getLast? = some ' ')
    (hspace : token ≠ .whitespace) (hfollow : follow ≠ [])
    (hnames : ∀ name, token.endName? = some name → name.getLast? ≠ some ' ') :
    ∃ name, token = .function name ∧ name.isKeyword "url" = true := by
  have hend : ∀ {p : Text} {c : Char}, c ≠ ' ' → raw ≠ p ++ [c] := by
    rintro p c hc rfl
    exact hc (by simpa using hlast)
  have hname : ∀ {p name : Text}, token.endName? = some name → name ≠ [] → raw ≠ p ++ name := by
    rintro p name hname hne heq
    obtain ⟨name, c, rfl⟩ := List.eq_nil_or_concat name |>.resolve_left hne
    refine hend (p := p ++ name) (c := c) ?_ (by rw [heq]; simp)
    rintro rfl
    exact hnames _ hname (by simp)
  cases h with
  | @single c hchar =>
    refine absurd rfl (hend (p := []) (c := c) ?_)
    rintro rfl
    contradiction
  | whitespace => exact absurd rfl hspace
  | number _ hends =>
    obtain ⟨front, hfront⟩ := List.getLast?_eq_some_iff.1 hlast
    exact absurd hfront (hends.ne_concat front)
  | percentage => exact absurd rfl (hend (by decide))
  | dimension _ _ hstart hends => exact absurd rfl (hname rfl (hends.ne_nil hstart))
  | @string content quote =>
    refine absurd (List.cons_append ..).symm (hend (p := quote.toChar :: content) ?_)
    cases quote <;> decide
  | @hash name hne => exact absurd rfl (hname (p := ['#']) rfl hne)
  | @atKeyword name hstarts hends =>
    exact absurd rfl (hname (p := ['@']) rfl (hends.ne_nil hstarts))
  | cdo => exact absurd rfl (hend (p := ['<', '!', '-']) (c := '-') (by decide))
  | cdc => exact absurd rfl (hend (p := ['-', '-']) (c := '>') (by decide))
  | ident hstarts hends => exact absurd rfl (hname (p := []) rfl (hends.ne_nil hstarts))
  | function => exact absurd rfl (hend (by decide))
  | @quotedUrl name blanks hurl => exact ⟨name, rfl, hurl⟩
  | @url name before target after =>
    exact absurd (by simp) (hend (p := name ++ '(' :: (before ++ (target ++ after))) (c := ')')
      (by decide))
  | openUrl _ _ _ _ _ _ hnil => exact absurd hnil hfollow
  | @delim c hends =>
    refine absurd rfl (hend (p := []) (c := c) ?_)
    rintro rfl
    exact absurd (show startsToken ' ' = false from hends) (by decide)

namespace Lexeme

variable {lineComments : Bool} {lexeme : Lexeme} {xs : List Lexeme} {x : Text}

/-! ### Single spaces for trivia -/

theorem dropTrivia_of_isTrivia (h : lexeme.isTrivia = true) (lexemes : List Lexeme) :
    dropTrivia (lexeme :: lexemes) = dropTrivia lexemes :=
  List.dropWhile_cons_of_pos h

theorem dropTrivia_of_not_isTrivia (h : lexeme.isTrivia = false) (lexemes : List Lexeme) :
    dropTrivia (lexeme :: lexemes) = lexeme :: lexemes :=
  List.dropWhile_cons_of_neg (by simp [h])

def space : Lexeme := ⟨.whitespace, .point 0, [' ']⟩

theorem isSpace_space : space.IsSpace :=
  ⟨rfl, List.cons_ne_nil _ _, List.forall_mem_singleton.2 rfl⟩

/-- One space for all trivia at the front. -/
theorem Respaced.space {ys : List Lexeme} (h : Respaced (dropTrivia xs) ys)
    (htrivia : lexeme.isTrivia = true) : Respaced (lexeme :: xs) (Lexeme.space :: ys) := by
  rw [← List.takeWhile_append_dropWhile (p := isTrivia) (l := xs), ← List.cons_append]
  refine .gap (List.cons_ne_nil _ _) ?_ (fun first hfirst => ?_) isSpace_space (fun _ _ _ => rfl) h
  · rw [isVoid, List.all_cons, htrivia]
    exact List.all_takeWhile
  · have hdrop := List.head?_dropWhile_not isTrivia xs
    rw [Option.mem_def.1 hfirst] at hdrop
    simpa using hdrop

/-- Behind the bracket of a quoted url one blank at most is no part of it. -/
theorem IsRead.eq_cons_of_quotedUrl (hopener : IsRead lineComments lexeme (text xs ++ x))
    (hread : EachStands (IsRead lineComments) xs x) {name blanks : Text}
    (htoken : lexeme.token = .function name) (hname : name.isKeyword "url" = true)
    (hraw : lexeme.raw = name ++ '(' :: blanks) (hxs : xs ≠ []) (hblanks : blanks ≠ []) :
    ∃ blank rest, xs = blank :: rest ∧ blank.token = .whitespace ∧ dropTrivia rest = rest := by
  obtain ⟨hnil, -⟩ | ⟨b, q, tail, hstarts, hblank, hquote⟩ :=
    (hopener.spells_function htoken).opensString hname hraw
  · exact absurd hnil hblanks
  · obtain ⟨blank, rest, rfl⟩ := List.exists_cons_of_ne_nil hxs
    rw [text_cons, List.append_assoc] at hstarts
    obtain ⟨hwhitespace, hrest⟩ := hread.1.eq_whitespace hstarts hblank hquote
    refine ⟨blank, rest, rfl, hwhitespace, dropTrivia_eq_self fun first hfirst => ?_⟩
    obtain ⟨more, rfl⟩ := List.head?_eq_some_iff.1 hfirst
    cases htrivia : first.isTrivia with
    | false => rfl
    | true =>
      rw [text_cons, List.append_assoc] at hrest
      rw [hread.2.1.isQuote_head htrivia hrest] at hquote
      contradiction

/-- Behind the bracket of a quoted url stand blanks, the last of them as it was read. -/
theorem IsRead.exists_blanks (h : IsRead lineComments lexeme x) {name : Text}
    (htoken : lexeme.token = .function name) (hname : name.isKeyword "url" = true)
    (hlast : lexeme.raw.getLast? = some ' ') :
    ∃ blanks, lexeme.raw = name ++ '(' :: (blanks ++ [' ']) ∧
      ∀ c ∈ blanks, Css.isBlank c = true := by
  have hspells := h.spells_function htoken
  generalize lexeme.raw = raw at hspells hlast
  cases hspells with
  | single hchar =>
    exact absurd ((Token.isPlain_of_ofChar? hchar).1.symm.trans hname) Bool.noConfusion
  | function _ _ hother => exact absurd (hother.symm.trans hname) Bool.noConfusion
  | @quotedUrl _ blanks _ hblanks =>
    obtain rfl | ⟨blanks, c, rfl⟩ := List.eq_nil_or_concat blanks
    · simp at hlast
    · obtain rfl : c = ' ' := by simpa [List.getLast?_cons] using hlast
      exact ⟨blanks, by simp, fun c hc => hblanks c (by simp [hc])⟩

/-- Whether a lexeme in front of trivia has no space at its end, unless it is trivia itself or the
bracket of a quoted url. -/
def EndsUnspaced (left right : Lexeme) : Prop :=
  right.isTrivia = true → left.isTrivia = false → left.raw.getLast? = some ' ' →
    ∃ name, left.token = .function name ∧ name.isKeyword "url" = true

theorem isChain_endsUnspaced (hread : EachStands (IsRead lineComments) xs x)
    (hplain : '\\' ∉ text xs) (hbad : ∀ lexeme ∈ xs, lexeme.token.isBad = false) :
    xs.IsChain EndsUnspaced := by
  induction xs with
  | nil => exact .nil
  | cons lexeme xs ih =>
    rw [text_cons] at hplain
    have hraw : '\\' ∉ lexeme.raw := fun hmem => hplain (List.mem_append_left _ hmem)
    obtain ⟨hsound, hbad⟩ := List.forall_mem_cons.1 hbad
    have ih := ih hread.2 (fun hmem => hplain (List.mem_append_right _ hmem)) hbad
    cases xs with
    | nil => exact .singleton _
    | cons next xs =>
      refine List.isChain_cons_cons.2 ⟨fun _ htrivia hlast => ?_, ih⟩
      have hne : text (next :: xs) ++ x ≠ [] := by simp [hread.2.1.raw_ne_nil]
      have hspells := hread.1.spells hne htrivia hsound hraw
      refine hspells.exists_quotedUrl hlast (fun htoken => ?_) hne fun name hname hspace => ?_
      · rw [Lexeme.isTrivia, htoken] at htrivia
        contradiction
      · obtain ⟨hends, hsubset⟩ := hspells.nameEnds hname
        obtain ⟨front, rfl⟩ := List.getLast?_eq_some_iff.1 hspace
        exact absurd (hends.isNameChar_of_plain (fun hmem => hraw (hsubset hmem)) ' ' (by simp))
          (by decide)

/-- Source text with single spaces for trivia has other trivia between the same lexemes. Behind a
space the trivia at the front are left out. -/
theorem exists_respaced_joinSpaced (hread : EachStands (IsRead lineComments) xs x)
    (hends : xs.IsChain EndsUnspaced) (hbad : ∀ lexeme ∈ xs, lexeme.token.isBad = false)
    (front : Text) :
    ∃ ys, Respaced (if front.getLast? = some ' ' then dropTrivia xs else xs) ys ∧
      joinSpaced front xs = front ++ text ys ∧
      ∀ lexeme ∈ ys, lexeme.isTrivia = true → lexeme = space := by
  induction xs generalizing front with
  | nil =>
    refine ⟨[], ?_, (List.append_nil front).symm, List.forall_mem_nil _⟩
    split <;> exact .nil
  | cons lexeme xs ih =>
    obtain ⟨hsound, hbad⟩ := List.forall_mem_cons.1 hbad
    have ih := ih hread.2 hends.of_cons hbad
    cases htrivia : lexeme.isTrivia with
    | true =>
      rw [joinSpaced, if_pos htrivia, dropTrivia_of_isTrivia htrivia]
      by_cases hlast : front.getLast? = some ' '
      · obtain ⟨ys, hys, htext, hspaces⟩ := ih front
        rw [if_pos hlast] at hys
        rw [if_pos hlast, if_pos hlast]
        exact ⟨ys, hys, htext, hspaces⟩
      · obtain ⟨ys, hys, htext, hspaces⟩ := ih (front ++ [' '])
        rw [if_pos (List.getLast?_concat ..)] at hys
        refine ⟨space :: ys, ?_, ?_, List.forall_mem_cons.2 ⟨fun _ => rfl, hspaces⟩⟩
        · rw [if_neg hlast]
          exact hys.space htrivia
        · rw [if_neg hlast, htext, List.append_assoc]
          rfl
    | false =>
      obtain ⟨ys, hys, htext, hspaces⟩ := ih (front ++ lexeme.raw)
      rw [joinSpaced, htrivia, if_neg Bool.false_ne_true, htext, List.append_assoc,
        dropTrivia_of_not_isTrivia htrivia, ite_self]
      have hsolid : ∀ {first : Lexeme}, first.isTrivia = false →
          first.isTrivia = true → first = space := fun h h' => Bool.noConfusion (h.symm.trans h')
      have hkept : Respaced xs ys → ∃ ys', Respaced (lexeme :: xs) ys' ∧
          front ++ (lexeme.raw ++ text ys) = front ++ text ys' ∧
          ∀ lexeme ∈ ys', lexeme.isTrivia = true → lexeme = space := by
        refine fun hys => ⟨lexeme :: ys, .token htrivia (fun htoken => ?_) hys, rfl,
          List.forall_mem_cons.2 ⟨hsolid htrivia, hspaces⟩⟩
        rw [htoken] at hsound
        contradiction
      by_cases hlast : (front ++ lexeme.raw).getLast? = some ' '
      · rw [if_pos hlast] at hys
        by_cases hdrop : dropTrivia xs = xs
        · exact hkept (hdrop ▸ hys)
        -- a space that stands in front of trivia is that behind the bracket of a quoted url
        obtain ⟨next, xs, rfl⟩ := List.exists_cons_of_ne_nil fun hnil : xs = [] =>
          hdrop (by rw [hnil]; rfl)
        have hnext : next.isTrivia = true := by
          cases hnext : next.isTrivia with
          | true => rfl
          | false => exact absurd (dropTrivia_of_not_isTrivia hnext xs) hdrop
        have hlast' : lexeme.raw.getLast? = some ' ' := by
          rw [List.getLast?_append] at hlast
          cases hraw : lexeme.raw.getLast? with
          | none => exact absurd (List.getLast?_eq_none_iff.1 hraw) hread.1.raw_ne_nil
          | some c => rwa [hraw] at hlast
        obtain ⟨name, htoken, hname⟩ := (List.isChain_cons_cons.1 hends).1 hnext htrivia hlast'
        obtain ⟨blanks, hquoted, hblanks⟩ := hread.1.exists_blanks htoken hname hlast'
        obtain ⟨_, _, heq, hwhitespace, hself⟩ := hread.1.eq_cons_of_quotedUrl hread.2 htoken hname
          hquoted (List.cons_ne_nil next xs) (by simp)
        obtain ⟨rfl, rfl⟩ := List.cons.inj heq
        rw [dropTrivia_of_isTrivia hnext, hself] at hys
        refine ⟨⟨.function name, .point 0, name ++ '(' :: blanks⟩ :: space :: ys,
          .quotedUrl hname htoken hquoted rfl rfl hblanks hwhitespace isSpace_space rfl hys, ?_,
          List.forall_mem_cons.2
            ⟨hsolid rfl, List.forall_mem_cons.2 ⟨fun _ => rfl, hspaces⟩⟩⟩
        simp [hquoted, space]
      · rw [if_neg hlast] at hys
        exact hkept hys

/-- No block starts at the end of lexemes whose brackets are closed. -/
theorem endsBefore_trim (hclosed : IsClosed xs) (x : Text) : EndsBefore x (trim xs) := by
  refine .inr fun last hlast =>
    ⟨isTrivia_of_mem_getLast?_trim xs last hlast, fun name htoken => ?_⟩
  exact absurd (isClosed_trim hclosed) (not_isClosed_of_getLast? hlast (by rw [htoken]; rfl))

/-- The source text of some lexemes has other trivia between the same lexemes. -/
theorem AreRead.exists_respaced_rawText (h : AreRead lineComments xs x)
    (hbad : ∀ lexeme ∈ xs, lexeme.token.isBad = false) :
    ∃ ys, Respaced (trim xs) ys ∧ text ys = rawText xs := by
  have hbad : ∀ lexeme ∈ trim xs, lexeme.token.isBad = false :=
    fun lexeme hmem => hbad lexeme ((isInfix_trim xs).subset hmem)
  obtain ⟨before, after, heq, -⟩ := exists_trim xs
  rw [heq] at h
  have hinner := h.append_right.append_left
  cases hcomment : (trim xs).any isComment with
  | true =>
    have hends := isChain_endsUnspaced hinner.read
      (fun hmem => hinner.plain (List.mem_append_left _ hmem)) hbad
    obtain ⟨ys, hys, htext, -⟩ := exists_respaced_joinSpaced hinner.read hends hbad []
    exact ⟨ys, hys, by rw [rawText, if_pos hcomment, htext]; rfl⟩
  | false =>
    obtain ⟨ys, hys, htext⟩ := exists_respaced_spaced hinner.read hinner.plain (.inr hbad)
    refine ⟨ys, hys, ?_⟩
    rw [rawText, hcomment, if_neg Bool.false_ne_true, htext, List.flatMap_def, List.flatMap_def]
    refine congrArg List.flatten (List.map_congr_left fun lexeme hmem => ?_)
    rw [spaced, if_neg (List.any_eq_false.1 hcomment lexeme hmem)]

/-- What is read again with other trivia between its lexemes is scanned where a text follows that
goes on with no token. -/
theorem AreRead.areScanned_respaced {lineComments : Bool} {value ys : List Lexeme} {x y : Text}
    (h : AreRead lineComments value x) (hx : x ≠ []) (hclosed : IsClosed value)
    (hsound : ∀ lexeme ∈ value, lexeme.token.isBad = false) (hys : Respaced (trim value) ys)
    (hy : StandsApart y) (hne : y ≠ []) :
    AreScanned lineComments ys y ∧
      (ys ≠ [] → ∀ c rest, text ys ++ y = c :: rest → isBlank c = false) := by
  obtain ⟨before, after, heq, -⟩ := exists_trim value
  have hinner := (heq ▸ h : AreRead lineComments (before ++ (trim value ++ after)) x)
    |>.append_right.append_left
  have hbehind : text after ++ x ≠ [] := by simp [hx]
  have hstands := hys.eachStands hinner.read hinner.plain (endsBefore_trim hclosed _) hy
    fun hnil => absurd hnil hbehind
  refine ⟨areScanned_of_isRead hstands hne (fun lexeme hmem => ⟨hys.isComment_eq lexeme hmem,
    hys.isBad_eq (fun lexeme hmem => ?_) lexeme hmem⟩) (hys.plain fun hmem => ?_), fun hsome => ?_⟩
  · exact hsound lexeme ((isInfix_trim value).subset hmem)
  · exact hinner.plain (List.mem_append_left _ hmem)
  · exact hys.isBlank_head hinner.read (isTrivia_of_mem_head?_trim value) fun hnil =>
      absurd (hys.eq_nil_iff.1 hnil) hsome

/-- The source text of what has other trivia between the lexemes, and more at both ends. -/
theorem Respaced.rawText_append {ys before after : List Lexeme} (h : Respaced (trim xs) ys)
    (hbefore : isVoid before = true) (hafter : isVoid after = true) :
    rawText (before ++ (ys ++ after)) = text ys := by
  have htrim := trim_append hbefore hafter (h.isTrivia_head (isTrivia_of_mem_head?_trim xs))
    (h.isTrivia_last (isTrivia_of_mem_getLast?_trim xs))
  have hcomment : ys.any isComment = false := by
    simpa [List.any_eq_false] using h.isComment_eq
  rw [rawText, htrim, if_neg (by simp [hcomment])]
  rfl

end Lexeme

def TokenRun.ofText (lineComments : Bool) (text : Text) : TokenRun :=
  ofLexemes ((Reading.all lineComments 0 text).map (·.lexeme))

def Style.gap (style : Style) : List Lexeme := if style.minify then [] else [Lexeme.space]

theorem Style.text_gap (style : Style) : Lexeme.text style.gap = style.space := by
  unfold gap space
  split <;> rfl

theorem Style.isVoid_gap (style : Style) : Lexeme.isVoid style.gap = true := by
  unfold gap
  split <;> rfl

end Css
