import Css.Proofs.Token.OpenString
import Css.Proofs.Token.Reprint

/-!
# Lexemes in front of another text

In a text without backslashes a lexeme is read as what it is in front of every text that goes on
with no token the old text did not go on with (`Lexeme.IsRead.congr`). What is left of a string or
url that was cut short is read again too: up to its newline, or with its closing bracket.
-/

namespace Css

/-! ### Chains that end inside a text -/

/-- A chain that ends inside a text without backslashes does not depend on what follows the text. -/
theorem chainLength_append_of_lt {unit : Text → Nat}
    (hunit : ∀ {c : Char}, c ≠ '\\' → ∀ x y, unit (c :: y) = unit (c :: x) ∧ unit (c :: x) ≤ 1)
    {front : Text} (hplain : '\\' ∉ front) {x : Text}
    (h : chainLength unit (front ++ x) < front.length) (y : Text) :
    chainLength unit (front ++ y) = chainLength unit (front ++ x) := by
  induction front with
  | nil => contradiction
  | cons c front ih =>
    obtain ⟨hc, hfront⟩ := not_or.1 (fun h => hplain (List.mem_cons.2 h))
    obtain ⟨hsame, hle⟩ := hunit (Ne.symm hc) (front ++ x) (front ++ y)
    rw [List.cons_append, chainLength] at h
    rw [List.cons_append, List.cons_append, chainLength, chainLength, hsame]
    split at h
    · rename_i hzero
      rw [hzero]
    · rename_i n hn
      obtain rfl : n = 0 := by omega
      simp only [hn, List.drop_zero, List.length_cons] at h ⊢
      rw [ih hfront (by omega)]

theorem exists_of_append_eq_append {front rest raw x : Text} (h : raw ++ x = front ++ rest)
    (hle : front.length ≤ raw.length) : ∃ middle, raw = front ++ middle ∧ rest = middle ++ x := by
  have hprefix : front <+: raw ++ x := ⟨rest, h.symm⟩
  obtain ⟨middle, rfl⟩ := List.prefix_of_prefix_length_le hprefix (List.prefix_append raw x) hle
  rw [List.append_assoc] at h
  exact ⟨middle, rfl, (List.append_cancel_left h).symm⟩

theorem badUrlUnit_of_ne {c : Char} (h : c ≠ '\\') (text : Text) :
    badUrlUnit (c :: text) = if c == ')' then 0 else 1 := by
  simp [badUrlUnit, escapeLength, h]

namespace Token

variable {lineComments : Bool} {raw x : Text}

/-! ### Urls that are cut short -/

theorem scanBadUrl_congr {passed : Nat} (hplain : '\\' ∉ raw) (hx : x ≠ [])
    (hlength : (scanBadUrl passed (raw ++ x)).length = passed + raw.length) (y : Text) :
    scanBadUrl passed (raw ++ y) = scanBadUrl passed (raw ++ x) := by
  obtain ⟨c, x, rfl⟩ := List.exists_cons_of_ne_nil hx
  have hunit : ∀ {c : Char}, c ≠ '\\' → ∀ x y : Text,
      badUrlUnit (c :: y) = badUrlUnit (c :: x) ∧ badUrlUnit (c :: x) ≤ 1 := by
    intro c hc x y
    rw [badUrlUnit_of_ne hc, badUrlUnit_of_ne hc]
    exact ⟨rfl, by split <;> omega⟩
  simp only [scanBadUrl, List.length_take, List.length_drop, List.length_append,
    List.length_cons] at hlength
  have hlt : chainLength badUrlUnit (raw ++ c :: x) < raw.length := by omega
  have hrest : ∀ z : Text, ((raw ++ z).drop (chainLength badUrlUnit (raw ++ c :: x))).take 1 =
      (raw.drop (chainLength badUrlUnit (raw ++ c :: x))).take 1 := by
    intro z
    rw [List.drop_append_of_le_length (Nat.le_of_lt hlt), List.take_append_of_le_length]
    rw [List.length_drop]
    omega
  rw [scanBadUrl, scanBadUrl, chainLength_append_of_lt hunit hplain hlt y, hrest, hrest]

theorem lt_length_scanBadUrl (passed : Nat) {c : Char} (hc : c ≠ ')') (bad : Text) :
    passed < (scanBadUrl passed (c :: bad)).length := by
  have hpos : 0 < chainLength badUrlUnit (c :: bad) := by
    refine chainLength_pos ?_ (List.cons_ne_nil c bad)
    simp only [badUrlUnit, beq_iff_eq, if_neg hc]
    omega
  simp only [scanBadUrl]
  omega

theorem scanUrl_bad_append {passed : Nat} {target after bad : Text} {c : Char}
    (htarget : chainLength urlUnit (target ++ (after ++ c :: bad)) = target.length)
    (hafter : ∀ c ∈ after, isBlank c = true) (hblank : isBlank c = false) (hc : c ≠ ')') :
    scanUrl passed (target ++ (after ++ c :: bad)) =
      scanBadUrl (passed + target.length + after.length) (c :: bad) := by
  have hlength : blanksLength (after ++ c :: bad) = after.length :=
    blanksLength_append hafter fun d hd => by rwa [← Option.some.inj hd]
  have hdrop : (target ++ (after ++ c :: bad)).drop
      (chainLength urlUnit (target ++ (after ++ c :: bad))) = after ++ c :: bad := by
    rw [htarget, List.drop_left]
  have htail : (after ++ c :: bad).drop (blanksLength (after ++ c :: bad)) = c :: bad := by
    rw [hlength, List.drop_left]
  rw [scanUrl_bad hdrop htail hc, htarget, hlength]

/-- A url that is cut short goes on behind its target and blanks with something else than its
closing bracket. -/
theorem exists_of_scanUrl_bad {passed : Nat} {text : Text}
    (h : (scanUrl passed text).token = badUrl) :
    ∃ target after c bad, text = target ++ (after ++ c :: bad) ∧
      chainLength urlUnit text = target.length ∧ (∀ c ∈ after, isBlank c = true) ∧
      isBlank c = false ∧ c ≠ ')' := by
  have hsplit := List.take_append_drop (chainLength urlUnit text) text
  have hlength := List.length_take_of_le (chainLength_le urlUnit_le text)
  unfold scanUrl at h
  simp only at h
  generalize text.drop (chainLength urlUnit text) = rest at *
  obtain ⟨after, tail, rfl, hblanks, hafter, htail⟩ := exists_blanks rest
  split at h
  · contradiction
  simp only [hblanks, List.drop_left] at h
  cases tail with
  | nil => exact Token.noConfusion h
  | cons c bad =>
    refine ⟨_, after, c, bad, hsplit.symm, hlength.symm, hafter, htail c rfl, ?_⟩
    rintro rfl
    contradiction

theorem lt_length_scanUrl {passed : Nat} {text : Text} (h : (scanUrl passed text).token = badUrl) :
    passed < (scanUrl passed text).length := by
  obtain ⟨target, after, c, bad, rfl, htarget, hafter, hblank, hc⟩ := exists_of_scanUrl_bad h
  have hpos := lt_length_scanBadUrl (passed + target.length + after.length) hc bad
  rw [scanUrl_bad_append htarget hafter hblank hc]
  omega

theorem scanUrl_congr {passed : Nat} (hplain : '\\' ∉ raw) (hx : x ≠ [])
    (htoken : (scanUrl passed (raw ++ x)).token = badUrl)
    (hlength : (scanUrl passed (raw ++ x)).length = passed + raw.length) (y : Text) :
    scanUrl passed (raw ++ y) = scanUrl passed (raw ++ x) := by
  have hunit : ∀ {c : Char}, c ≠ '\\' → ∀ x y : Text,
      urlUnit (c :: y) = urlUnit (c :: x) ∧ urlUnit (c :: x) ≤ 1 := by
    intro c hc x y
    rw [urlUnit_of_ne hc, urlUnit_of_ne hc]
    exact ⟨rfl, by split <;> omega⟩
  obtain ⟨target, after, c, bad, heq, htarget, hafter, hblank, hc⟩ := exists_of_scanUrl_bad htoken
  have hscan := heq ▸ @scanUrl_bad_append passed _ _ _ _ (heq ▸ htarget) hafter hblank hc
  rw [hscan] at hlength
  -- what is left of the url has a character, so its target and the blanks end in front of it
  have hpos := lt_length_scanBadUrl (passed + target.length + after.length) hc bad
  have hshort : target.length + after.length < raw.length := by omega
  have hheq : raw ++ x = (target ++ (after ++ [c])) ++ bad := by simpa using heq
  obtain ⟨bad, rfl, rfl⟩ := exists_of_append_eq_append hheq (by simp; omega)
  have hassoc : ∀ z : Text, (target ++ (after ++ [c]) ++ bad) ++ z =
      target ++ (after ++ c :: (bad ++ z)) := fun z => by simp
  have htarget' := chainLength_append_of_lt hunit hplain
    (by rw [htarget]; exact Nat.lt_of_add_right_lt hshort) y
  rw [hassoc, scanUrl_bad_append (by rw [← hassoc, htarget', htarget]) hafter hblank hc, hscan]
  show scanBadUrl _ (c :: bad ++ y) = scanBadUrl _ (c :: bad ++ x)
  refine scanBadUrl_congr ?_ hx ?_ y
  · exact fun hmem => hplain (by simp_all)
  · simp at hlength ⊢
    omega

/-- An identifier-like token that is a cut url starts with `url(`, and no string follows that. -/
theorem exists_of_scanIdentLike_bad {text : Text} (h : (scanIdentLike text).token = badUrl) :
    ∃ name before c rest, text = name ++ '(' :: (before ++ c :: rest) ∧
      name.isKeyword "url" = true ∧ (∀ c ∈ before, isBlank c = true) ∧ isBlank c = false ∧
      isQuote c = false := by
  have hends := nameEnds_take text
  have hsplit := List.take_append_drop (nameLength text) text
  generalize text.take (nameLength text) = name at hends hsplit
  generalize text.drop (nameLength text) = follow at hends hsplit
  subst hsplit
  by_cases hbracket : follow.head? = some '('
  · obtain ⟨inner, rfl⟩ := List.head?_eq_some_iff.1 hbracket
    rw [scanIdentLike_bracket hends] at h
    obtain ⟨before, tail, rfl, hlength, hbefore, htail⟩ := exists_blanks inner
    simp only [hlength, List.drop_left] at h
    split at h
    · rename_i hname
      split at h
      · contradiction
      · rename_i hquote
        obtain ⟨target, after, c, bad, rfl, -⟩ := exists_of_scanUrl_bad h
        obtain ⟨d, rest, hrest⟩ := List.exists_cons_of_ne_nil
          (by simp : target ++ (after ++ c :: bad) ≠ [])
        rw [hrest] at hquote htail ⊢
        exact ⟨name, before, d, rest, rfl, hname, hbefore, htail d rfl,
          Bool.eq_false_iff.2 hquote⟩
    · contradiction
  · rw [scanIdentLike_ident hends hbracket] at h
    contradiction

theorem scanIdentLike_congr (hplain : '\\' ∉ raw) (hx : x ≠ [])
    (htoken : (scanIdentLike (raw ++ x)).token = badUrl)
    (hlength : (scanIdentLike (raw ++ x)).length = raw.length) (y : Text) :
    scanIdentLike (raw ++ y) = scanIdentLike (raw ++ x) := by
  obtain ⟨name, before, c, rest, heq, hname, hbefore, hblank, hquote⟩ :=
    exists_of_scanIdentLike_bad htoken
  have hurl : ∀ rest : Text, scanIdentLike (name ++ '(' :: (before ++ c :: rest)) =
      scanUrl (name.length + 1 + before.length) (c :: rest) := fun rest =>
    @scanIdentLike_url name before [c] rest hname hbefore fun d hd => by
      obtain rfl := Option.some.inj hd
      exact ⟨hblank, hquote⟩
  have hscan := heq ▸ hurl rest
  rw [hscan] at htoken hlength
  have hpos := lt_length_scanUrl htoken
  have hheq : raw ++ x = (name ++ '(' :: (before ++ [c])) ++ rest := by simpa using heq
  obtain ⟨rest, rfl, rfl⟩ := exists_of_append_eq_append hheq (by simp; omega)
  have hassoc : ∀ z : Text, (name ++ '(' :: (before ++ [c]) ++ rest) ++ z =
      name ++ '(' :: (before ++ c :: (rest ++ z)) := fun z => by simp
  rw [hassoc, hurl, hscan]
  show scanUrl _ (c :: rest ++ y) = scanUrl _ (c :: rest ++ x)
  refine scanUrl_congr ?_ hx htoken ?_ y
  · exact fun hmem => hplain (by simp_all)
  · simp at hlength ⊢
    omega

/-! ### Strings that are cut short -/

theorem scanString_congr {quote : Quote} (hplain : '\\' ∉ raw)
    (htoken : (scanString quote (raw ++ x)).token = badString)
    (hlength : (scanString quote (raw ++ x)).length = 1 + raw.length) {c : Char}
    (hc : isNewline c = true) (rest : Text) :
    (scanString quote (raw ++ c :: rest)).token = badString ∧
      (scanString quote (raw ++ c :: rest)).length = 1 + raw.length := by
  have hcontent : chainLength (stringUnit quote) (raw ++ x) = raw.length := by
    unfold scanString at htoken hlength
    simp only at htoken hlength
    split at htoken
    · contradiction
    · rename_i hdrop
      simp only [hdrop] at hlength
      split at htoken
      · contradiction
      · rename_i hother
        rw [if_neg hother] at hlength
        simp only at hlength
        omega
  have hunit : ∀ {c : Char}, c ≠ '\\' → ∀ x y : Text,
      stringUnit quote (c :: y) = stringUnit quote (c :: x) ∧ stringUnit quote (c :: x) ≤ 1 := by
    intro c hc x y
    rw [stringUnit_of_ne hc, stringUnit_of_ne hc]
    exact ⟨rfl, by split <;> omega⟩
  have hplain' : c ≠ '\\' := by
    rintro rfl
    contradiction
  have hquote : (c == quote.toChar) = false := by
    cases quote <;> (rw [beq_eq_false_iff_ne]; rintro rfl; contradiction)
  have hend : stringUnit quote (c :: rest) = 0 := by
    rw [stringUnit_of_ne hplain', hc, Bool.or_true, if_pos rfl]
  have hcontent' := chainLength_congr_of_plain hunit hplain hend hcontent
  simp only [scanString, hcontent', List.drop_left, hquote, Bool.false_eq_true, if_false, and_self]

theorem scanIdentLike_ne_badString (text : Text) : (scanIdentLike text).token ≠ badString := by
  unfold scanIdentLike scanUrl scanBadUrl
  simp only
  split
  · split
    · split
      · exact Token.noConfusion
      · split
        · exact Token.noConfusion
        · split <;> exact Token.noConfusion
    · exact Token.noConfusion
  · exact Token.noConfusion

theorem scanString_ne_badUrl (quote : Quote) (text : Text) :
    (scanString quote text).token ≠ badUrl := by
  unfold scanString
  simp only
  split
  · exact Token.noConfusion
  · split <;> exact Token.noConfusion

/-- Only strings and urls are cut short. -/
theorem scan_eq_of_isBad {c : Char} {cs : Text}
    (h : (scan lineComments c cs).token.isBad = true) :
    (∃ quote : Quote, c = quote.toChar ∧ scan lineComments c cs = scanString quote cs) ∨
      scan lineComments c cs = scanIdentLike (c :: cs) := by
  have hbad : ∀ {scan : Scan}, scan.problem = none → scan.token.Reads scan.problem →
      scan.token.isBad = false := by
    intro scan hproblem hreads
    rw [hproblem] at hreads
    exact hreads.isBad_eq_false
  have hnumeric := hbad (problem_scanNumeric (c :: cs)) (reads_scanNumeric _)
  generalize hscan : scan lineComments c cs = found at h ⊢
  unfold scan at hscan
  simp only at hscan
  split at hscan
  · rename_i hchar
    subst hscan
    have := (reads_ofChar? hchar).isBad_eq_false
    simp_all
  split at hscan
  · subst hscan
    contradiction
  split at hscan
  · subst hscan
    rw [hnumeric] at h
    contradiction
  split at hscan
  · split at hscan
    · subst hscan
      unfold scanComment at h
      simp only at h
      split at h <;> contradiction
    · split at hscan <;> (subst hscan; contradiction)
    · subst hscan
      contradiction
  · exact .inl ⟨.double, rfl, hscan.symm⟩
  · exact .inl ⟨.single, rfl, hscan.symm⟩
  · split at hscan <;> (subst hscan; contradiction)
  · split at hscan <;> (subst hscan; contradiction)
  · split at hscan <;> (subst hscan; contradiction)
  · split at hscan
    · subst hscan
      contradiction
    · split at hscan
      · exact .inr hscan.symm
      · subst hscan
        contradiction
  · split at hscan
    · exact .inr hscan.symm
    · subst hscan
      contradiction
  · split at hscan
    · exact .inr hscan.symm
    · subst hscan
      contradiction

/-- What is left of a cut string is read again in front of a newline. -/
theorem scan_congr_badString {c : Char} {cs : Text} (hplain : '\\' ∉ cs)
    (htoken : (scan lineComments c (cs ++ x)).token = badString)
    (hlength : (scan lineComments c (cs ++ x)).length = cs.length + 1) {d : Char}
    (hd : isNewline d = true) (rest : Text) :
    (scan lineComments c (cs ++ d :: rest)).token = badString ∧
      (scan lineComments c (cs ++ d :: rest)).length = cs.length + 1 := by
  obtain ⟨quote, rfl, hscan⟩ | hscan := scan_eq_of_isBad (by rw [htoken]; rfl)
  · rw [hscan] at htoken hlength
    rw [scan_quote, Nat.add_comm]
    exact scanString_congr hplain htoken (by omega) hd rest
  · rw [hscan] at htoken
    exact absurd htoken (scanIdentLike_ne_badString _)

/-- What is left of a cut url is read again with its closing bracket. -/
theorem scan_congr_badUrl {c : Char} {cs : Text} (hplain : '\\' ∉ c :: cs) (hx : x ≠ [])
    (htoken : (scan lineComments c (cs ++ x)).token = badUrl)
    (hlength : (scan lineComments c (cs ++ x)).length = cs.length + 1) (y : Text) :
    scan lineComments c (cs ++ y) = scan lineComments c (cs ++ x) := by
  obtain ⟨quote, rfl, hscan⟩ | hscan := scan_eq_of_isBad (by rw [htoken]; rfl)
  · rw [hscan] at htoken
    exact absurd htoken (scanString_ne_badUrl _ _)
  · rw [hscan] at htoken hlength ⊢
    obtain ⟨name, before, d, rest, heq, hname, -⟩ := exists_of_scanIdentLike_bad htoken
    have hstarts := startsUrl_of_isKeyword hname ('(' :: (before ++ d :: rest))
    rw [← heq] at hstarts
    obtain ⟨e, tail, htail, hstart, -⟩ := startsUrl_cons hstarts
    obtain ⟨rfl, -⟩ := List.cons.inj htail
    rw [scan_of_isNameStart _ hstart]
    show scanIdentLike (c :: cs ++ y) = scanIdentLike (c :: cs ++ x)
    exact scanIdentLike_congr hplain hx htoken hlength y

/-- A token that is no whitespace stays what it is if what follows now goes on with no token that
the old text did not go on with, and with no name at the end of the token. -/
theorem Spells.congr_of_nameEnds {y raw : Text} {token : Token}
    (h : Spells lineComments x token raw) (hspace : token ≠ .whitespace) (hx : x ≠ [])
    (halike : Alike x y) (hends : ∀ name, token.endName? = some name → NameEnds name y)
    (hopens : ∀ name blanks, token = .function name → name.isKeyword "url" = true →
      raw = name ++ '(' :: blanks → OpensString blanks x → OpensString blanks y) :
    Spells lineComments y token raw := by
  by_cases hkind : token.IsPlain
  · exact h.congr hkind halike hends
  cases h with
  | whitespace => exact absurd rfl hspace
  | single hchar => exact absurd (isPlain_of_ofChar? hchar).1 hkind
  | function _ _ hname => exact absurd hname hkind
  | @quotedUrl name blanks hname hblanks hopen =>
    exact .quotedUrl hname hblanks (hopens name blanks rfl hname rfl hopen)
  | url hname hbefore hafter htarget hempty =>
    exact .url hname hbefore hafter (closedUrlLength_congr hafter htarget y) hempty
  | openUrl _ _ _ _ _ _ hnil => exact absurd hnil hx
  | _ => exact absurd trivial hkind

/-- A token without escapes that is no whitespace stays what it is if what follows now goes on with
no token that the old text did not go on with. -/
theorem Spells.congr_of_alike {y raw : Text} {token : Token} (h : Spells lineComments x token raw)
    (hspace : token ≠ .whitespace) (hplain : '\\' ∉ raw) (hx : x ≠ []) (halike : Alike x y)
    (hopens : ∀ name blanks, token = .function name → name.isKeyword "url" = true →
      raw = name ++ '(' :: blanks → OpensString blanks x → OpensString blanks y) :
    Spells lineComments y token raw := by
  refine h.congr_of_nameEnds hspace hx halike (fun name hname => ?_) hopens
  obtain ⟨hends, hsubset⟩ := h.nameEnds hname
  exact hends.congr_of_plain (fun hmem => hplain (hsubset hmem))
    (Decidable.byContradiction fun hne => halike.unit hne hends.nameUnit_eq_zero)

end Token

namespace Lexeme

variable {lineComments : Bool} {lexeme : Lexeme} {x y : Text}

/-- A sound token in front of a text does not lack its end. -/
theorem IsRead.spells (h : IsRead lineComments lexeme x) (hx : x ≠ [])
    (htrivia : lexeme.isTrivia = false) (hbad : lexeme.token.isBad = false)
    (hplain : '\\' ∉ lexeme.raw) : Token.Spells lineComments x lexeme.token lexeme.raw := by
  obtain ⟨c, cs, hraw, htoken, hlength⟩ := h
  rw [Lexeme.isTrivia, ← htoken] at htrivia
  rw [← htoken] at hbad
  cases hproblem : (Token.scan lineComments c (cs ++ x)).problem with
  | none =>
    have hspelled := Token.isSpelled_scan lineComments hproblem fun content heq => by
      rw [heq] at htrivia
      contradiction
    rwa [Token.Scan.IsSpelled, htoken, hlength, ← List.cons_append, ← hraw, List.take_left,
      List.drop_left] at hspelled
  | some problem =>
    have hc : c ≠ '\\' := by
      rintro rfl
      exact hplain (by simp [hraw])
    have hopen := (Token.isOpen_scan hc htrivia hproblem).resolve_left (Bool.eq_false_iff.1 hbad)
    have hdelim : (Token.scan lineComments c (cs ++ x)).token ≠ .delim '\\' := by
      generalize (Token.scan lineComments c (cs ++ x)).token = token at hopen
      cases hopen <;> exact Token.noConfusion
    have htakes := Token.openTakes_scan lineComments c (cs ++ x) (by rw [hproblem]; rfl) hbad hdelim
    rw [hlength, hraw, List.length_cons, List.length_append] at htakes
    exact absurd (List.length_eq_zero_iff.1 (by omega)) hx

/-- A lexeme that is no trivia is read as what it is in front of every text that goes on with no
token the old text did not go on with, if a cut string still stands in front of a newline. -/
theorem IsRead.congr (h : IsRead lineComments lexeme x) (htrivia : lexeme.isTrivia = false)
    (hplain : '\\' ∉ lexeme.raw) (halike : Alike x y) (hend : x = [] → y = [])
    (hopens : ∀ name blanks, lexeme.token = .function name → name.isKeyword "url" = true →
      lexeme.raw = name ++ '(' :: blanks → Token.OpensString blanks x →
        Token.OpensString blanks y)
    (hcut : lexeme.token = .badString → ∃ c rest, y = c :: rest ∧ isNewline c = true) :
    IsRead lineComments lexeme y := by
  by_cases hx : x = []
  · rw [hend hx, ← hx]
    exact h
  cases hbad : lexeme.token.isBad with
  | false =>
    have hspace : lexeme.token ≠ .whitespace := by
      intro heq
      rw [Lexeme.isTrivia, heq] at htrivia
      contradiction
    have hspells := h.spells hx htrivia hbad hplain
    obtain ⟨c, cs, hraw, hscan⟩ :=
      (hspells.congr_of_alike hspace hplain hx halike hopens).scan_eq
    exact ⟨c, cs, hraw, by rw [hscan], by rw [hscan]⟩
  | true =>
    obtain ⟨c, cs, hraw, htoken, hlength⟩ := h
    rw [hraw, List.length_cons] at hlength
    rw [hraw] at hplain
    refine ⟨c, cs, hraw, ?_⟩
    rw [hraw, List.length_cons]
    cases hscan : (Token.scan lineComments c (cs ++ x)).token with
    | badString =>
      obtain ⟨d, rest, rfl, hd⟩ := hcut (by rw [← htoken, hscan])
      rw [← htoken, hscan]
      exact Token.scan_congr_badString (fun hmem => hplain (List.mem_cons_of_mem c hmem)) hscan
        hlength hd rest
    | badUrl =>
      rw [Token.scan_congr_badUrl hplain hx hscan hlength y]
      exact ⟨htoken, hlength⟩
    | _ =>
      rw [← htoken, hscan] at hbad
      contradiction

/-! ### Backslashes -/

theorem IsRead.escapeLength_of_backslash (h : IsRead lineComments lexeme x)
    (hraw : lexeme.raw = ['\\']) : escapeLength ('\\' :: x) = 0 := by
  obtain ⟨d, ds, hcons, -, hlength⟩ := h
  obtain ⟨rfl, rfl⟩ := List.cons.inj (hraw.symm.trans hcons)
  refine Nat.eq_zero_of_not_pos fun hpos => ?_
  have hstarts : startsName ('\\' :: x) = true := by
    simp [startsName, startsPlainName, Nat.ne_of_gt hpos]
  have hname := two_le_nameLength hpos
  have hle := Token.nameLength_le_scanIdentLike ('\\' :: x)
  rw [List.nil_append, Token.scan_backslash, if_pos hstarts, hraw] at hlength
  rw [hlength] at hle
  exact absurd (Nat.le_trans hname hle) (by decide)

/-- No lexeme is a hyphen and a lone backslash. -/
theorem IsRead.raw_ne_hyphen (h : IsRead lineComments lexeme x) : lexeme.raw ≠ ['-', '\\'] := by
  intro hraw
  obtain ⟨d, ds, hcons, -, hlength⟩ := h
  obtain ⟨rfl, rfl⟩ := List.cons.inj (hraw.symm.trans hcons)
  rw [List.singleton_append, Token.scan_hyphen _ rfl (by simp), hraw] at hlength
  split at hlength
  · rename_i hstarts
    rw [startsName_hyphen (by decide)] at hstarts
    have hpos : 0 < escapeLength ('\\' :: x) := by
      simpa [startsPlainName, isNameStart, Nat.pos_iff_ne_zero] using hstarts
    have hname : nameLength ('-' :: '\\' :: x) = 1 + nameLength ('\\' :: x) := by
      rw [nameLength, chainLength]
      rfl
    have hrest := two_le_nameLength hpos
    have hle := Token.nameLength_le_scanIdentLike ('-' :: '\\' :: x)
    rw [hlength, List.length_cons, List.length_singleton] at hle
    omega
  · contradiction

end Lexeme

end Css
