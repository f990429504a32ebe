import Css.Token.Reading

/-!
# What a token starts with

One equation for each way a token can start: `Token.scan` takes the first one whose characters
stand at the front of the text, and a character that starts nothing is a delimiter.
-/

namespace Css

/-! ### Letters and digits -/

theorem isDigit_iff {c : Char} : c.isDigit = true ↔ 48 ≤ c.toNat ∧ c.toNat ≤ 57 :=
  Bool.and_eq_true_iff.trans (and_congr decide_eq_true_iff decide_eq_true_iff)

theorem isAlpha_iff {c : Char} :
    c.isAlpha = true ↔
      (65 ≤ c.toNat ∧ c.toNat ≤ 90) ∨ (97 ≤ c.toNat ∧ c.toNat ≤ 122) := by
  have hupper : c.isUpper = true ↔ 65 ≤ c.toNat ∧ c.toNat ≤ 90 := decide_eq_true_iff
  have hlower : c.isLower = true ↔ 97 ≤ c.toNat ∧ c.toNat ≤ 122 :=
    Bool.and_eq_true_iff.trans (and_congr decide_eq_true_iff decide_eq_true_iff)
  exact Bool.or_eq_true_iff.trans (or_congr hupper hlower)

namespace Token

/-! ### Urls, identifiers and functions -/

theorem scanUrl_closed {passed : Nat} {text after tail : Text}
    (hafter : text.drop (chainLength urlUnit text) = after)
    (htail : after.drop (blanksLength after) = ')' :: tail) :
    scanUrl passed text =
      { token := url (text.take (chainLength urlUnit text))
        length := passed + chainLength urlUnit text + blanksLength after + 1 } := by
  rcases after with _ | ⟨c, after⟩
  · simp at htail
  · simp only [scanUrl, hafter, htail]

theorem scanUrl_bad {passed : Nat} {text after tail : Text} {c : Char}
    (hafter : text.drop (chainLength urlUnit text) = after)
    (htail : after.drop (blanksLength after) = c :: tail) (hc : c ≠ ')') :
    scanUrl passed text =
      scanBadUrl (passed + chainLength urlUnit text + blanksLength after) (c :: tail) := by
  rcases after with _ | ⟨d, after⟩
  · simp at htail
  · simp only [scanUrl, hafter, htail]
    split
    · contradiction
    · rename_i heq
      exact absurd (List.cons.inj heq).1 hc
    · rfl

theorem scanIdentLike_of_no_bracket {text : Text}
    (h : (text.drop (nameLength text)).head? ≠ some '(') :
    scanIdentLike text =
      { token := ident (text.take (nameLength text)), length := nameLength text } := by
  unfold scanIdentLike
  simp only
  split
  · rename_i heq
    simp [heq] at h
  · rfl

theorem scanIdentLike_of_bracket {text inner : Text}
    (h : text.drop (nameLength text) = '(' :: inner) :
    scanIdentLike text =
      if Text.isKeyword (text.take (nameLength text)) "url" then
        if ((inner.drop (blanksLength inner)).head?.map isQuote).getD false then
          { token := function (text.take (nameLength text))
            length := nameLength text + 1 + (blanksLength inner - 1) }
        else scanUrl (nameLength text + 1 + blanksLength inner) (inner.drop (blanksLength inner))
      else
        { token := function (text.take (nameLength text)), length := nameLength text + 1 } := by
  simp only [scanIdentLike, h]

theorem nameLength_le_scanIdentLike (text : Text) :
    nameLength text ≤ (scanIdentLike text).length := by
  by_cases h : ∃ inner, text.drop (nameLength text) = '(' :: inner
  · obtain ⟨inner, hinner⟩ := h
    have hurl := (scanUrl_length (nameLength text + 1 + blanksLength inner)
      (inner.drop (blanksLength inner))).1
    rw [scanIdentLike_of_bracket hinner]
    split
    · split
      · dsimp only; omega
      · omega
    · dsimp only; omega
  · have hhead : (text.drop (nameLength text)).head? ≠ some '(' := by
      intro hhead
      obtain ⟨inner, hinner⟩ := List.head?_eq_some_iff.1 hhead
      exact h ⟨inner, hinner⟩
    have hident := congrArg Scan.length (scanIdentLike_of_no_bracket hhead)
    exact Nat.le_of_eq hident.symm

/-! ### First characters -/

variable (lineComments : Bool)

theorem scan_of_ofChar? {c : Char} {token : Token} (h : ofChar? c = some token) (cs : Text) :
    scan lineComments c cs = { token, length := 1 } := by
  simp only [scan, h]

theorem ofChar?_of_isBlank {c : Char} (h : isBlank c = true) : ofChar? c = none := by
  simp only [isBlank, isNewline, Bool.or_eq_true, beq_iff_eq] at h
  obtain (((rfl | rfl) | rfl) | rfl) | rfl := h <;> rfl

theorem scan_of_isBlank {c : Char} (h : isBlank c = true) (cs : Text) :
    scan lineComments c cs = { token := whitespace, length := 1 + blanksLength cs } := by
  simp only [scan, ofChar?_of_isBlank h, h, if_true]

theorem startsNumeral_cons {c : Char} {cs : Text} (h : startsNumeral (c :: cs) = true) :
    c = '+' ∨ c = '-' ∨ c = '.' ∨ c.isDigit = true := by
  by_cases hplus : c = '+'
  · exact .inl hplus
  by_cases hminus : c = '-'
  · exact .inr (.inl hminus)
  by_cases hpoint : c = '.'
  · exact .inr (.inr (.inl hpoint))
  have hsign : signLength (c :: cs) = 0 := by simp [signLength, hplus, hminus]
  rw [startsNumeral, hsign, List.drop_zero] at h
  split at h
  · rename_i heq
    exact absurd (List.cons.inj heq).1 hpoint
  · rename_i heq
    rw [(List.cons.inj heq).1]
    exact .inr (.inr (.inr h))
  · contradiction

theorem startsNumeral_of_isDigit {c : Char} (h : c.isDigit = true) (cs : Text) :
    startsNumeral (c :: cs) = true := by
  have hplus : c ≠ '+' := by rintro rfl; exact absurd h (by decide)
  have hminus : c ≠ '-' := by rintro rfl; exact absurd h (by decide)
  have hpoint : c ≠ '.' := by rintro rfl; exact absurd h (by decide)
  have hsign : signLength (c :: cs) = 0 := by simp [signLength, hplus, hminus]
  rw [startsNumeral, hsign, List.drop_zero]
  cases cs <;> simp [hpoint, h]

/-- Nothing that starts with this character is a numeral, and it is no token on its own. -/
theorem scan_numeral {c : Char} {cs : Text} (h : startsNumeral (c :: cs) = true) :
    scan lineComments c cs = scanNumeric (c :: cs) := by
  have hchar : ofChar? c = none ∧ isBlank c = false := by
    obtain rfl | rfl | rfl | hdigit := startsNumeral_cons h
    · decide
    · decide
    · decide
    · constructor
      · unfold ofChar?
        split <;> first | rfl | exact absurd hdigit (by decide)
      · cases hblank : isBlank c with
        | false => rfl
        | true =>
          simp only [isBlank, isNewline, Bool.or_eq_true, beq_iff_eq] at hblank
          obtain (((rfl | rfl) | rfl) | rfl) | rfl := hblank <;> exact absurd hdigit (by decide)
  simp only [scan, hchar.1, hchar.2, h, if_true, Bool.false_eq_true, if_false]

theorem scan_comment (cs : Text) : scan lineComments '/' ('*' :: cs) = scanComment cs := rfl

theorem scan_lineComment (cs : Text) :
    scan lineComments '/' ('/' :: cs) =
      if lineComments then scanLineComment cs else { token := delim '/', length := 1 } := rfl

theorem scan_slash {cs : Text} (hstar : cs.head? ≠ some '*')
    (hslash : cs.head? ≠ some '/' ∨ lineComments = false) :
    scan lineComments '/' cs = { token := delim '/', length := 1 } := by
  rcases cs with _ | ⟨d, cs⟩
  · rfl
  · by_cases hd : d = '/'
    · subst hd
      have hoff : lineComments = false := hslash.resolve_left (by simp)
      rw [scan_lineComment, hoff]
      rfl
    · have hd' : d ≠ '*' := by simpa using hstar
      simp [scan, ofChar?, isBlank, isNewline, startsNumeral, signLength, hd, hd']

theorem scan_quote (quote : Quote) (cs : Text) :
    scan lineComments quote.toChar cs = scanString quote cs := by
  cases quote <;> rfl

theorem scan_hash (cs : Text) :
    scan lineComments '#' cs =
      if nameLength cs = 0 then { token := delim '#', length := 1 }
      else
        { token := hash (cs.take (nameLength cs)) (startsName cs), length := 1 + nameLength cs } :=
  rfl

theorem scan_at (cs : Text) :
    scan lineComments '@' cs =
      if startsName cs then
        { token := atKeyword (cs.take (nameLength cs)), length := 1 + nameLength cs }
      else { token := delim '@', length := 1 } := rfl

theorem scan_cdo (cs : Text) :
    scan lineComments '<' ('!' :: '-' :: '-' :: cs) = { token := cdo, length := 4 } := rfl

theorem scan_cdc (cs : Text) :
    scan lineComments '-' ('-' :: '>' :: cs) = { token := cdc, length := 3 } := rfl

theorem scan_backslash (cs : Text) :
    scan lineComments '\\' cs =
      if startsName ('\\' :: cs) then scanIdentLike ('\\' :: cs)
      else { token := delim '\\', length := 1, problem := some (.lex .badEscape) } := rfl

theorem scan_less {cs : Text} (h : cs.take 3 ≠ ['!', '-', '-']) :
    scan lineComments '<' cs = { token := delim '<', length := 1 } := by
  have hchar : ofChar? '<' = none := rfl
  have hblank : isBlank '<' = false := rfl
  have hnumeral : startsNumeral ('<' :: cs) = false := rfl
  simp only [scan, hchar, hblank, hnumeral, Bool.false_eq_true, if_false]
  split
  · simp at h
  · rfl

theorem scan_hyphen {cs : Text} (hnumeral : startsNumeral ('-' :: cs) = false)
    (hcdc : cs.take 2 ≠ ['-', '>']) :
    scan lineComments '-' cs =
      if startsName ('-' :: cs) then scanIdentLike ('-' :: cs)
      else { token := delim '-', length := 1 } := by
  have hchar : ofChar? '-' = none := rfl
  have hblank : isBlank '-' = false := rfl
  simp only [scan, hchar, hblank, hnumeral, Bool.false_eq_true, if_false]
  split
  · simp at hcdc
  · rfl

theorem scan_sign {c : Char} {cs : Text} (hc : c = '+' ∨ c = '.')
    (hnumeral : startsNumeral (c :: cs) = false) :
    scan lineComments c cs = { token := delim c, length := 1 } := by
  have hchar : ofChar? c = none ∧ isBlank c = false := by
    obtain rfl | rfl := hc <;> decide
  simp only [scan, hchar.1, hchar.2, hnumeral, Bool.false_eq_true, if_false]
  obtain rfl | rfl := hc <;> rfl

theorem isDigit_eq_false_of_isNameStart {c : Char} (h : isNameStart c = true) :
    c.isDigit = false := by
  cases hdigit : c.isDigit with
  | false => rfl
  | true =>
    obtain ⟨hlow, hhigh⟩ := isDigit_iff.1 hdigit
    simp only [isNameStart, Bool.or_eq_true, isAlpha_iff, beq_iff_eq, decide_eq_true_eq] at h
    obtain ((rfl | h) | h) | rfl := h
    · exact absurd hdigit (by decide)
    · omega
    · have houtside : 128 ≤ c.toNat := h
      omega
    · exact absurd hdigit (by decide)

theorem startsNumeral_eq_false_of_isNameStart {c : Char} (h : isNameStart c = true) (cs : Text) :
    startsNumeral (c :: cs) = false := by
  cases hnumeral : startsNumeral (c :: cs) with
  | false => rfl
  | true =>
    obtain rfl | rfl | rfl | hdigit := startsNumeral_cons hnumeral
    · exact absurd h (by decide)
    · exact absurd h (by decide)
    · exact absurd h (by decide)
    · simp [isDigit_eq_false_of_isNameStart h] at hdigit

theorem ofChar?_of_isNameStart {c : Char} (h : isNameStart c = true) : ofChar? c = none := by
  unfold ofChar?
  split <;> first | rfl | exact absurd h (by decide)

theorem isBlank_eq_false_of_isNameStart {c : Char} (h : isNameStart c = true) :
    isBlank c = false := by
  cases hblank : isBlank c with
  | false => rfl
  | true =>
    simp only [isBlank, isNewline, Bool.or_eq_true, beq_iff_eq] at hblank
    obtain (((rfl | rfl) | rfl) | rfl) | rfl := hblank <;> exact absurd h (by decide)

theorem scan_of_isNameStart {c : Char} (h : isNameStart c = true) (cs : Text) :
    scan lineComments c cs = scanIdentLike (c :: cs) := by
  simp only [scan, ofChar?_of_isNameStart h, isBlank_eq_false_of_isNameStart h,
    startsNumeral_eq_false_of_isNameStart h, Bool.false_eq_true, if_false]
  split <;> first | exact absurd h (by decide) | simp only [h, if_true]

def startsToken (c : Char) : Bool :=
  (ofChar? c).isSome || isBlank c || c.isDigit || isNameStart c ||
    ['+', '-', '.', '/', '"', '\'', '#', '@', '<', '\\'].contains c

theorem scan_of_not_startsToken {c : Char} (h : startsToken c = false) (cs : Text) :
    scan lineComments c cs = { token := delim c, length := 1 } := by
  have hchar : ofChar? c = none := by
    cases hofChar : ofChar? c with
    | none => rfl
    | some token => simp [startsToken, hofChar] at h
  simp only [startsToken, Bool.or_eq_false_iff] at h
  obtain ⟨⟨⟨⟨-, hblank⟩, hdigit⟩, hname⟩, hother⟩ := h
  have hnumeral : startsNumeral (c :: cs) = false := by
    cases hnumeral : startsNumeral (c :: cs) with
    | false => rfl
    | true =>
      obtain rfl | rfl | rfl | hc := startsNumeral_cons hnumeral
      · exact absurd hother (by decide)
      · exact absurd hother (by decide)
      · exact absurd hother (by decide)
      · simp [hdigit] at hc
  simp only [scan, hchar, hblank, hnumeral, Bool.false_eq_true, if_false]
  split <;> first
    | exact absurd hother (by decide)
    | simp only [hname, Bool.false_eq_true, if_false]

/-! ### Faults -/

theorem problem_scanNumeric (text : Text) : (scanNumeric text).problem = none := by
  unfold scanNumeric
  simp only
  split
  · rfl
  · split <;> rfl

/-! ### Closing brackets -/

theorem closes?_scanNumeric (text : Text) : (scanNumeric text).token.closes? = none := by
  unfold scanNumeric
  simp only
  split
  · rfl
  · split <;> rfl

theorem closes?_scanString (quote : Quote) (text : Text) :
    (scanString quote text).token.closes? = none := by
  unfold scanString
  simp only
  split
  · rfl
  · split <;> rfl

theorem closes?_scanComment (text : Text) : (scanComment text).token.closes? = none := by
  unfold scanComment
  simp only
  split <;> rfl

theorem closes?_scanUrl (passed : Nat) (text : Text) :
    (scanUrl passed text).token.closes? = none := by
  unfold scanUrl
  simp only
  split
  · rfl
  · split <;> rfl

theorem closes?_scanIdentLike (text : Text) : (scanIdentLike text).token.closes? = none := by
  unfold scanIdentLike
  simp only
  split
  · split
    · split
      · rfl
      · exact closes?_scanUrl ..
    · rfl
  · rfl

/-- Only a closing bracket is read as one. -/
theorem ofChar?_of_closes? {c : Char} {cs : Text} {bracket : Bracket}
    (h : (scan lineComments c cs).token.closes? = some bracket) :
    ofChar? c = some (closing bracket) := by
  unfold scan at h
  simp only at h
  split at h
  · rename_i token hchar
    rw [hchar]
    cases token <;> simp_all [closes?]
  split at h
  · simp [closes?] at h
  split at h
  · simp [closes?_scanNumeric] at h
  split at h
  · split at h
    · simp [closes?_scanComment] at h
    · split at h <;> simp [closes?, scanLineComment] at h
    · simp [closes?] at h
  · simp [closes?_scanString] at h
  · simp [closes?_scanString] at h
  · split at h <;> simp [closes?] at h
  · split at h <;> simp [closes?] at h
  · split at h <;> simp [closes?] at h
  · split at h
    · simp [closes?] at h
    · split at h
      · simp [closes?_scanIdentLike] at h
      · simp [closes?] at h
  · split at h
    · simp [closes?_scanIdentLike] at h
    · simp [closes?] at h
  · split at h
    · simp [closes?_scanIdentLike] at h
    · simp [closes?] at h

end Token

end Css
