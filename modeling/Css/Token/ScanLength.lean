import Css.Token.Scan

/-!
# Lengths of scanned tokens

A scanned token has at least one character and never reaches past the text
(`Token.scan_length_pos`, `Token.scan_length_le`), so scanning a text token by token ends and cuts
it into its tokens.
-/

namespace Css

/-! ### Units and chains -/

theorem chainLength_le {unit : Text → Nat} (hunit : ∀ text, unit text ≤ text.length)
    (text : Text) : chainLength unit text ≤ text.length := by
  fun_induction chainLength unit text with
  | case1 => simp
  | case2 => simp
  | case3 c cs n hn ih =>
    have := hunit (c :: cs)
    simp only [List.length_drop, List.length_cons] at *
    omega

theorem chainLength_pos {unit : Text → Nat} {text : Text} (hpos : 0 < unit text)
    (hne : text ≠ []) : 0 < chainLength unit text := by
  cases text with
  | nil => exact absurd rfl hne
  | cons c cs =>
    rw [chainLength]
    split
    · omega
    · omega

theorem length_takeWhile_le {α : Type _} (p : α → Bool) (xs : List α) :
    (xs.takeWhile p).length ≤ xs.length := by
  induction xs with
  | nil => simp
  | cons x xs ih => rw [List.takeWhile_cons]; split <;> simp [ih]

theorem blanksLength_le (text : Text) : blanksLength text ≤ text.length :=
  length_takeWhile_le ..

theorem digitsLength_le (text : Text) : digitsLength text ≤ text.length :=
  length_takeWhile_le ..

theorem blankLength_le (text : Text) : blankLength text ≤ text.length := by
  unfold blankLength
  split <;> simp
  split <;> omega

theorem escapeLength_le (text : Text) : escapeLength text ≤ text.length := by
  unfold escapeLength
  split
  · rename_i c cs
    split
    · simp
    · split
      · have hdigits := length_takeWhile_le isHexDigit ((c :: cs).take 6)
        have htake := List.length_take_le' 6 (c :: cs)
        have hblank := blankLength_le
          ((c :: cs).drop (((c :: cs).take 6).takeWhile isHexDigit).length)
        simp only [List.length_drop, List.length_cons] at *
        omega
      · simp
  · simp

theorem nameUnit_le (text : Text) : nameUnit text ≤ text.length := by
  unfold nameUnit
  split
  · simp
  · split
    · simp
    · exact escapeLength_le _

theorem nameLength_le (text : Text) : nameLength text ≤ text.length :=
  chainLength_le nameUnit_le text

theorem stringUnit_le (quote : Quote) (text : Text) : stringUnit quote text ≤ text.length := by
  unfold stringUnit
  split
  · simp
  · simp
  · rename_i c cs
    split
    · have := blankLength_le (c :: cs)
      simp only [List.length_cons] at *
      omega
    · exact escapeLength_le _
  · split <;> simp

theorem urlUnit_le (text : Text) : urlUnit text ≤ text.length := by
  unfold urlUnit
  split
  · simp
  · split
    · simp
    · split
      · exact escapeLength_le _
      · simp

theorem badUrlUnit_le (text : Text) : badUrlUnit text ≤ text.length := by
  unfold badUrlUnit
  split
  · simp
  · rename_i c cs
    have := escapeLength_le (c :: cs)
    simp only [List.length_cons] at *
    split <;> omega

theorem commentLength_le (text : Text) : commentLength text ≤ text.length := by
  fun_induction commentLength text <;> simp_all

/-- A comment that ends before the text does ends in two characters. -/
theorem commentLength_add_two_le {text : Text} (h : commentLength text < text.length) :
    commentLength text + 2 ≤ text.length := by
  fun_induction commentLength text with
  | case1 => simp at h
  | case2 => simp
  | case3 c cs _ ih =>
    simp only [List.length_cons] at *
    have := ih (by omega)
    omega

/-! ### Names and numerals -/

theorem nameUnit_pos {text : Text} (h : startsPlainName text = true) : 0 < nameUnit text := by
  cases text with
  | nil => simp [startsPlainName] at h
  | cons c cs =>
    simp only [startsPlainName, Bool.or_eq_true, bne_iff_ne, ne_eq] at h
    by_cases hc : isNameChar c
    · simp [nameUnit, hc]
    · rcases h with h | h
      · simp [isNameChar, h] at hc
      · simp only [nameUnit, hc]
        exact Nat.pos_of_ne_zero h

theorem nameLength_pos {text : Text} (h : startsName text = true) : 0 < nameLength text := by
  have hunit : 0 < nameUnit text := by
    unfold startsName at h
    split at h
    · simp [nameUnit, isNameChar]
    · simp [nameUnit, isNameChar]
    · exact nameUnit_pos h
  refine chainLength_pos hunit fun hnil => ?_
  subst hnil
  simp [startsName, startsPlainName] at h

theorem startsName_of_isNameStart {c : Char} (h : isNameStart c = true) (cs : Text) :
    startsName (c :: cs) = true := by
  unfold startsName
  split
  · rfl
  · rename_i hc
    obtain ⟨rfl, rfl⟩ := List.cons.inj hc
    simp [isNameStart] at h
  · simp [startsPlainName, h]

theorem signLength_le (text : Text) : signLength text ≤ text.length := by
  unfold signLength
  split <;> simp

theorem fractionLength_le (text : Text) : fractionLength text ≤ text.length := by
  unfold fractionLength
  split
  · rename_i cs
    have := digitsLength_le cs
    simp only [List.length_cons]
    split <;> omega
  · simp

theorem exponentLength_le (text : Text) : exponentLength text ≤ text.length := by
  unfold exponentLength
  split
  · rename_i c cs
    have hdigits := digitsLength_le (cs.drop (signLength cs))
    have hsign := signLength_le cs
    simp only [List.length_drop, List.length_cons] at *
    split <;> omega
  · simp

theorem numeralLength_le (text : Text) : numeralLength text ≤ text.length := by
  have hsign := signLength_le text
  have hdigits := digitsLength_le (text.drop (signLength text))
  simp only [numeralLength, numeralParts]
  generalize hwhole : signLength text + digitsLength (text.drop (signLength text)) = whole
  have hfraction := fractionLength_le (text.drop whole)
  generalize fractionLength (text.drop whole) = fraction at *
  have hexponent := exponentLength_le (text.drop (whole + fraction))
  simp only [List.length_drop] at *
  omega

/-- What starts a numeral has digits in front of a point or behind it. -/
theorem digits_of_startsNumeral {text : Text} (h : startsNumeral text = true) :
    0 < digitsLength (text.drop (signLength text)) +
      fractionLength (text.drop (signLength text + digitsLength (text.drop (signLength text)))) := by
  unfold startsNumeral at h
  split at h
  · rename_i d rest hrest
    have hzero : digitsLength (text.drop (signLength text)) = 0 := by rw [hrest]; rfl
    have hpos : fractionLength ('.' :: d :: rest) ≠ 0 := by
      simp [fractionLength, digitsLength, h]
    rw [hzero, Nat.add_zero, hrest]
    omega
  · rename_i d rest _ hrest
    have hpos : digitsLength (text.drop (signLength text)) ≠ 0 := by
      rw [hrest]; simp [digitsLength, h]
    omega
  · simp at h

theorem numeralLength_pos {text : Text} (h : startsNumeral text = true) :
    0 < numeralLength text := by
  have hdigits := digits_of_startsNumeral h
  simp only [numeralLength, numeralParts]
  omega

/-! ### Tokens -/

namespace Token

theorem scanNumeric_length {text : Text} (h : startsNumeral text = true) :
    0 < (scanNumeric text).length ∧ (scanNumeric text).length ≤ text.length := by
  have hpos := numeralLength_pos h
  have hle := numeralLength_le text
  have hunit := nameLength_le (text.drop (numeralLength text))
  unfold scanNumeric
  simp only
  split
  · simp only [List.length_drop] at hunit
    exact ⟨by dsimp only; omega, by dsimp only; omega⟩
  · split
    · rename_i rest hrest
      have := congrArg List.length hrest
      simp only [List.length_drop, List.length_cons] at this
      exact ⟨by dsimp only; omega, by dsimp only; omega⟩
    · exact ⟨hpos, hle⟩

theorem scanString_length (quote : Quote) (text : Text) :
    0 < (scanString quote text).length ∧ (scanString quote text).length ≤ text.length + 1 := by
  have hle := chainLength_le (stringUnit_le quote) text
  unfold scanString
  simp only
  split
  · exact ⟨by dsimp only; omega, by dsimp only; omega⟩
  · rename_i c rest hrest
    have := congrArg List.length hrest
    simp only [List.length_drop, List.length_cons] at this
    split <;> exact ⟨by dsimp only; omega, by dsimp only; omega⟩

theorem scanBadUrl_length (passed : Nat) (text : Text) :
    passed ≤ (scanBadUrl passed text).length ∧
      (scanBadUrl passed text).length ≤ passed + text.length := by
  have hle := chainLength_le badUrlUnit_le text
  unfold scanBadUrl
  simp only [List.length_take, List.length_drop]
  omega

theorem scanUrl_length (passed : Nat) (text : Text) :
    passed ≤ (scanUrl passed text).length ∧
      (scanUrl passed text).length ≤ passed + text.length := by
  have hle := chainLength_le urlUnit_le text
  unfold scanUrl
  simp only
  split
  · dsimp only; omega
  · rename_i hne
    have hblanks := blanksLength_le (text.drop (chainLength urlUnit text))
    simp only [List.length_drop] at hblanks
    split
    · dsimp only; omega
    · rename_i rest hrest
      have := congrArg List.length hrest
      simp only [List.length_drop, List.length_cons] at this
      dsimp only; omega
    · rename_i rest _ _
      refine ⟨Nat.le_trans ?_ (scanBadUrl_length ..).1,
        Nat.le_trans (scanBadUrl_length ..).2 ?_⟩
      · omega
      · simp only [List.length_drop]; omega

theorem scanIdentLike_length {text : Text} (h : startsName text = true) :
    0 < (scanIdentLike text).length ∧ (scanIdentLike text).length ≤ text.length := by
  have hpos := nameLength_pos h
  have hle := nameLength_le text
  unfold scanIdentLike
  simp only
  split
  · rename_i inner hinner
    have hlength := congrArg List.length hinner
    simp only [List.length_drop, List.length_cons] at hlength
    have hblanks := blanksLength_le inner
    split
    · split
      · dsimp only; omega
      · have := scanUrl_length (nameLength text + 1 + blanksLength inner)
          (inner.drop (blanksLength inner))
        simp only [List.length_drop] at this
        omega
    · dsimp only; omega
  · exact ⟨hpos, hle⟩

theorem scan_length (lineComments : Bool) (c : Char) (cs : Text) :
    0 < (scan lineComments c cs).length ∧ (scan lineComments c cs).length ≤ cs.length + 1 := by
  have hname := nameLength_le cs
  have hblanks := blanksLength_le cs
  unfold scan
  simp only
  split
  · simp
  split
  · dsimp only; omega
  split
  · rename_i h
    exact scanNumeric_length h
  split
  · split
    · rename_i body _
      have hcomment := commentLength_le body
      unfold scanComment
      simp only
      split
      · dsimp only [List.length_cons]; omega
      · rename_i h
        simp only [List.isEmpty_iff, List.drop_eq_nil_iff, Nat.not_le] at h
        have := commentLength_add_two_le h
        dsimp only [List.length_cons]; omega
    · rename_i body _
      split
      · have := length_takeWhile_le (fun c => !isNewline c) body
        simp only [scanLineComment, List.length_cons] at *
        omega
      · simp
    · simp
  · exact scanString_length ..
  · exact scanString_length ..
  · split <;> (dsimp only; omega)
  · split <;> (dsimp only; omega)
  · split <;> simp
  · split
    · simp
    · split
      · rename_i h; exact scanIdentLike_length h
      · simp
  · split
    · rename_i h; exact scanIdentLike_length h
    · simp
  · split
    · rename_i h
      exact scanIdentLike_length (startsName_of_isNameStart h cs)
    · simp

end Token

end Css
