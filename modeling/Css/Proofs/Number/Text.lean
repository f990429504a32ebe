import Css.Proofs.Number.Rounding
import Css.Proofs.Token.Grammar
import Css.Style
import Mathlib.Data.List.TakeDrop

/-!
# Numbers as they are written

What is written for a number is a sign or none, digits, and a point with more digits or none
(`Style.exists_isNumeral`), so a numeral ends with it unless what follows goes on with one
(`IsSigned.numeralEnds_iff`); and it is read as the same number again (`Style.read?_number`).
-/

namespace Css

def Number.unsigned (x : Number) : Number := if x.units = 0 then zero else x

namespace Number

theorem rank_eq_zero {x : Number} (h : x.units = 0) : x.rank = 0 := by
  have hfloor := Magnitude.floorRank_units x.rank
  rw [show Magnitude.units x.rank = 0 from h] at hfloor
  exact hfloor.symm.trans (by decide)

theorem isFinite_unsigned (x : Number) : x.unsigned.isFinite = x.isFinite := by
  unfold unsigned
  split
  · rename_i hunits
    rw [isFinite, isFinite, rank_eq_zero hunits]
    rfl
  · rfl

theorem unsigned_unsigned (x : Number) : x.unsigned.unsigned = x.unsigned := by
  have hzero : zero.unsigned = zero := by decide
  by_cases hunits : x.units = 0
  · rw [show x.unsigned = zero from if_pos hunits, hzero]
  · rw [show x.unsigned = x from if_neg hunits, show x.unsigned = x from if_neg hunits]

/-- A number has its sign also without that of zero. -/
theorem negative_of_unsigned {x : Number} (h : x.unsigned.negative = true) :
    x.negative = true := by
  unfold unsigned at h
  split at h
  · contradiction
  · exact h

end Number

namespace Decimal

/-! ### Reading positional digits -/

def pointed (fraction : Text) : Text := if fraction.isEmpty then [] else '.' :: fraction

theorem takeWhile_isDigit {digits follow : Text} (h : ∀ c ∈ digits, c.isDigit = true)
    (hfollow : startsDigit follow = false) :
    (digits ++ follow).takeWhile Char.isDigit = digits ∧
      (digits ++ follow).dropWhile Char.isDigit = follow := by
  rw [List.takeWhile_append_of_pos h, List.dropWhile_append_of_pos h]
  cases follow with
  | nil => exact ⟨List.append_nil digits, rfl⟩
  | cons c follow =>
    have hc : c.isDigit = false := hfollow
    simp [hc]

theorem digitsLength_append {digits : Text} (h : ∀ c ∈ digits, c.isDigit = true)
    (follow : Text) : digitsLength (digits ++ follow) = digits.length + digitsLength follow := by
  rw [digitsLength, List.takeWhile_append_of_pos h, List.length_append]
  rfl

/-- A fraction goes on with the digits that follow it. -/
theorem fractionLength_pointed {fraction : Text} (h : ∀ c ∈ fraction, c.isDigit = true)
    (hne : fraction ≠ []) (follow : Text) :
    fractionLength (pointed fraction ++ follow) =
      (pointed fraction).length + digitsLength follow := by
  obtain ⟨c, fraction, rfl⟩ := List.exists_cons_of_ne_nil hne
  have hdigits := digitsLength_append h follow
  simp only [pointed, List.isEmpty_cons, Bool.false_eq_true, if_false, List.cons_append,
    fractionLength, List.length_cons] at hdigits ⊢
  rw [hdigits, if_neg (by omega)]
  omega

theorem startsDigit_pointed {fraction follow : Text} (hfollow : startsDigit follow = false) :
    startsDigit (pointed fraction ++ follow) = false := by
  unfold pointed
  split
  · exact hfollow
  · rfl

/-- Positional digits are read up to what follows, which has to be an exponent or nothing. -/
theorem read?_positional_append {whole fraction follow : Text}
    (h : ∀ c ∈ whole ++ fraction, c.isDigit = true) (hne : whole ++ fraction ≠ [])
    (hdigit : startsDigit follow = false) (hpoint : follow.head? ≠ some '.') :
    read? (whole ++ (pointed fraction ++ follow)) =
      (readExponent? follow).map (ofParts whole fraction) := by
  obtain ⟨hwhole, hfraction⟩ := List.forall_mem_append.1 h
  obtain ⟨htake, hdrop⟩ := takeWhile_isDigit hwhole (@startsDigit_pointed fraction follow hdigit)
  unfold read?
  rw [List.span_eq_takeWhile_dropWhile, htake, hdrop]
  cases fraction with
  | nil =>
    have hempty : whole.isEmpty = false := by simpa using hne
    cases follow with
    | nil => simp [pointed, hempty]
    | cons c follow =>
      have hc : c ≠ '.' := by simpa using hpoint
      simp [pointed, hempty, hc]
  | cons c fraction =>
    obtain ⟨htake', hdrop'⟩ := takeWhile_isDigit hfraction hdigit
    rw [List.cons_append] at htake' hdrop'
    simp only [pointed, List.isEmpty_cons, Bool.false_eq_true, if_false, List.cons_append,
      List.span_eq_takeWhile_dropWhile, htake', hdrop', Bool.and_false]

theorem read?_positional {whole fraction : Text} (h : ∀ c ∈ whole ++ fraction, c.isDigit = true)
    (hne : whole ++ fraction ≠ []) :
    read? (whole ++ pointed fraction) = some (ofParts whole fraction 0) := by
  have hread := @read?_positional_append _ _ [] h hne rfl (by simp)
  rw [List.append_nil] at hread
  exact hread

/-! ### Writing positional digits -/

/-- What is left out at the end of some digits are zeros. -/
theorem exists_zeros_dropTrailingZeros (digits : Text) :
    ∃ zeros, digits = dropTrailingZeros digits ++ List.replicate zeros '0' := by
  refine ⟨(digits.reverse.takeWhile (· == '0')).length, ?_⟩
  have hzeros : digits.reverse.takeWhile (· == '0') =
      List.replicate (digits.reverse.takeWhile (· == '0')).length '0' := by
    refine List.eq_replicate_iff.2 ⟨rfl, fun c hc => ?_⟩
    exact beq_iff_eq.1 (List.all_eq_true.1 List.all_takeWhile c hc)
  have hsplit := congrArg List.reverse
    (List.takeWhile_append_dropWhile (p := (· == '0')) (l := digits.reverse))
  rw [List.reverse_append, List.reverse_reverse] at hsplit
  conv => lhs; rw [← hsplit, hzeros, List.reverse_replicate]
  rfl

theorem ofDigitChars_append_zeros (digits : Text) (zeros : Nat) :
    Nat.ofDigitChars 10 (digits ++ List.replicate zeros '0') 0 =
      Nat.ofDigitChars 10 digits 0 * 10 ^ zeros := by
  rw [Nat.ofDigitChars_append, Nat.ofDigitChars_replicate_zero, Nat.mul_comm]

/-- Whether a text has the digits of `whole`, and those of `fraction` behind a point, and stands for
what a rank is nearest to. -/
structure IsPositional (text whole fraction : Text) (rank : Nat) : Prop where
  text_eq : text = whole ++ pointed fraction
  isDigit : ∀ c ∈ whole ++ fraction, c.isDigit = true
  ne_nil : whole ++ fraction ≠ []
  nearestRank_eq : (ofParts whole fraction 0).nearestRank = rank

theorem isDigit_zeros_append {digits : Text} (zeros : Nat) (h : ∀ c ∈ digits, c.isDigit = true) :
    ∀ c ∈ List.replicate zeros '0' ++ digits, c.isDigit = true := by
  refine List.forall_mem_append.2 ⟨fun c hc => ?_, h⟩
  rw [List.eq_of_mem_replicate hc]
  rfl

/-- Digits of which some stand behind a point, without the zeros at their end. -/
theorem isPositional_of_digits {digits : Text} {places : Nat}
    (h : ∀ c ∈ digits, c.isDigit = true) (hlength : places < digits.length) :
    IsPositional
      (digits.take (digits.length - places) ++
        pointed (dropTrailingZeros (digits.drop (digits.length - places))))
      (digits.take (digits.length - places))
      (dropTrailingZeros (digits.drop (digits.length - places)))
      (nearestRank ⟨Nat.ofDigitChars 10 digits 0, -(places : Int)⟩) := by
  have hwhole : digits.take (digits.length - places) ≠ [] := by
    intro hnil
    have hzero := congrArg List.length hnil
    rw [List.length_take, List.length_nil] at hzero
    omega
  have hplaces : (digits.drop (digits.length - places)).length = places := by
    rw [List.length_drop]
    omega
  have hsplit := List.take_append_drop (digits.length - places) digits
  generalize digits.take (digits.length - places) = whole at *
  obtain ⟨zeros, hzeros⟩ :=
    exists_zeros_dropTrailingZeros (digits.drop (digits.length - places))
  generalize dropTrailingZeros (digits.drop (digits.length - places)) = fraction at *
  rw [hzeros] at hplaces hsplit
  rw [List.length_append, List.length_replicate] at hplaces
  rw [← List.append_assoc] at hsplit
  rw [← hsplit] at h ⊢
  refine ⟨rfl, (List.forall_mem_append.1 h).1,
    fun hnil => hwhole (List.append_eq_nil_iff.1 hnil).1, ?_⟩
  rw [ofDigitChars_append_zeros, ← hplaces, nearestRank_dropZeros, ofParts, Int.zero_sub]

theorem exists_isPositional_places (digits places : Nat) :
    ∃ whole fraction, IsPositional (toText ⟨digits, .negSucc places⟩) whole fraction
      (nearestRank ⟨digits, .negSucc places⟩) := by
  have hdigits : ∀ c ∈ Nat.toDigits 10 digits, c.isDigit = true :=
    fun c hc => Nat.isDigit_of_mem_toDigits (by decide) (by decide) hc
  simp only [toText]
  generalize hzeros : places + 2 - (Nat.toDigits 10 digits).length = zeros
  have hvalue : Nat.ofDigitChars 10 (List.replicate zeros '0' ++ Nat.toDigits 10 digits) 0 =
      digits := by
    rw [Nat.ofDigitChars_append, Nat.ofDigitChars_replicate_zero, Nat.mul_zero,
      Nat.ofDigitChars_ten_toDigits]
  have hlength : places + 1 < (List.replicate zeros '0' ++ Nat.toDigits 10 digits).length := by
    rw [List.length_append, List.length_replicate]
    omega
  have hpositional := isPositional_of_digits (isDigit_zeros_append zeros hdigits) hlength
  rw [hvalue] at hpositional
  refine ⟨_, _, ?_, hpositional.isDigit, hpositional.ne_nil, hpositional.nearestRank_eq⟩
  rw [← hpositional.text_eq, pointed]
  split
  · exact (List.append_nil _).symm
  · rfl

/-- What is written for a decimal are positional digits that are read as the same number, where it
is not past all finite ones. -/
theorem exists_isPositional {decimal : Decimal} (h : decimal.nearestRank < Magnitude.count) :
    ∃ whole fraction, IsPositional decimal.toText whole fraction decimal.nearestRank := by
  obtain ⟨digits, zeros | places⟩ := decimal
  · have hwhole : (ofParts (if digits = 0 then ['0'] else
        Nat.toDigits 10 digits ++ List.replicate zeros '0') [] 0).nearestRank =
          nearestRank ⟨digits, zeros⟩ := by
      rw [← nearestRank_addZeros h, ofParts, List.append_nil]
      split
      · rename_i hzero
        rw [hzero, Nat.zero_mul]
        rfl
      · rw [ofDigitChars_append_zeros, Nat.ofDigitChars_ten_toDigits]
        rfl
    refine ⟨_, [], ?_, ?_, ?_, hwhole⟩
    · simp [toText, pointed]
    · rw [List.append_nil]
      split
      · exact List.forall_mem_singleton.2 rfl
      · refine List.forall_mem_append.2 ⟨fun c hc => ?_, fun c hc => ?_⟩
        · exact Nat.isDigit_of_mem_toDigits (by decide) (by decide) hc
        · rw [List.eq_of_mem_replicate hc]
          rfl
    · rw [List.append_nil]
      split
      · exact List.cons_ne_nil _ _
      · exact fun hnil => Nat.toDigits_ne_nil (List.append_eq_nil_iff.1 hnil).1
  · exact exists_isPositional_places digits places

end Decimal

/-! ### Signed numerals -/

/-- Whether a text is a minus or nothing in front of positional digits that stand for a number, but
for the sign of a zero. -/
structure IsNumeral (text : Text) (x : Number) (sign whole fraction : Text) : Prop where
  text_eq : text = sign ++ (whole ++ Decimal.pointed fraction)
  sign_eq : sign = [] ∨ sign = ['-']
  isDigit : ∀ c ∈ whole ++ fraction, c.isDigit = true
  ne_nil : whole ++ fraction ≠ []
  value_eq : Number.ofDecimal (sign == ['-']) (Decimal.ofParts whole fraction 0) = x.unsigned

theorem Number.ofRank_rank (x : Number) : ofRank x.negative x.rank = x := by
  have hrank : min x.rank Magnitude.count = x.rank := Nat.min_eq_left x.rank_le
  cases x
  simp_all [ofRank]

/-- Positional digits start with a digit or a point. -/
theorem Decimal.exists_positional_eq_cons {whole fraction : Text}
    (h : ∀ c ∈ whole ++ fraction, c.isDigit = true) (hne : whole ++ fraction ≠ []) :
    ∃ c rest, whole ++ pointed fraction = c :: rest ∧ c ≠ '-' ∧ c ≠ '+' := by
  rcases whole with _ | ⟨c, whole⟩
  · rcases fraction with _ | ⟨c, fraction⟩
    · exact absurd rfl hne
    · exact ⟨'.', c :: fraction, rfl, by decide, by decide⟩
  · have hc := h c List.mem_cons_self
    refine ⟨c, whole ++ pointed fraction, rfl, ?_, ?_⟩ <;>
      (rintro rfl; contradiction)

theorem Decimal.splitSign_positional {whole fraction : Text}
    (h : ∀ c ∈ whole ++ fraction, c.isDigit = true) (hne : whole ++ fraction ≠ []) :
    Number.splitSign (whole ++ pointed fraction) = (false, whole ++ pointed fraction) := by
  obtain ⟨c, rest, heq, hminus, hplus⟩ := exists_positional_eq_cons h hne
  rw [heq]
  unfold Number.splitSign
  split
  · exact absurd (List.cons.inj ‹_›).1 ‹_›
  · exact absurd (List.cons.inj ‹_›).1 ‹_›
  · rfl

/-- A numeral of a number is read as that number. -/
theorem IsNumeral.read?_eq {text : Text} {x : Number} {sign whole fraction : Text}
    (h : IsNumeral text x sign whole fraction) : Number.read? text = some x.unsigned := by
  rw [h.text_eq, ← h.value_eq]
  obtain rfl | rfl := h.sign_eq
  · rw [List.nil_append, Number.read?, Decimal.splitSign_positional h.isDigit h.ne_nil]
    simp only [Decimal.read?_positional h.isDigit h.ne_nil, Option.map_some]
    rfl
  · rw [Number.read?, List.singleton_append, Number.splitSign]
    simp only [Decimal.read?_positional h.isDigit h.ne_nil, Option.map_some]
    rfl

/-- Positional digits with the sign of a number are a numeral of that number. -/
theorem Decimal.IsPositional.isNumeral {x : Number} {text whole fraction : Text}
    (h : IsPositional text whole fraction x.rank) (hunits : x.units ≠ 0) :
    ∃ sign, IsNumeral (if x.negative then '-' :: text else text) x sign whole fraction := by
  have hvalue : Number.ofDecimal x.negative (ofParts whole fraction 0) = x.unsigned := by
    rw [Number.ofDecimal, h.nearestRank_eq, x.ofRank_rank, Number.unsigned, if_neg hunits]
  cases hnegative : x.negative with
  | true =>
    rw [hnegative] at hvalue
    exact ⟨['-'], by simp [h.text_eq], .inr rfl, h.isDigit, h.ne_nil, hvalue⟩
  | false =>
    rw [hnegative] at hvalue
    exact ⟨[], by simp [h.text_eq], .inl rfl, h.isDigit, h.ne_nil, hvalue⟩

theorem Decimal.eq_zero_of_positional {whole fraction rest : Text}
    (h : ∀ c ∈ whole ++ fraction, c.isDigit = true)
    (heq : whole ++ pointed fraction = '0' :: '.' :: rest) : whole = ['0'] ∧ fraction ≠ [] := by
  rcases whole with _ | ⟨c, _ | ⟨d, whole⟩⟩
  · unfold pointed at heq
    split at heq
    · contradiction
    · exact absurd (List.cons.inj heq).1 (by decide)
  · obtain ⟨rfl, hpointed⟩ := List.cons.inj heq
    refine ⟨rfl, ?_⟩
    rintro rfl
    contradiction
  · have hd := h d (by simp)
    rw [(List.cons.inj (List.cons.inj heq).2).1] at hd
    contradiction

/-- A zero alone in front of a point is left out. -/
theorem Decimal.dropLeadingZero_positional {whole fraction : Text}
    (h : ∀ c ∈ whole ++ fraction, c.isDigit = true) (hne : whole ++ fraction ≠ []) :
    (whole = ['0'] ∧ fraction ≠ [] ∧
      Style.dropLeadingZero (whole ++ pointed fraction) = pointed fraction ∧
      Style.dropLeadingZero ('-' :: (whole ++ pointed fraction)) = '-' :: pointed fraction) ∨
    (Style.dropLeadingZero (whole ++ pointed fraction) = whole ++ pointed fraction ∧
      Style.dropLeadingZero ('-' :: (whole ++ pointed fraction)) =
        '-' :: (whole ++ pointed fraction)) := by
  by_cases hzero : whole = ['0'] ∧ fraction ≠ []
  · obtain ⟨rfl, hfraction⟩ := hzero
    have hempty : fraction.isEmpty = false := by simpa using hfraction
    exact .inl ⟨rfl, hfraction, by simp [pointed, hempty, Style.dropLeadingZero],
      by simp [pointed, hempty, Style.dropLeadingZero]⟩
  · have hother : ∀ rest, whole ++ pointed fraction ≠ '0' :: '.' :: rest :=
      fun rest heq => hzero (eq_zero_of_positional h heq)
    obtain ⟨c, rest, heq, hminus, -⟩ := exists_positional_eq_cons h hne
    rw [heq] at hother ⊢
    refine .inr ⟨?_, ?_⟩ <;> unfold Style.dropLeadingZero <;> split
    · exact absurd ‹_› (hother _)
    · exact absurd (List.cons.inj ‹_›).1 hminus
    · rfl
    · exact absurd (List.cons.inj ‹_›).1 (by decide)
    · exact absurd (List.cons.inj ‹_›).2 (hother _)
    · rfl

theorem IsNumeral.dropLeadingZero {text : Text} {x : Number} {sign whole fraction : Text}
    (h : IsNumeral text x sign whole fraction) :
    ∃ whole', IsNumeral (Style.dropLeadingZero text) x sign whole' fraction := by
  obtain ⟨rfl, hsign, hdigit, hne, hvalue⟩ := h
  obtain ⟨rfl, hfraction, hplain, hminus⟩ | ⟨hplain, hminus⟩ :=
    Decimal.dropLeadingZero_positional hdigit hne
  · refine ⟨[], ?_, hsign, fun c hc => hdigit c (List.mem_cons_of_mem _ hc), hfraction, hvalue⟩
    obtain rfl | rfl := hsign
    · exact hplain
    · exact hminus
  · refine ⟨whole, ?_, hsign, hdigit, hne, hvalue⟩
    obtain rfl | rfl := hsign
    · exact hplain
    · exact hminus

/-- What is written for a finite number is a numeral of it. -/
theorem Style.exists_isNumeral (style : Style) {x : Number} (h : x.isFinite = true) :
    ∃ sign whole fraction, IsNumeral (style.number x) x sign whole fraction := by
  have htext : ∃ sign whole fraction,
      IsNumeral (if x.units = 0 then ['0'] else x.toText) x sign whole fraction := by
    by_cases hunits : x.units = 0
    · rw [if_pos hunits]
      refine ⟨[], ['0'], [], rfl, .inl rfl, List.forall_mem_singleton.2 rfl,
        List.cons_ne_nil _ _, ?_⟩
      rw [Number.unsigned, if_pos hunits]
      rfl
    · rw [if_neg hunits, Number.toText, if_pos h]
      have hrank := x.nearestRank_shortestDecimal
      obtain ⟨whole, fraction, hpositional⟩ := Decimal.exists_isPositional
        (show x.shortestDecimal.nearestRank < Magnitude.count by
          rw [hrank]
          exact of_decide_eq_true h)
      rw [hrank] at hpositional
      obtain ⟨sign, hnumeral⟩ := hpositional.isNumeral hunits
      exact ⟨sign, whole, fraction, hnumeral⟩
  obtain ⟨sign, whole, fraction, hnumeral⟩ := htext
  unfold number
  generalize (if x.units = 0 then ['0'] else x.toText) = text at hnumeral
  dsimp only
  split
  · obtain ⟨whole', hnumeral'⟩ := hnumeral.dropLeadingZero
    exact ⟨sign, whole', fraction, hnumeral'⟩
  · exact ⟨sign, whole, fraction, hnumeral⟩

/-- What is written for a finite number is read as that number; a zero loses its sign. -/
theorem Style.read?_number (style : Style) {x : Number} (h : x.isFinite = true) :
    Number.read? (style.number x) = some x.unsigned := by
  obtain ⟨sign, whole, fraction, hnumeral⟩ := style.exists_isNumeral h
  exact hnumeral.read?_eq

/-- What is written for a finite number is read as its value. -/
theorem Numeric.value_ofText_number (style : Style) {x : Number} (h : x.isFinite = true) :
    (Numeric.ofText (style.number x)).value = x.unsigned := by
  have hvalue : (Numeric.ofText (style.number x)).value =
      ((Number.read? (style.number x)).getD Number.zero).nearestFinite := rfl
  rw [hvalue, style.read?_number h, Option.getD_some,
    Number.nearestFinite_eq_self (x.isFinite_unsigned.trans h)]

/-! ### What follows a numeral -/

structure IsSigned (text sign whole fraction : Text) : Prop where
  text_eq : text = sign ++ (whole ++ Decimal.pointed fraction)
  sign_eq : sign = [] ∨ sign = ['-'] ∨ sign = ['+']
  isDigit : ∀ c ∈ whole ++ fraction, c.isDigit = true
  ne_nil : whole ++ fraction ≠ []

theorem IsNumeral.isSigned {text sign whole fraction : Text} {x : Number}
    (h : IsNumeral text x sign whole fraction) : IsSigned text sign whole fraction where
  text_eq := h.text_eq
  sign_eq := h.sign_eq.imp_right .inl
  isDigit := h.isDigit
  ne_nil := h.ne_nil

namespace IsSigned

variable {text sign whole fraction : Text}

theorem signLength_append (h : IsSigned text sign whole fraction) (follow : Text) :
    signLength (text ++ follow) = sign.length := by
  obtain ⟨rfl, hsign, hdigit, hne⟩ := h
  obtain rfl | rfl | rfl := hsign
  · obtain ⟨c, rest, heq, hminus, hplus⟩ := Decimal.exists_positional_eq_cons hdigit hne
    rw [List.nil_append, heq, List.cons_append, signLength]
    · rfl
    · exact fun _ heq => hplus (List.cons.inj heq).1
    · exact fun _ heq => hminus (List.cons.inj heq).1
  · rfl
  · rfl

/-- A numeral goes on with the digits that follow it, with a fraction behind these if it has none,
and with an exponent behind both. -/
theorem numeralLength_append (h : IsSigned text sign whole fraction) (follow : Text) :
    let rest := follow.drop (digitsLength follow)
    let more := if fraction = [] then fractionLength rest else 0
    numeralLength (text ++ follow) =
      text.length + digitsLength follow + more + exponentLength (rest.drop more) := by
  dsimp only
  have hsign := h.signLength_append follow
  obtain ⟨htext, -, hdigits, -⟩ := h
  obtain ⟨hwhole, hplaces⟩ := List.forall_mem_append.1 hdigits
  have hafterSign : (text ++ follow).drop sign.length =
      whole ++ (Decimal.pointed fraction ++ follow) := by
    rw [htext, List.append_assoc, List.drop_left, List.append_assoc]
  have hdigitsLength := Decimal.digitsLength_append hwhole (Decimal.pointed fraction ++ follow)
  cases fraction with
  | nil =>
    have hpointed : Decimal.pointed [] = [] := rfl
    rw [hpointed, List.nil_append] at hafterSign hdigitsLength
    have hlength : text.length = sign.length + whole.length := by
      rw [htext, hpointed, List.append_nil, List.length_append]
    have hdrop : (text ++ follow).drop (sign.length + (whole.length + digitsLength follow)) =
        follow.drop (digitsLength follow) := by
      rw [← List.drop_drop, hafterSign, ← List.drop_drop, List.drop_left]
    simp only [numeralLength, numeralParts, hsign, hafterSign, hdigitsLength, hdrop, if_true,
      ← List.drop_drop]
    omega
  | cons c fraction =>
    have hpoint := Decimal.fractionLength_pointed hplaces (List.cons_ne_nil c fraction) follow
    have hlength : text.length =
        sign.length + whole.length + (Decimal.pointed (c :: fraction)).length := by
      rw [htext, List.length_append, List.length_append, Nat.add_assoc]
    have hdrop : (text ++ follow).drop (sign.length + whole.length) =
        Decimal.pointed (c :: fraction) ++ follow := by
      rw [← List.drop_drop, hafterSign, List.drop_left]
    have hzero : digitsLength (Decimal.pointed (c :: fraction) ++ follow) = 0 := rfl
    rw [hzero, Nat.add_zero] at hdigitsLength
    simp only [numeralLength, numeralParts, hsign, hafterSign, hdigitsLength, hdrop, hpoint,
      ← List.drop_drop, List.drop_left, if_neg (List.cons_ne_nil c fraction), List.drop_zero]
    omega

/-- A numeral ends where neither a digit nor an exponent follows, nor a fraction if it has none. -/
theorem numeralEnds_iff (h : IsSigned text sign whole fraction) {follow : Text} :
    NumeralEnds text follow ↔ startsDigit follow = false ∧
      (fraction = [] → fractionLength follow = 0) ∧ exponentLength follow = 0 := by
  have hlength := h.numeralLength_append follow
  dsimp only at hlength
  rw [NumeralEnds, ← digitsLength_eq_zero]
  constructor
  · intro hends
    have hdigits : digitsLength follow = 0 := by omega
    rw [hdigits, List.drop_zero] at hlength
    by_cases hfraction : fraction = []
    · rw [if_pos hfraction] at hlength
      have hzero : fractionLength follow = 0 := by omega
      rw [hzero, List.drop_zero] at hlength
      exact ⟨hdigits, fun _ => hzero, by omega⟩
    · rw [if_neg hfraction, List.drop_zero] at hlength
      exact ⟨hdigits, fun hnil => absurd hnil hfraction, by omega⟩
  · rintro ⟨hdigits, hfraction, hexponent⟩
    have hmore : (if fraction = [] then fractionLength follow else 0) = 0 := by
      split
      · exact hfraction ‹_›
      · rfl
    rw [hdigits, List.drop_zero, hmore, List.drop_zero, hexponent] at hlength
    exact hlength

theorem numeralEnds_percent (h : IsSigned text sign whole fraction) (follow : Text) :
    NumeralEnds text ('%' :: follow) :=
  h.numeralEnds_iff.2 ⟨rfl, fun _ => rfl, rfl⟩

theorem startsNumeral_append (h : IsSigned text sign whole fraction) (follow : Text) :
    startsNumeral (text ++ follow) = true := by
  have hsign := h.signLength_append follow
  obtain ⟨htext, -, hdigits, hne⟩ := h
  unfold startsNumeral
  rw [hsign, htext, List.append_assoc, List.drop_left]
  rcases whole with _ | ⟨c, whole⟩
  · rcases fraction with _ | ⟨c, fraction⟩
    · exact absurd rfl hne
    · exact hdigits c List.mem_cons_self
  · have hc := hdigits c List.mem_cons_self
    have hpoint : c ≠ '.' := by
      rintro rfl
      contradiction
    simp [hpoint, hc]

theorem sign_eq_minus (h : IsSigned text sign whole fraction) {follow : Text}
    (hhead : (text ++ follow).head? = some '-') : sign = ['-'] := by
  obtain ⟨rfl, hsign, hdigit, hne⟩ := h
  obtain rfl | rfl | rfl := hsign
  · obtain ⟨c, rest, heq, hminus, -⟩ := Decimal.exists_positional_eq_cons hdigit hne
    rw [List.nil_append, heq] at hhead
    exact absurd (Option.some.inj hhead) hminus
  · rfl
  · exact absurd hhead (by simp)

/-- A numeral has a point if it has a fraction. -/
theorem mem_point_iff (h : IsSigned text sign whole fraction) : '.' ∈ text ↔ fraction ≠ [] := by
  constructor
  · rintro hpoint rfl
    rw [h.text_eq, Decimal.pointed, List.isEmpty_nil, if_pos rfl, List.append_nil,
      List.mem_append] at hpoint
    obtain hsign | hwhole := hpoint
    · obtain rfl | rfl | rfl := h.sign_eq <;> exact absurd hsign (by decide)
    · exact absurd (h.isDigit '.' (List.mem_append_left _ hwhole)) (by decide)
  · intro hne
    obtain ⟨c, fraction, rfl⟩ := List.exists_cons_of_ne_nil hne
    rw [h.text_eq]
    simp [Decimal.pointed]

end IsSigned

end Css
