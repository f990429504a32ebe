import Css.Number.Decimal
import Mathlib.Algebra.Group.Nat.Defs

/-!
# Numbers that read back

A magnitude is the nearest one to itself (`Magnitude.nearestRank_units`), and what a decimal is
nearest to depends on its value alone. So the exact digits of a number are nearest to it, and so
are the shortest ones that are written for it (`Number.nearestRank_shortestDecimal`).
-/

namespace Css

/-! ### Ranks and magnitudes -/

namespace Magnitude

theorem blockSize_eq : blockSize = 2 ^ 52 := rfl

/-- The steps of a magnitude whose step has doubled fill a block. -/
theorem significand_lt (rank : Nat) : significand rank < 2 * blockSize := by
  have hblock : 0 < blockSize := by decide
  have hdivision := Nat.div_add_mod rank blockSize
  have hmod := Nat.mod_lt rank hblock
  rw [significand, doublings]
  cases hquotient : rank / blockSize with
  | zero =>
    rw [hquotient] at hdivision
    omega
  | succ n =>
    rw [hquotient, Nat.mul_comm, Nat.add_mul] at hdivision
    rw [Nat.add_sub_cancel]
    omega

theorem le_significand {rank : Nat} (h : 0 < doublings rank) : blockSize ≤ significand rank := by
  have hdivision := Nat.div_add_mod rank blockSize
  rw [doublings] at h
  rw [significand, doublings]
  cases hquotient : rank / blockSize with
  | zero => omega
  | succ n =>
    rw [hquotient, Nat.mul_comm, Nat.add_mul] at hdivision
    rw [Nat.add_sub_cancel]
    omega

/-- A rank is the doublings before it, a block for each, and its own steps. -/
theorem doublings_mul_add_significand (rank : Nat) :
    doublings rank * blockSize + significand rank = rank := by
  have hle : doublings rank * blockSize ≤ rank :=
    Nat.le_trans (Nat.mul_le_mul_right _ (Nat.sub_le _ 1)) (Nat.div_mul_le_self rank blockSize)
  rw [significand]
  omega

theorem units_eq (rank : Nat) : units rank = significand rank * 2 ^ doublings rank :=
  Nat.shiftLeft_eq ..

theorem log2_units_sub (rank : Nat) : (units rank).log2 - 52 = doublings rank := by
  have hlt := significand_lt rank
  rw [units_eq]
  rcases Nat.eq_zero_or_pos (doublings rank) with hzero | hpos
  · rw [hzero, Nat.pow_zero, Nat.mul_one]
    rcases Nat.eq_zero_or_pos (significand rank) with hnone | hsome
    · rw [hnone]
      decide
    · have := (Nat.log2_lt (Nat.pos_iff_ne_zero.1 hsome)).2
        (show significand rank < 2 ^ 53 from hlt)
      omega
  · have hle := le_significand hpos
    have hlow := Nat.mul_le_mul_right (2 ^ doublings rank) hle
    have hhigh := Nat.mul_lt_mul_of_pos_right hlt (Nat.two_pow_pos (doublings rank))
    rw [blockSize_eq, ← Nat.pow_add] at hlow
    rw [blockSize_eq, ← Nat.pow_succ', ← Nat.pow_add] at hhigh
    have hlog : (significand rank * 2 ^ doublings rank).log2 = 52 + doublings rank := by
      rw [Nat.log2_eq_iff (Nat.pos_iff_ne_zero.1 (Nat.lt_of_lt_of_le (Nat.two_pow_pos _) hlow))]
      refine ⟨hlow, ?_⟩
      rwa [Nat.add_right_comm]
    omega

/-- Every magnitude is the greatest one that is at most itself. -/
theorem floorRank_units (rank : Nat) : floorRank (units rank) = rank := by
  have hshift : units rank >>> doublings rank = significand rank := by
    rw [units_eq, Nat.shiftRight_eq_div_pow, Nat.mul_div_cancel _ (Nat.two_pow_pos _)]
  rw [floorRank, log2_units_sub, hshift, doublings_mul_add_significand]

/-- The next rank is a greater magnitude. -/
theorem units_lt_units_succ (rank : Nat) : units rank < units (rank + 1) := by
  have hrank := doublings_mul_add_significand rank
  have hnext := doublings_mul_add_significand (rank + 1)
  have hblock : 0 < blockSize := by decide
  have hlt := significand_lt rank
  have hnextLt := significand_lt (rank + 1)
  have hstep : doublings (rank + 1) = doublings rank ∨
      doublings (rank + 1) = doublings rank + 1 := by
    simp only [doublings, Nat.succ_div]
    split <;> omega
  rw [units_eq, units_eq]
  obtain hsame | hmore := hstep
  · rw [hsame] at hnext ⊢
    exact Nat.mul_lt_mul_of_pos_right (by omega) (Nat.two_pow_pos _)
  · have hpos : 0 < doublings (rank + 1) := by omega
    have hle := le_significand hpos
    rw [hmore, Nat.add_mul] at hnext
    rw [hmore, Nat.pow_succ', ← Nat.mul_assoc]
    exact Nat.mul_lt_mul_of_pos_right (by omega) (Nat.two_pow_pos _)

/-! ### The nearest magnitude -/

/-- The lower magnitude is the nearest one before the middle of the two. The function is opened
before it is applied: its comparison with variables in it would not come to an end. -/
theorem nearestRank_eq_of_lt {num den low : Nat} (hlow : floorRank (num / den) = low)
    (h : 2 * num < (units low + units (low + 1)) * den) : nearestRank num den = low := by
  have hopened : ∃ nearest, nearestRank = nearest ∧ nearest num den = low := by
    delta nearestRank
    refine ⟨_, Eq.refl _, ?_⟩
    rw [hlow]
    dsimp only
    rw [Nat.compare_eq_lt.2 h]
  obtain ⟨nearest, heq, hnearest⟩ := hopened
  rw [heq, hnearest]

/-- The nearest magnitude depends on how a fraction compares with others. -/
theorem nearestRank_congr {num den num' den' : Nat} (hfloor : num / den = num' / den')
    (h : ∀ n, compare (2 * num) (n * den) = compare (2 * num') (n * den')) :
    nearestRank num den = nearestRank num' den' := by
  have hopened : ∃ nearest, nearestRank = nearest ∧ nearest num den = nearest num' den' := by
    delta nearestRank
    refine ⟨_, Eq.refl _, ?_⟩
    rw [hfloor]
    dsimp only
    rw [h]
  obtain ⟨nearest, heq, hnearest⟩ := hopened
  rw [heq, hnearest]

theorem nearestRank_mul_right (num den : Nat) {factor : Nat} (h : 0 < factor) :
    nearestRank (num * factor) (den * factor) = nearestRank num den := by
  refine nearestRank_congr (Nat.mul_div_mul_right _ _ h) fun n => ?_
  simp only [← Nat.mul_assoc, Nat.compare_eq_ite_lt, Nat.mul_lt_mul_right h]

/-- Every magnitude is the nearest one to itself. -/
theorem nearestRank_units (rank : Nat) {den : Nat} (h : 0 < den) :
    nearestRank (units rank * den) den = rank := by
  have hlt := units_lt_units_succ rank
  have hfloor : floorRank (units rank * den / den) = rank := by
    rw [Nat.mul_div_cancel _ h, floorRank_units]
  refine nearestRank_eq_of_lt hfloor ?_
  rw [← Nat.mul_assoc, Nat.mul_lt_mul_right h]
  omega

/-- What is less than half of the smallest magnitude is nearest to zero. -/
theorem nearestRank_eq_zero {num den : Nat} (h : 2 * num < den) : nearestRank num den = 0 := by
  have hfloor : floorRank (num / den) = 0 := by
    rw [Nat.div_eq_of_lt (by omega)]
    decide
  have hone : units 0 + units (0 + 1) = 1 := by decide
  refine nearestRank_eq_of_lt hfloor ?_
  rw [hone, Nat.one_mul]
  exact h

end Magnitude

/-! ### Decimals -/

namespace Decimal

open Number (unitsPerOne)

theorem unitsPerOne_eq : unitsPerOne = 2 ^ 1074 := Nat.one_shiftLeft 1074

/-- Digits with `bits` more behind them are less than half of a power with that many more. -/
theorem two_mul_lt_two_pow (digits bits : Nat) :
    2 * (digits * 2 ^ bits) < 2 ^ (digits.log2 + (bits + 2)) := by
  have hdigits : digits < 2 ^ (digits.log2 + 1) := Nat.lt_log2_self
  have hpow : 2 ^ (digits.log2 + (bits + 2)) = 2 * (2 ^ (digits.log2 + 1) * 2 ^ bits) := by
    rw [← Nat.pow_add, ← Nat.pow_succ']
    congr 1
    omega
  rw [hpow]
  exact Nat.mul_lt_mul_of_pos_left (Nat.mul_lt_mul_of_pos_right hdigits (Nat.two_pow_pos _))
    (by decide)

/-- A decimal whose places are too many for its digits is nearest to zero. -/
theorem nearestRank_eq_zero_of_places {digits places : Nat}
    (h : digits.log2 + 1076 ≤ 3 * places) :
    Magnitude.nearestRank (digits * unitsPerOne) (10 ^ places) = 0 := by
  apply Magnitude.nearestRank_eq_zero
  calc 2 * (digits * unitsPerOne)
      < 2 ^ (digits.log2 + 1076) := by
        rw [unitsPerOne_eq]
        exact two_mul_lt_two_pow digits 1074
    _ ≤ 2 ^ (3 * places) := Nat.pow_le_pow_right (by decide) h
    _ = 8 ^ places := by rw [Nat.pow_mul]
    _ ≤ 10 ^ places := Nat.pow_le_pow_left (by decide) _

/-- What a decimal without a positive exponent is nearest to is what its value in units is. -/
theorem nearestRank_places (digits places : Nat) :
    nearestRank ⟨digits, -(places : Int)⟩ =
      Magnitude.nearestRank (digits * unitsPerOne) (10 ^ places) := by
  unfold nearestRank
  by_cases hzero : digits = 0
  · rw [if_pos hzero, hzero, Nat.zero_mul]
    exact (Magnitude.nearestRank_eq_zero (Nat.pow_pos (by decide))).symm
  rw [if_neg hzero]
  cases places with
  | zero => simp
  | succ places =>
    have hexponent : -((places + 1 : Nat) : Int) = .negSucc places := rfl
    simp only [hexponent]
    split
    · exact (nearestRank_eq_zero_of_places (by assumption)).symm
    · rfl

/-- Zeros at the end of the digits behind a point do not count. -/
theorem nearestRank_dropZeros (digits places zeros : Nat) :
    nearestRank ⟨digits * 10 ^ zeros, -((places + zeros : Nat) : Int)⟩ =
      nearestRank ⟨digits, -(places : Int)⟩ := by
  rw [nearestRank_places, nearestRank_places, Nat.mul_right_comm, Nat.pow_add,
    Magnitude.nearestRank_mul_right _ _ (Nat.pow_pos (by decide))]

/-- Zeros that take the place of an exponent do not count, where the value is not past every
finite one. -/
theorem nearestRank_addZeros {digits zeros : Nat}
    (h : nearestRank ⟨digits, zeros⟩ < Magnitude.count) :
    nearestRank ⟨digits * 10 ^ zeros, 0⟩ = nearestRank ⟨digits, zeros⟩ := by
  have hwhole := nearestRank_places (digits * 10 ^ zeros) 0
  rw [Nat.pow_zero] at hwhole
  refine hwhole.trans ?_
  unfold nearestRank at h ⊢
  by_cases hzero : digits = 0
  · rw [if_pos hzero, hzero, Nat.zero_mul, Nat.zero_mul]
    exact Magnitude.nearestRank_eq_zero (by decide)
  rw [if_neg hzero] at h ⊢
  simp only at h ⊢
  split at h
  · exact absurd h (Nat.lt_irrefl _)
  · rename_i hsmall
    rw [if_neg hsmall]
    rfl

end Decimal

/-! ### Digits that read back -/

namespace Number

/-- A power of two is one of ten, with five for every two that it lacks. -/
theorem exactDigits_mul (significand doublings bits : Nat) :
    (significand * 5 ^ (bits - doublings)) <<< (doublings - bits) * 2 ^ bits =
      significand * 2 ^ doublings * 10 ^ (bits - doublings) := by
  have hten : 10 ^ (bits - doublings) = 5 ^ (bits - doublings) * 2 ^ (bits - doublings) :=
    Nat.mul_pow 5 2 _
  have htwo : 2 ^ (doublings - bits) * 2 ^ bits = 2 ^ (bits - doublings) * 2 ^ doublings := by
    rw [← Nat.pow_add, ← Nat.pow_add]
    congr 1
    omega
  rw [Nat.shiftLeft_eq, Nat.mul_assoc, htwo, hten]
  ac_rfl

/-- The exact digits of a number are nearest to it. -/
theorem nearestRank_exactDecimal (x : Number) : x.exactDecimal.nearestRank = x.rank := by
  have hplaces : x.exactDecimal.nearestRank = _ := Decimal.nearestRank_places _ _
  have hdigits := exactDigits_mul (Magnitude.significand x.rank) (Magnitude.doublings x.rank) 1074
  rw [← Magnitude.units_eq, ← Decimal.unitsPerOne_eq] at hdigits
  rw [hplaces, Nat.pow_eq, hdigits]
  exact Magnitude.nearestRank_units _ (Nat.pow_pos (by decide))

/-- The decimal that is written for a number is nearest to it. -/
theorem nearestRank_shortestDecimal (x : Number) : x.shortestDecimal.nearestRank = x.rank := by
  unfold shortestDecimal
  simp only
  cases hfound : (List.range 17).findSome? fun n => (x.candidates
      ((Nat.toDigits 10 x.exactDecimal.digits).length - (n + 1))).find? x.readsBack with
  | none => exact x.nearestRank_exactDecimal
  | some decimal =>
    obtain ⟨n, -, hcandidate⟩ := List.exists_of_findSome?_eq_some hfound
    have hreads := List.find?_some hcandidate
    exact beq_iff_eq.1 hreads

end Number

end Css
