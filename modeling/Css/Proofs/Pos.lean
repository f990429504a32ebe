import Css.Diagnostic

/-!
# Places in words

A word keeps a place up to the greatest length of a source (`Pos.toNat_ofPlace`), and words are
added as their places are (`Pos.ofPlace_add`). Two words are in the order of the places that they
keep.
-/

namespace Css.Pos

theorem toNat_ofPlace {place : Nat} (h : place ≤ maxInputLength) :
    (ofPlace place).toNat = place := by
  rw [maxInputLength] at h
  rw [ofPlace, UInt32.toNat_ofNat']
  exact Nat.mod_eq_of_lt (by omega)

theorem toNat_le (pos : Pos) : pos.toNat ≤ maxInputLength :=
  Nat.le_of_lt_succ pos.toNat_lt

theorem ofPlace_add (place bytes : Nat) :
    ofPlace (place + bytes) = ofPlace place + ofPlace bytes :=
  UInt32.ofNat_add place bytes

theorem ofPlace_le {place place' : Nat} (h : place ≤ place') (hfits : place' ≤ maxInputLength) :
    ofPlace place ≤ ofPlace place' := by
  rw [UInt32.le_iff_toNat_le, toNat_ofPlace hfits, toNat_ofPlace (Nat.le_trans h hfits)]
  exact h

theorem min_eq (pos pos' : Pos) : min pos pos' = if pos ≤ pos' then pos else pos' := rfl

theorem max_eq (pos pos' : Pos) : max pos pos' = if pos ≤ pos' then pos' else pos := rfl

theorem toNat_min (pos pos' : Pos) : (min pos pos').toNat = min pos.toNat pos'.toNat := by
  rw [min_eq]
  split <;> rename_i h <;> rw [UInt32.le_iff_toNat_le] at h <;> omega

theorem toNat_max (pos pos' : Pos) : (max pos pos').toNat = max pos.toNat pos'.toNat := by
  rw [max_eq]
  split <;> rename_i h <;> rw [UInt32.le_iff_toNat_le] at h <;> omega

/-! ### Places further on -/

def shift (bytes : Nat) (pos : Pos) : Pos := ofPlace (min (pos.toNat + bytes) maxInputLength)

theorem toNat_shift (bytes : Nat) (pos : Pos) :
    (pos.shift bytes).toNat = min (pos.toNat + bytes) maxInputLength :=
  toNat_ofPlace (Nat.min_le_right ..)

theorem ofPlace_shift {bytes place : Nat} (h : place + bytes ≤ maxInputLength) :
    (ofPlace place).shift bytes = ofPlace (place + bytes) := by
  rw [shift, toNat_ofPlace (Nat.le_trans (Nat.le_add_right ..) h), Nat.min_eq_left h]

theorem shift_min (bytes : Nat) (pos pos' : Pos) :
    (min pos pos').shift bytes = min (pos.shift bytes) (pos'.shift bytes) := by
  apply UInt32.toNat_inj.1
  simp only [toNat_min, toNat_shift]
  omega

theorem shift_max (bytes : Nat) (pos pos' : Pos) :
    (max pos pos').shift bytes = max (pos.shift bytes) (pos'.shift bytes) := by
  apply UInt32.toNat_inj.1
  simp only [toNat_max, toNat_shift]
  omega

end Css.Pos
