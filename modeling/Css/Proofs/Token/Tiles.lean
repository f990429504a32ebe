import Css.Proofs.Pos
import Css.Token.Reading

/-!
# Tokens tile a text

Each token of a text starts where the one before ends, and none is empty. So the tokens of a text
whose places fit in words stand in the order in which they are read.
-/

namespace Css.Reading

theorem all_cons (lineComments : Bool) (offset : Nat) (c : Char) (cs : Text) :
    all lineComments offset (c :: cs) =
      first lineComments offset c cs ::
        all lineComments
          (offset + Text.byteLength ((c :: cs).take (Token.scan lineComments c cs).length))
          ((c :: cs).drop (Token.scan lineComments c cs).length) := by
  rw [all]
  rfl

theorem all_ne_nil (lineComments : Bool) (offset : Nat) {text : Text} (h : text ≠ []) :
    all lineComments offset text ≠ [] := by
  cases text with
  | nil => exact absurd rfl h
  | cons c cs => rw [all_cons]; exact List.cons_ne_nil _ _

theorem byteLength_first (lineComments : Bool) (offset : Nat) (c : Char) (cs : Text) :
    Text.byteLength (first lineComments offset c cs).lexeme.raw +
        Text.byteLength ((c :: cs).drop (Token.scan lineComments c cs).length) =
      Text.byteLength (c :: cs) := by
  rw [← Text.byteLength_append]
  exact congrArg Text.byteLength (List.take_append_drop ..)

/-- Every token stands somewhere in its text, and is not empty. -/
theorem exists_place_of_mem_all {lineComments : Bool} {offset : Nat} {text : Text}
    {reading : Reading} (h : reading ∈ all lineComments offset text) :
    ∃ place, offset ≤ place ∧ 0 < Text.byteLength reading.lexeme.raw ∧
      place + Text.byteLength reading.lexeme.raw ≤ offset + text.byteLength ∧
      reading.lexeme.span =
        ⟨.ofPlace place, .ofPlace (place + Text.byteLength reading.lexeme.raw)⟩ := by
  fun_induction all lineComments offset text with
  | case1 => simp at h
  | case2 offset c cs first ih =>
    have hbytes : Text.byteLength first.lexeme.raw + _ = _ :=
      byteLength_first lineComments offset c cs
    obtain rfl | hrest := List.mem_cons.1 h
    · have hlength := (Token.scan_length lineComments c cs).1
      obtain ⟨n, hn⟩ := Nat.exists_eq_succ_of_ne_zero (Nat.ne_of_gt hlength)
      have hpos : 0 < Text.byteLength first.lexeme.raw := by
        show 0 < Text.byteLength ((c :: cs).take (Token.scan lineComments c cs).length)
        have := c.utf8Size_pos
        rw [hn, List.take_succ_cons, Text.byteLength_cons]
        omega
      exact ⟨offset, Nat.le_refl _, hpos, by omega, rfl⟩
    · obtain ⟨place, hstart, hpos, hstop, hspan⟩ := ih hrest
      exact ⟨place, by omega, hpos, by omega, hspan⟩

section Fits

variable {lineComments : Bool} {offset : Nat} {text : Text}
  (hfits : offset + text.byteLength ≤ maxInputLength)
include hfits

/-- Every token lies in its text and is not empty. -/
theorem span_of_mem_all {reading : Reading} (h : reading ∈ all lineComments offset text) :
    offset ≤ reading.lexeme.span.start.toNat ∧
      reading.lexeme.span.start < reading.lexeme.span.stop ∧
      reading.lexeme.span.stop.toNat ≤ offset + text.byteLength := by
  obtain ⟨place, hstart, hpos, hstop, hspan⟩ := exists_place_of_mem_all h
  have hfirst : (Pos.ofPlace place).toNat = place := Pos.toNat_ofPlace (by omega)
  have hlast := Pos.toNat_ofPlace (Nat.le_trans hstop hfits)
  rw [hspan, UInt32.lt_iff_toNat_lt, hfirst, hlast]
  omega

/-- Each token ends in front of every later one. -/
theorem pairwise_all :
    (all lineComments offset text).Pairwise fun left right =>
      left.lexeme.span.stop ≤ right.lexeme.span.start := by
  fun_induction all lineComments offset text with
  | case1 => exact .nil
  | case2 offset c cs reading ih =>
    have hbytes : Text.byteLength reading.lexeme.raw + _ = _ :=
      byteLength_first lineComments offset c cs
    refine List.pairwise_cons.2 ⟨fun later hmem => ?_, ih (by omega)⟩
    obtain ⟨place, hstart, -, hstop, hspan⟩ := exists_place_of_mem_all hmem
    rw [hspan]
    exact Pos.ofPlace_le hstart (by omega)

end Fits

end Css.Reading
