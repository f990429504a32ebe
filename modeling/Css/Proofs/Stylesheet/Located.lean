import Css.Proofs.Location
import Css.Proofs.Shift
import Css.Proofs.Stylesheet.Places
import Css.Proofs.Token.Iteration
import Css.Proofs.Token.Replacement

/-!
# Diagnostics point into the source

Where places fit in words, lexemes and the end of the source lie in the source, with both ends
between characters, and so does what is put together from such spans (`Span.LiesIn.join`). So every
diagnostic of a style sheet has a length that is no less than nothing and a location that is that of
its start (`Stylesheet.diagnostics_pointInto`). A text that is decoded from bytes can be longer than
words count, and then a diagnostic can end before it starts
(`Stylesheet.not_diagnostics_pointInto`).
-/

namespace Css

/-- Whether a span is a stretch of a text: its ends lie between characters, in order. -/
structure Span.LiesIn (text : Text) (span : Span) : Prop where
  ordered : span.start ≤ span.stop
  start : (text.dropBytes? span.start).isSome = true
  stop : (text.dropBytes? span.stop).isSome = true

namespace Span.LiesIn

variable {text : Text} {span : Span}

theorem join {left right : Span} (hleft : left.LiesIn text) (hright : right.LiesIn text) :
    (left.join right).LiesIn text where
  ordered := by
    have hleft := UInt32.le_iff_toNat_le.1 hleft.ordered
    have hright := UInt32.le_iff_toNat_le.1 hright.ordered
    rw [UInt32.le_iff_toNat_le, Span.join, Pos.toNat_min, Pos.toNat_max]
    omega
  start := by
    rw [Span.join, Pos.toNat_min]
    obtain hle | hle := Nat.le_total left.start.toNat right.start.toNat
    · rw [Nat.min_eq_left hle]
      exact hleft.start
    · rw [Nat.min_eq_right hle]
      exact hright.start
  stop := by
    rw [Span.join, Pos.toNat_max]
    obtain hle | hle := Nat.le_total left.stop.toNat right.stop.toNat
    · rw [Nat.max_eq_right hle]
      exact hright.stop
    · rw [Nat.max_eq_left hle]
      exact hleft.stop

theorem point_byteLength (hfits : text.byteLength ≤ maxInputLength) :
    (point (.ofPlace text.byteLength)).LiesIn text := by
  have hend : (text.dropBytes? (Pos.ofPlace text.byteLength)).isSome = true := by
    have h := Text.dropBytes?_append text []
    rw [List.append_nil] at h
    rw [Pos.toNat_ofPlace hfits, h]
    rfl
  exact ⟨UInt32.le_refl _, hend, hend⟩

theorem stop_le (h : span.LiesIn text) : span.stop.toNat ≤ text.byteLength := by
  obtain ⟨rest, hrest⟩ := Option.isSome_iff_exists.1 h.stop
  obtain ⟨front, rfl, hstop⟩ := Text.dropBytes?_eq_some_iff.1 hrest
  rw [hstop, Text.byteLength_append]
  exact Nat.le_add_right ..

end Span.LiesIn

theorem Lexeme.LiesIn.span {source : Text} {lexeme : Lexeme} (h : lexeme.LiesIn source) :
    lexeme.span.LiesIn source where
  ordered := by
    obtain ⟨front, back, -, hstart, hstop⟩ := h
    rw [UInt32.le_iff_toNat_le, hstart, hstop]
    exact Nat.le_add_right ..
  start := h.isSome_start
  stop := h.isSome_stop

/-- What the span of a diagnostic says about a text: it is a stretch of the text, as long as it
claims to be, and starts at the location that is given for it. -/
structure Diagnostic.PointsInto (text : Text) (diagnostic : Diagnostic) : Prop where
  ordered : diagnostic.span.start ≤ diagnostic.span.stop
  inside : diagnostic.span.stop.toNat ≤ text.byteLength
  boundary : (text.dropBytes? diagnostic.span.start).isSome = true ∧
    (text.dropBytes? diagnostic.span.stop).isSome = true
  length : diagnostic.span.start.toNat + diagnostic.span.length.toNat = diagnostic.span.stop.toNat
  location : ∃ front back, text = front ++ back ∧
    diagnostic.span.start.toNat = front.byteLength ∧ (diagnostic.location text).IsBehind front

theorem Diagnostic.PointsInto.of_liesIn {text : Text} {diagnostic : Diagnostic}
    (h : diagnostic.span.LiesIn text) : diagnostic.PointsInto text where
  ordered := h.ordered
  inside := h.stop_le
  boundary := ⟨h.start, h.stop⟩
  length := by
    rw [Span.length, UInt32.toNat_sub_of_le _ _ h.ordered]
    exact Nat.add_sub_cancel' (UInt32.le_iff_toNat_le.1 h.ordered)
  location := by
    obtain ⟨back, hback⟩ := Option.isSome_iff_exists.1 h.start
    obtain ⟨front, htext, hstart⟩ := Text.dropBytes?_eq_some_iff.1 hback
    refine ⟨front, back, htext, hstart, ?_⟩
    rw [Diagnostic.location, htext]
    exact Location.isBehind_ofPlace hstart

namespace Stylesheet

open Css.Parser (State)

theorem pairwise_diagnostics (options : ParseOptions) (text : Text) :
    (parse options text).diagnostics.Pairwise fun left right =>
      left.span.start ≤ right.span.start := by
  rw [parse_eq]
  exact Diagnostic.pairwise_sort _

section Fits

variable (options : ParseOptions) {text : Text} (hfits : text.byteLength ≤ maxInputLength)
include hfits

theorem liesIn_of_mem_diagnostics {diagnostic : Diagnostic}
    (hmem : diagnostic ∈ (parse options text).diagnostics) : diagnostic.span.LiesIn text := by
  have hreadings : ∀ reading ∈ Reading.all options.lineComments 0 text,
      reading.lexeme.span.LiesIn text := by
    intro reading hreading
    have hlexeme : reading.lexeme ∈ Reading.lexemes options.lineComments 0 text :=
      List.mem_append_left _ (List.mem_map_of_mem hreading)
    exact (Reading.liesIn_of_mem_lexemes _ hlexeme hfits (List.nil_append text).symm rfl).span
  have hjoin : ∀ left right : Span, left.LiesIn text → right.LiesIn text →
      (left.join right).LiesIn text := fun _ _ hleft hright => hleft.join hright
  have hbehind : (stateBehind options text).IsWithin (Span.LiesIn text) :=
    (State.isWithin_initial _).foldl hjoin hreadings
  have hfinish := hbehind.finish hjoin (Span.LiesIn.point_byteLength hfits)
  rw [parse_eq, Diagnostic.mem_sort] at hmem
  exact hfinish.diagnostics diagnostic (Array.mem_toList_iff.1 hmem)

/-- The diagnostics of a style sheet stand in the order of their starts, and each points to a
stretch of the source. -/
theorem diagnostics_pointInto :
    ((parse options text).diagnostics.Pairwise fun left right =>
      left.span.start ≤ right.span.start) ∧
    ∀ diagnostic ∈ (parse options text).diagnostics, diagnostic.PointsInto text := by
  refine ⟨pairwise_diagnostics options text, fun diagnostic hmem => ?_⟩
  exact .of_liesIn (liesIn_of_mem_diagnostics options hfits hmem)

end Fits

/-- A curly bracket that closes nothing, behind a character of two bytes and a line feed. -/
theorem diagnostics_pointInto_stray :
    ⟨⟨5, 6⟩, .unbalancedBlock '\x7b'⟩ ∈ (parse {} "é\x7b\x7d\n\x7d".toList).diagnostics ∧
      (⟨⟨5, 6⟩, .unbalancedBlock '\x7b'⟩ : Diagnostic).PointsInto "é\x7b\x7d\n\x7d".toList := by
  have hmem : ⟨⟨5, 6⟩, .unbalancedBlock '\x7b'⟩ ∈
      (parse {} "é\x7b\x7d\n\x7d".toList).diagnostics := by
    decide +kernel
  exact ⟨hmem, (@diagnostics_pointInto {} "é\x7b\x7d\n\x7d".toList (by decide +kernel)).2 _ hmem⟩

/-- A curly bracket that closes nothing is reported where it stands behind a name. -/
theorem mem_diagnostics_replacements (options : ParseOptions) {n : Nat} (h : 0 < n) :
    ⟨⟨.ofPlace (3 * n), .ofPlace (3 * n + 1)⟩, .unbalancedBlock '\x7b'⟩ ∈
      (parse options (List.replicate n '\ufffd' ++ ['\x7d'])).diagnostics := by
  have hname := Reading.all_replacements options.lineComments 0 h
    (endsName_cons (by decide : isNameChar '\x7d' = false) (by decide) [])
  have hcurly : Reading.all options.lineComments (3 * n) ['\x7d'] =
      [⟨⟨.closing .curly, ⟨.ofPlace (3 * n), .ofPlace (3 * n + 1)⟩, ['\x7d']⟩, none⟩] := by
    rw [Reading.all_cons]
    exact congrArg _ (Reading.all.eq_1 ..)
  have hsteps : ∀ (name raw raw' : Text) (span stop : Span),
      [⟨⟨.ident name, span, raw⟩, none⟩, ⟨⟨.closing .curly, stop, raw'⟩, none⟩].foldl State.step
          (.initial options.maxDepth) =
        { State.initial options.maxDepth with
          diagnostics := #[⟨span.join span, .invalidSelector SelectorError.missingBlock.message⟩,
            ⟨stop, .unbalancedBlock '\x7b'⟩] } := fun _ _ _ _ _ => rfl
  rw [Nat.zero_add, hcurly] at hname
  rw [parse_eq, Diagnostic.mem_sort, stateBehind, hname, hsteps]
  exact List.mem_cons_of_mem _ (List.mem_singleton_self _)

/-- A third of the greatest length in stray bytes ends where words end, and what stands behind it
ends before it starts. -/
theorem not_diagnostics_pointInto :
    (Utf8.stray [] 1431655765 ['\x7d']).length ≤ maxInputLength ∧
      ∃ diagnostic ∈ (parse {} (Utf8.decodeLossy (Utf8.stray [] 1431655765 ['\x7d']))).diagnostics,
        diagnostic.span = ⟨4294967295, 0⟩ ∧ ¬diagnostic.span.start ≤ diagnostic.span.stop := by
  rw [Utf8.length_stray, Utf8.decodeLossy_stray, List.nil_append]
  exact ⟨by decide, _, mem_diagnostics_replacements {} (by decide), rfl, by decide⟩

end Stylesheet

end Css
