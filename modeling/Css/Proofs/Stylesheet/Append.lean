import Css.Proofs.Stylesheet.Diagnostics
import Css.Proofs.Stylesheet.Located
import Css.Proofs.Stylesheet.Resume
import Css.Proofs.Stylesheet.Tracking
import Css.Proofs.Token.Barrier
import Css.Stylesheet.Printer

/-!
# Errors stay in the rule they occur in

Where the brackets of a source close in order and its last token is a curly bracket, every way of
reading past an error is back outside all blocks at its end. So what is written behind such a source
is read as on its own.
-/

namespace Css

open Css.Parser (State)

theorem Parser.State.finish_of_closed {state : State} (hframes : state.frames = [])
    (hsegment : state.segment = none) (place : Pos) : state.finish place = state := by
  unfold finish
  split
  · rfl
  · simp only [hsegment, hframes, closeFrames]

namespace Stylesheet

/-- Reading that ended early has said so. -/
theorem aborted_stateBehind {options : ParseOptions} {text : Text}
    (hdepth : ∀ diagnostic ∈ (parse options text).diagnostics, ∀ limit,
      diagnostic.problem ≠ .depthExceeded limit) :
    (stateBehind options text).aborted = false := by
  cases haborted : (stateBehind options text).aborted with
  | false => rfl
  | true =>
    have hexplains : (stateBehind options text).Explains :=
      State.Explains.foldl (.of_not_aborted rfl) _
    obtain ⟨diagnostic, hmem, limit, hproblem⟩ := hexplains haborted
    refine absurd hproblem (hdepth diagnostic ?_ limit)
    rw [parse_eq, State.finish, if_pos haborted]
    exact Diagnostic.mem_sort.2 (Array.mem_toList_iff.2 hmem)

/-- Diagnostics start inside the text. -/
theorem start_le_of_mem_stateBehind {options : ParseOptions} {text : Text}
    (hfits : text.byteLength ≤ maxInputLength) {diagnostic : Diagnostic}
    (h : diagnostic ∈ (stateBehind options text).diagnostics) :
    diagnostic.span.start.toNat ≤ text.byteLength := by
  have hwithin : State.IsWithin (fun span => span.start.toNat ≤ text.byteLength)
      (stateBehind options text) := by
    refine (State.isWithin_initial _).foldl (fun left right hleft _ => ?_) fun reading hmem => ?_
    · rw [Span.join, Pos.toNat_min]
      exact Nat.le_trans (Nat.min_le_left ..) hleft
    · obtain ⟨-, hlt, hstop⟩ := Reading.span_of_mem_all (by rwa [Nat.zero_add]) hmem
      rw [UInt32.lt_iff_toNat_lt] at hlt
      omega
  exact hwithin.diagnostics diagnostic h

/-- What is noted of a text stands some bytes further on where the text does. -/
theorem isShifted_diagnostics {options : ParseOptions} {text : Text} {bytes : Nat}
    (hfits : bytes + text.byteLength ≤ maxInputLength) :
    List.Forall₂ (Diagnostic.IsShifted bytes) (parse options text).diagnostics
      ((parse options text).diagnostics.map (Diagnostic.shift bytes)) := by
  rw [List.forall₂_map_right_iff, List.forall₂_same]
  intro diagnostic hmem
  have hlies := liesIn_of_mem_diagnostics options (by omega) hmem
  have hstop := hlies.stop_le
  exact ⟨rfl, Span.isShifted_shift hlies.ordered (by omega)⟩

section Append

variable {options : ParseOptions} {front : Text} (back : Text)
  (hfits : front.byteLength + back.byteLength ≤ maxInputLength)
  (hbalanced : Lexeme.isBalanced
    ((Reading.all options.lineComments 0 front).map (·.lexeme)) = true)
  (hcurly : (Reading.all options.lineComments 0 front).getLast?.map (·.lexeme.token) =
    some (.closing .curly))
  (hgoes : (stateBehind options front).aborted = false)

include hfits hcurly in
/-- Behind a curly bracket a text is cut into the same tokens as on its own. -/
theorem all_append_of_closed : Reading.all options.lineComments 0 (front ++ back) =
    Reading.all options.lineComments 0 front ++
      (Reading.all options.lineComments 0 back).map (Reading.shift front.byteLength) := by
  obtain ⟨last, hlast, htoken⟩ := Option.map_eq_some_iff.1 hcurly
  obtain ⟨readings, hreadings⟩ := List.getLast?_eq_some_iff.1 hlast
  obtain ⟨text, rfl⟩ := Reading.exists_front hreadings htoken
  rw [List.append_assoc, List.singleton_append, Reading.all_barrier _ _ _ back hreadings htoken,
    Reading.all_add _ (by rwa [Nat.zero_add])]

include hbalanced hcurly hgoes in
/-- Behind a closed source nothing is open. -/
theorem stateBehind_of_closed :
    (stateBehind options front).frames = [] ∧ (stateBehind options front).segment = none := by
  obtain ⟨last, hlast, htoken⟩ := Option.map_eq_some_iff.1 hcurly
  obtain ⟨readings, hreadings⟩ := List.getLast?_eq_some_iff.1 hlast
  unfold stateBehind at hgoes ⊢
  rw [hreadings] at hbalanced hgoes ⊢
  exact State.frames_eq_nil_and_segment_eq_none htoken hbalanced hgoes

include hfits hbalanced hcurly hgoes in
theorem stateBehind_append : stateBehind options (front ++ back) =
    (stateBehind options back).resume (stateBehind options front) front.byteLength := by
  have hclosed := stateBehind_of_closed hbalanced hcurly hgoes
  have hinitial : (State.initial options.maxDepth).resume (stateBehind options front)
      front.byteLength = stateBehind options front :=
    State.resume_initial _ _ _ (State.limit_foldl ..) hclosed.1 hclosed.2 hgoes
  have hback := State.resume_foldl (stateBehind options front) front.byteLength
    (.initial options.maxDepth) (Reading.all options.lineComments 0 back)
  rw [hinitial] at hback
  rw [stateBehind, all_append_of_closed back hfits hcurly, List.foldl_append]
  exact hback.symm

include hfits hbalanced hcurly hgoes in
theorem parse_append_eq : parse options (front ++ back) =
    { sheet := (parse options front).sheet ++ (parse options back).sheet
      diagnostics := (parse options front).diagnostics ++
        (parse options back).diagnostics.map (Diagnostic.shift front.byteLength) } := by
  have hclosed := stateBehind_of_closed hbalanced hcurly hgoes
  have hend : (Pos.ofPlace back.byteLength).shift front.byteLength =
      .ofPlace (Text.byteLength (front ++ back)) := by
    rw [Text.byteLength_append, Nat.add_comm]
    exact Pos.ofPlace_shift (by omega)
  have hstarts : ∀ diagnostic ∈ ((stateBehind options back).finish
      (.ofPlace back.byteLength)).diagnostics.toList,
      diagnostic.span.start.toNat + front.byteLength ≤ maxInputLength := by
    intro diagnostic hmem
    have hparsed : diagnostic ∈ (parse options back).diagnostics := by
      rw [parse_eq]
      exact Diagnostic.mem_sort.2 hmem
    have hlies := liesIn_of_mem_diagnostics options (by omega) hparsed
    have hordered := UInt32.le_iff_toNat_le.1 hlies.ordered
    have hstop := hlies.stop_le
    omega
  rw [parse_eq, parse_eq, parse_eq, State.finish_of_closed hclosed.1 hclosed.2,
    stateBehind_append back hfits hbalanced hcurly hgoes, ← hend, ← State.resume_finish]
  simp only [State.resume, Array.toList_append, Array.toList_map, ParseResult.mk.injEq, true_and]
  rw [Diagnostic.sort_append, Diagnostic.sort_shift hstarts]
  -- what is noted of the front starts before its end, where the back begins
  intro earlier hearlier later hlater
  obtain ⟨diagnostic, hmem, rfl⟩ := List.mem_map.1 hlater
  have hstart := start_le_of_mem_stateBehind (by omega) (Array.mem_toList_iff.1 hearlier)
  have hlater := hstarts diagnostic hmem
  rw [UInt32.le_iff_toNat_le, Diagnostic.shift, Span.shift, Pos.toNat_shift]
  omega

end Append

/-- What stands behind a closed source is read as on its own, as long as words count the places of
both. -/
theorem parse_append (options : ParseOptions) (front back : Text)
    (hfits : Text.byteLength (front ++ back) ≤ maxInputLength)
    (hbalanced : Lexeme.isBalanced
      ((Reading.all options.lineComments 0 front).map (·.lexeme)) = true)
    (hcurly : (Reading.all options.lineComments 0 front).getLast?.map (·.lexeme.token) =
      some (.closing .curly))
    (hdepth : ∀ diagnostic ∈ (parse options front).diagnostics, ∀ limit,
      diagnostic.problem ≠ .depthExceeded limit) :
    (parse options (front ++ back)).sheet =
      (parse options front).sheet ++ (parse options back).sheet ∧
    ∃ shifted, (parse options (front ++ back)).diagnostics =
        (parse options front).diagnostics ++ shifted ∧
      List.Forall₂ (Diagnostic.IsShifted front.byteLength) (parse options back).diagnostics
        shifted := by
  rw [Text.byteLength_append] at hfits
  rw [parse_append_eq back hfits hbalanced hcurly (aborted_stateBehind hdepth)]
  exact ⟨rfl, _, rfl, isShifted_diagnostics hfits⟩

/-- A declaration without a colon says nothing about the rule behind it, which has one too. -/
theorem parse_append_bad_declaration :
    serialize .minified (parse { } ("a\x7bb\x7d".toList ++ "c\x7bd\x7d".toList)).sheet =
        "a\x7b\x7dc\x7b\x7d".toList ∧
      (parse { } ("a\x7bb\x7d".toList ++ "c\x7bd\x7d".toList)).diagnostics =
        [⟨⟨2, 3⟩, .invalidDeclaration DeclarationError.missingColon.message⟩,
          ⟨⟨6, 7⟩, .invalidDeclaration DeclarationError.missingColon.message⟩] := by
  have hfront : (parse { } "a\x7bb\x7d".toList).diagnostics =
      [⟨⟨2, 3⟩, .invalidDeclaration DeclarationError.missingColon.message⟩] := by decide +kernel
  have hback : (parse { } "c\x7bd\x7d".toList).diagnostics =
      [⟨⟨2, 3⟩, .invalidDeclaration DeclarationError.missingColon.message⟩] := by decide +kernel
  have hdepth : ∀ diagnostic ∈ (parse { } "a\x7bb\x7d".toList).diagnostics, ∀ limit,
      diagnostic.problem ≠ .depthExceeded limit := by
    intro diagnostic hmem limit
    rw [hfront, List.mem_singleton] at hmem
    rw [hmem]
    exact Problem.noConfusion
  obtain ⟨hsheet, shifted, hdiagnostics, hshifted⟩ := parse_append { } "a\x7bb\x7d".toList
    "c\x7bd\x7d".toList (by decide +kernel) (by decide +kernel) (by decide +kernel) hdepth
  rw [hback, List.forall₂_cons_left_iff] at hshifted
  obtain ⟨diagnostic, rest, hsecond, hrest, rfl⟩ := hshifted
  obtain rfl := List.forall₂_nil_left_iff.1 hrest
  have hspan : diagnostic =
      ⟨⟨6, 7⟩, .invalidDeclaration DeclarationError.missingColon.message⟩ := by
    obtain ⟨hproblem, hstart, hstop⟩ := hsecond
    rcases diagnostic with ⟨⟨start, stop⟩, problem⟩
    rw [Diagnostic.mk.injEq, Span.mk.injEq]
    exact ⟨⟨UInt32.toNat_inj.1 hstart, UInt32.toNat_inj.1 hstop⟩, hproblem⟩
  rw [hsheet, hdiagnostics, hfront, hspan]
  exact ⟨by decide +kernel, rfl⟩

/-- What is noted at the end of stray bytes that become a text of almost the greatest length is
noted nowhere behind a rule in front of them. -/
theorem not_parse_append :
    (Utf8.stray "a\x7b\x7d".toList 1431655764 ['\x7d']).length ≤ maxInputLength ∧
      ∃ back, Utf8.decodeLossy (Utf8.stray "a\x7b\x7d".toList 1431655764 ['\x7d']) =
          "a\x7b\x7d".toList ++ back ∧
        (parse { } "a\x7b\x7d".toList).diagnostics = [] ∧
        Lexeme.isBalanced (Lexeme.ofText "a\x7b\x7d".toList) = true ∧
        (Lexeme.ofText "a\x7b\x7d".toList).getLast?.map (·.token) = some (.closing .curly) ∧
        ¬∃ shifted, (parse { } ("a\x7b\x7d".toList ++ back)).diagnostics =
            (parse { } "a\x7b\x7d".toList).diagnostics ++ shifted ∧
          List.Forall₂ (Diagnostic.IsShifted (Text.byteLength "a\x7b\x7d".toList))
            (parse { } back).diagnostics shifted := by
  rw [Utf8.length_stray, Utf8.decodeLossy_stray]
  refine ⟨by decide, _, rfl, by decide +kernel, by decide +kernel, by decide +kernel, ?_⟩
  rintro ⟨shifted, -, hshifted⟩
  have hstop := forall_mem_of_forall₂ hshifted (fun _ _ h => h.span.stop_le) _
    (mem_diagnostics_replacements { } (by decide))
  exact absurd hstop (by decide)

end Stylesheet

end Css
