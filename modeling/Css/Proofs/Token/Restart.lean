import Css.Proofs.Shift
import Css.Proofs.Token.Iteration
import Css.Proofs.Token.Replacement

/-!
# Starting anew in the middle of a text

A tokenizer that is set back to a place gives from there on what a tokenizer of the text behind that
place gives, with all places shifted (`Tokenizer.reports_reset`): nothing that was read before has
any effect. Set back to the start of a lexeme, it gives again what came from that lexeme on.
-/

namespace Css

/-! ### The place that is found -/

namespace Cursor

/-- Seeking stops at the first place between two characters that is not in front of the place
sought, or at the end. -/
theorem exists_charsBefore (source : Text) (place : Nat) :
    ∃ front back, source = front ++ back ∧ charsBefore source place = front.length ∧
      min place source.byteLength ≤ front.byteLength ∧
      ∀ between, min place source.byteLength ≤ between → between < front.byteLength →
        source.dropBytes? between = none := by
  induction source generalizing place with
  | nil => exact ⟨[], [], rfl, rfl, Nat.min_le_right .., fun _ _ hlt => absurd hlt (by simp)⟩
  | cons c cs ih =>
    by_cases hplace : place = 0
    · refine ⟨[], c :: cs, rfl, ?_, ?_, fun _ _ hlt => absurd hlt (by simp)⟩
      · rw [charsBefore, if_pos hplace, List.length_nil]
      · rw [hplace, Nat.zero_min]
        exact Nat.zero_le _
    · have hsize := c.utf8Size_pos
      obtain ⟨front, back, rfl, hchars, hreaches, hfirst⟩ := ih (place - c.utf8Size)
      refine ⟨c :: front, back, rfl, ?_, ?_, ?_⟩
      · rw [charsBefore, if_neg hplace, hchars, List.length_cons]
      · rw [Text.byteLength_cons, Text.byteLength_cons]
        omega
      · intro between hle hlt
        rw [Text.byteLength_cons] at hle hlt
        rw [Text.dropBytes?, if_neg (by omega)]
        by_cases hinside : c.utf8Size ≤ between
        · rw [if_pos hinside]
          exact hfirst _ (by omega) (by omega)
        · rw [if_neg hinside]

/-- A place between two characters is found exactly. -/
theorem charsBefore_append (front back : Text) :
    charsBefore (front ++ back) front.byteLength = front.length := by
  induction front with
  | nil => cases back <;> rfl
  | cons c front ih =>
    have hsize := c.utf8Size_pos
    rw [List.cons_append, Text.byteLength_cons, charsBefore, if_neg (by omega),
      Nat.add_sub_cancel_left, ih, List.length_cons]

variable {source front back : Text} {place : Pos}

theorem offset_seek (hsource : source = front ++ back)
    (hchars : charsBefore source place.toNat = front.length) :
    (seek source place).offset = front.byteLength := by
  show 0 + Text.byteLength (source.take (charsBefore source place.toNat)) = _
  rw [hchars, hsource, List.take_left, Nat.zero_add]

theorem rest_seek (hsource : source = front ++ back)
    (hchars : charsBefore source place.toNat = front.length) : (seek source place).rest = back := by
  show source.drop (charsBefore source place.toNat) = _
  rw [hchars, hsource, List.drop_left]

end Cursor

/-! ### What a tokenizer reports -/

/-- A lexeme that a tokenizer gave, with the diagnostics that came with it. -/
structure Report where
  lexeme : Lexeme
  diagnostics : List Diagnostic
  deriving DecidableEq

def Report.shift (bytes : Nat) (report : Report) : Report :=
  ⟨report.lexeme.shift bytes, report.diagnostics.map (Diagnostic.shift bytes)⟩

structure Report.IsShifted (bytes : Nat) (report shifted : Report) : Prop where
  lexeme : report.lexeme.IsShifted bytes shifted.lexeme
  diagnostics : List.Forall₂ (Diagnostic.IsShifted bytes) report.diagnostics shifted.diagnostics

namespace Reading

def report (reading : Reading) : Report := ⟨reading.lexeme, reading.diagnostic?.toList⟩

def reports (lineComments : Bool) (offset : Nat) (text : Text) : List Report :=
  (all lineComments offset text).map report ++ [⟨Lexeme.atEnd (offset + text.byteLength), []⟩]

variable (lineComments : Bool)

theorem reports_nil (offset : Nat) :
    reports lineComments offset [] = [⟨Lexeme.atEnd offset, []⟩] := by
  rw [reports, all]
  rfl

theorem reports_cons (offset : Nat) (c : Char) (cs : Text) :
    reports lineComments offset (c :: cs) =
      (first lineComments offset c cs).report ::
        reports lineComments
          (offset + Text.byteLength (first lineComments offset c cs).lexeme.raw)
          ((c :: cs).drop (Token.scan lineComments c cs).length) := by
  rw [reports, all_cons, reports, ← byteLength_first lineComments offset, ← Nat.add_assoc]
  rfl

theorem report_shift (bytes : Nat) (reading : Reading) :
    (reading.shift bytes).report = reading.report.shift bytes := by
  rw [report, diagnostic?_shift, report, Report.shift]
  cases reading.diagnostic? <;> rfl

/-- A text further back is reported alike, with shifted places. -/
theorem reports_add {offset bytes : Nat} {text : Text}
    (hfits : offset + bytes + text.byteLength ≤ maxInputLength) :
    reports lineComments (offset + bytes) text =
      (reports lineComments offset text).map (Report.shift bytes) := by
  have hend : Report.mk (Lexeme.atEnd (offset + bytes + text.byteLength)) [] =
      Report.shift bytes ⟨Lexeme.atEnd (offset + text.byteLength), []⟩ := by
    have hplace : (Pos.ofPlace (offset + text.byteLength)).shift bytes =
        .ofPlace (offset + bytes + text.byteLength) := by
      rw [Nat.add_right_comm]
      exact Pos.ofPlace_shift (by omega)
    simp only [Report.shift, Lexeme.shift, Lexeme.atEnd, Span.shift_point, hplace, List.map_nil]
  rw [reports, all_add lineComments hfits, List.map_map, reports, List.map_append, List.map_map,
    hend]
  congr 2
  funext reading
  exact report_shift bytes reading

/-- What is reported of a text stands in the text, and so do the diagnostics that come with it. -/
theorem span_of_mem_reports {text : Text} (hfits : text.byteLength ≤ maxInputLength)
    {report : Report} (h : report ∈ reports lineComments 0 text) :
    report.lexeme.span.start ≤ report.lexeme.span.stop ∧
      report.lexeme.span.stop.toNat ≤ text.byteLength ∧
      ∀ diagnostic ∈ report.diagnostics, diagnostic.span = report.lexeme.span := by
  rw [reports, List.mem_append, List.mem_singleton, Nat.zero_add] at h
  obtain hmem | rfl := h
  · obtain ⟨reading, hreading, rfl⟩ := List.mem_map.1 hmem
    obtain ⟨-, hlt, hstop⟩ := span_of_mem_all (by rwa [Nat.zero_add]) hreading
    refine ⟨UInt32.le_of_lt hlt, by rwa [Nat.zero_add] at hstop, fun diagnostic hdiagnostic => ?_⟩
    obtain ⟨problem, -, rfl⟩ := Option.map_eq_some_iff.1 (Option.mem_toList.1 hdiagnostic)
    rfl
  · exact ⟨UInt32.le_refl _, Nat.le_of_eq (Pos.toNat_ofPlace hfits), List.forall_mem_nil _⟩

/-- Behind other text whose places fit too, a text is reported alike, each place further on. -/
theorem isShifted_reports {text : Text} {bytes : Nat}
    (hfits : bytes + text.byteLength ≤ maxInputLength) :
    List.Forall₂ (Report.IsShifted bytes) (reports lineComments 0 text)
      (reports lineComments bytes text) := by
  have hadd := @reports_add lineComments 0 bytes text
  rw [Nat.zero_add] at hadd
  rw [hadd hfits, List.forall₂_map_right_iff, List.forall₂_same]
  intro report hmem
  obtain ⟨hordered, hstop, hdiagnostics⟩ := span_of_mem_reports lineComments (by omega) hmem
  have hspan := @Span.isShifted_shift bytes _ hordered (by omega)
  refine ⟨⟨rfl, rfl, hspan⟩, ?_⟩
  rw [Report.shift, List.forall₂_map_right_iff, List.forall₂_same]
  intro diagnostic hdiagnostic
  refine ⟨rfl, ?_⟩
  show diagnostic.span.IsShifted bytes (diagnostic.span.shift bytes)
  rw [hdiagnostics diagnostic hdiagnostic]
  exact hspan

/-- What is reported from some lexeme on is what the text from there on is reported to hold. -/
theorem exists_of_reports_eq_append {offset : Nat} {text : Text} {report : Report}
    {after before : List Report}
    (h : reports lineComments offset text = before ++ report :: after) :
    ∃ front back, text = front ++ back ∧
      report.lexeme.span.start = .ofPlace (offset + front.byteLength) ∧
      report :: after = reports lineComments (offset + front.byteLength) back := by
  fun_induction all lineComments offset text generalizing before with
  | case1 offset =>
    rw [reports_nil] at h
    cases before with
    | nil =>
      obtain ⟨rfl, rfl⟩ := List.cons.inj h
      exact ⟨[], [], rfl, rfl, (reports_nil lineComments offset).symm⟩
    | cons first before => simp at h
  | @case2 offset c cs reading ih =>
    cases before with
    | nil =>
      refine ⟨[], c :: cs, rfl, ?_, h.symm⟩
      rw [reports_cons] at h
      obtain ⟨rfl, -⟩ := List.cons.inj h
      rfl
    | cons first before =>
      rw [reports_cons] at h
      obtain ⟨front, back, hrest, hstart, hafter⟩ := ih (List.cons.inj h).2
      have hstop : offset + Text.byteLength reading.lexeme.raw + front.byteLength =
          offset + Text.byteLength (reading.lexeme.raw ++ front) := by
        rw [Text.byteLength_append, ← Nat.add_assoc]
      refine ⟨reading.lexeme.raw ++ front, back, ?_, hstop ▸ hstart, hstop ▸ hafter⟩
      rw [List.append_assoc, ← hrest]
      exact (List.take_append_drop ..).symm

end Reading

namespace Tokenizer

/-- Asked one lexeme after the other, a tokenizer gives some lexemes, each with the diagnostics that
it raises, and then nothing. -/
inductive Reports : Tokenizer → List Report → Prop
  | nil {tokenizer : Tokenizer} : tokenizer.next? = (none, tokenizer) → Reports tokenizer []
  | cons {tokenizer after : Tokenizer} {report : Report} {reports : List Report} :
    tokenizer.next? = (some report.lexeme, after) →
      after.diagnostics = tokenizer.diagnostics ++ report.diagnostics →
        Reports after reports → Reports tokenizer (report :: reports)

/-- A tokenizer reports only one thing. -/
theorem Reports.unique {tokenizer : Tokenizer} {reports reports' : List Report}
    (h : Reports tokenizer reports) (h' : Reports tokenizer reports') : reports = reports' := by
  induction h generalizing reports' with
  | nil hnext =>
    cases h' with
    | nil => rfl
    | cons hnext' => simp [hnext] at hnext'
  | @cons tokenizer after report reports hnext hdiagnostics _ ih =>
    cases h' with
    | nil hnext' => simp [hnext] at hnext'
    | @cons _ after' report' reports' hnext' hdiagnostics' hafter' =>
      rw [hnext, Prod.mk.injEq, Option.some.injEq] at hnext'
      obtain ⟨hlexeme, rfl⟩ := hnext'
      rw [hdiagnostics] at hdiagnostics'
      have hreport : report = report' := by
        rcases report with ⟨lexeme, diagnostics⟩
        rcases report' with ⟨lexeme', diagnostics'⟩
        rw [Report.mk.injEq]
        exact ⟨hlexeme, List.append_cancel_left hdiagnostics'⟩
      rw [hreport, ih hafter']

theorem diagnostics_next?_of_cons {tokenizer : Tokenizer} (hgoes : tokenizer.finished = false)
    {c : Char} {cs : Text} (hrest : tokenizer.cursor.rest = c :: cs) :
    tokenizer.next?.2.diagnostics = tokenizer.diagnostics ++
      (Reading.first tokenizer.lineComments tokenizer.cursor.offset c cs).diagnostic?.toList := by
  rw [next?, if_neg (by simp [hgoes]), read, hrest]

/-- A tokenizer that has not come to its end reports the text ahead. -/
theorem reports_ahead {tokenizer : Tokenizer} (hgoes : tokenizer.finished = false) :
    Reports tokenizer
      (Reading.reports tokenizer.lineComments tokenizer.cursor.offset tokenizer.cursor.rest) := by
  generalize hremaining : tokenizer.cursor.rest.length = remaining
  induction remaining using Nat.strongRecOn generalizing tokenizer with
  | ind remaining ih =>
    cases hrest : tokenizer.cursor.rest with
    | nil =>
      rw [Reading.reports_nil]
      apply Reports.cons (next?_of_nil hgoes hrest)
      · exact (List.append_nil _).symm
      · apply Reports.nil
        rw [next?, if_pos rfl]
    | cons c cs =>
      obtain ⟨after, hnext, hafter, hcomments, hposition, hbehind⟩ := next?_of_cons hgoes hrest
      have hshorter : after.cursor.rest.length < remaining := by
        have := (Token.scan_length tokenizer.lineComments c cs).1
        rw [hbehind, ← hremaining, hrest, List.length_drop, List.length_cons]
        omega
      have hraised := diagnostics_next?_of_cons hgoes hrest
      have htail := ih _ hshorter hafter rfl
      rw [hnext] at hraised
      rw [hcomments, hposition, hbehind] at htail
      rw [Reading.reports_cons]
      exact Reports.cons hnext hraised htail

/-- Reported one at a time or all at once, the lexemes and their diagnostics are the same. -/
theorem Reports.rest_eq {tokenizer : Tokenizer} {reports : List Report}
    (h : Reports tokenizer reports) :
    tokenizer.rest.1 = reports.map (·.lexeme) ∧
      tokenizer.rest.2.diagnostics = tokenizer.diagnostics ++ reports.flatMap (·.diagnostics) := by
  cases hfinished : tokenizer.finished with
  | true =>
    have hnone : Reports tokenizer [] := .nil (by rw [next?, if_pos hfinished])
    rw [h.unique hnone, rest, if_pos hfinished]
    exact ⟨rfl, (List.append_nil _).symm⟩
  | false =>
    have hdiagnostics : ∀ readings : List Reading,
        readings.filterMap Reading.diagnostic? =
          (readings.map Reading.report).flatMap (·.diagnostics) := by
      intro readings
      induction readings with
      | nil => rfl
      | cons reading readings ih =>
        rw [List.filterMap_cons, List.map_cons, List.flatMap_cons, Reading.report, ← ih]
        cases reading.diagnostic? <;> rfl
    rw [h.unique (reports_ahead hfinished), rest, if_neg (by simp [hfinished])]
    constructor
    · rw [Reading.reports, List.map_append, List.map_map]
      simp only [Cursor.advanceBy, List.take_length]
      rfl
    · rw [Reading.reports, List.flatMap_append, ← hdiagnostics]
      simp

/-! ### Uses -/

inductive Use where
  | read
  | next
  | rest
  | takeDiagnostics
  | reset (place : Pos)

def Use.after (tokenizer : Tokenizer) : Use → Tokenizer
  | read => tokenizer.read.2
  | next => tokenizer.next?.2
  | rest => tokenizer.rest.2
  | takeDiagnostics => tokenizer.takeDiagnostics.2
  | reset place => tokenizer.reset place

variable (tokenizer : Tokenizer)

theorem keeps_read : tokenizer.read.2.cursor.source = tokenizer.cursor.source ∧
    tokenizer.read.2.lineComments = tokenizer.lineComments := by
  unfold read
  split <;> exact ⟨rfl, rfl⟩

/-- No use changes the text or the setting for comments. -/
theorem keeps_after (use : Use) :
    (use.after tokenizer).cursor.source = tokenizer.cursor.source ∧
      (use.after tokenizer).lineComments = tokenizer.lineComments := by
  cases use with
  | read => exact tokenizer.keeps_read
  | next =>
    rw [Use.after, next?]
    split
    · exact ⟨rfl, rfl⟩
    · exact tokenizer.keeps_read
  | rest =>
    rw [Use.after, rest]
    split <;> exact ⟨rfl, rfl⟩
  | takeDiagnostics => exact ⟨rfl, rfl⟩
  | reset place => exact ⟨rfl, rfl⟩

theorem keeps_foldl (uses : List Use) :
    (uses.foldl Use.after tokenizer).cursor.source = tokenizer.cursor.source ∧
      (uses.foldl Use.after tokenizer).lineComments = tokenizer.lineComments := by
  induction uses generalizing tokenizer with
  | nil => exact ⟨rfl, rfl⟩
  | cons use uses ih =>
    obtain ⟨hsource, hcomments⟩ := tokenizer.keeps_after use
    obtain ⟨hsource', hcomments'⟩ := ih (use.after tokenizer)
    exact ⟨hsource'.trans hsource, hcomments'.trans hcomments⟩

/-! ### Setting a tokenizer back -/

/-- Set back to where some text is ahead, a tokenizer reports that text, with shifted places. -/
theorem reports_reset_of_charsBefore {tokenizer : Tokenizer} {front back : Text} {place : Pos}
    (hsource : tokenizer.cursor.source = front ++ back)
    (hchars : Cursor.charsBefore tokenizer.cursor.source place.toNat = front.length) :
    Reports (tokenizer.reset place)
      (Reading.reports tokenizer.lineComments front.byteLength back) := by
  have hgoes : (tokenizer.reset place).finished = false := rfl
  have hreports := reports_ahead hgoes
  have hposition : (tokenizer.reset place).cursor.offset = front.byteLength :=
    Cursor.offset_seek hsource hchars
  have hrest : (tokenizer.reset place).cursor.rest = back := Cursor.rest_seek hsource hchars
  rwa [hposition, hrest] at hreports

/-- However a tokenizer was used before, after it is set back it reports the text from the first
boundary at or behind the place sought, as a tokenizer of that text alone does, with all places
further on by what is in front. From the start of a lexeme on it reports what came from there on. -/
theorem reports_reset (lineComments : Bool) {text : Text}
    (hfits : text.byteLength ≤ maxInputLength) (uses : List Use) (place : Pos) :
    (∃ base suffix, text.dropBytes? base = some suffix ∧ min place.toNat text.byteLength ≤ base ∧
      (∀ between, min place.toNat text.byteLength ≤ between → between < base →
        text.dropBytes? between = none) ∧
      ∃ reports shifted, Reports (ofText lineComments suffix) reports ∧
        Reports ((uses.foldl Use.after (ofText lineComments text)).reset place) shifted ∧
        List.Forall₂ (Report.IsShifted base) reports shifted) ∧
    ∀ before report after, Reports (ofText lineComments text) (before ++ report :: after) →
      report.lexeme.span.start = place →
        Reports ((uses.foldl Use.after (ofText lineComments text)).reset place)
          (report :: after) := by
  obtain ⟨hsource, hcomments⟩ := keeps_foldl (ofText lineComments text) uses
  generalize uses.foldl Use.after (ofText lineComments text) = tokenizer at hsource hcomments ⊢
  have hsource : tokenizer.cursor.source = text := hsource
  have hcomments : tokenizer.lineComments = lineComments := hcomments
  constructor
  · obtain ⟨front, back, htext, hchars, hreaches, hfirst⟩ :=
      Cursor.exists_charsBefore text place.toNat
    have hlength : front.byteLength + back.byteLength ≤ maxInputLength := by
      rwa [← Text.byteLength_append, ← htext]
    refine ⟨front.byteLength, back, ?_, hreaches, hfirst, Reading.reports lineComments 0 back,
      Reading.reports lineComments front.byteLength back, reports_ahead rfl, ?_,
      Reading.isShifted_reports lineComments hlength⟩
    · rw [htext]
      exact Text.dropBytes?_append front back
    · rw [← hcomments]
      apply reports_reset_of_charsBefore
      · rw [hsource, htext]
      · rw [hsource, hchars]
  · intro before report after hfull hstart
    have hreports : Reading.reports lineComments 0 text = before ++ report :: after :=
      Reports.unique (reports_ahead rfl) hfull
    obtain ⟨front, back, htext, hplace, hafter⟩ :=
      Reading.exists_of_reports_eq_append lineComments hreports
    rw [Nat.zero_add] at hplace hafter
    have hlength : front.byteLength ≤ maxInputLength := by
      rw [htext, Text.byteLength_append] at hfits
      omega
    rw [hafter, ← hcomments]
    apply reports_reset_of_charsBefore
    · rw [hsource, htext]
    · rw [hsource, ← hstart, hplace, Pos.toNat_ofPlace hlength, htext]
      exact Cursor.charsBefore_append front back

/-- Set back to the start of a comment without its end, a tokenizer that has already come to the end
of the text reports the comment once more. -/
theorem reports_reset_comment :
    Reports (([.rest, .next].foldl Use.after (ofText true "a/*".toList)).reset 1)
      [⟨⟨.comment [], ⟨1, 3⟩, "/*".toList⟩, [⟨⟨1, 3⟩, .lex .unterminatedComment⟩]⟩,
        ⟨Lexeme.atEnd 3, []⟩] := by
  have hfull := @reports_ahead (ofText true "a/*".toList) rfl
  have hreports : Reading.reports true 0 "a/*".toList =
      [⟨⟨.ident "a".toList, ⟨0, 1⟩, "a".toList⟩, []⟩] ++
        ⟨⟨.comment [], ⟨1, 3⟩, "/*".toList⟩, [⟨⟨1, 3⟩, .lex .unterminatedComment⟩]⟩ ::
          [⟨Lexeme.atEnd 3, []⟩] := by decide +kernel
  apply (@reports_reset true "a/*".toList (by decide) [.rest, .next] 1).2
    [⟨⟨.ident "a".toList, ⟨0, 1⟩, "a".toList⟩, []⟩]
  · rw [← hreports]
    exact hfull
  · rfl

/-- The end of a text is reported too, so it stands further on only where words keep that place. -/
theorem Reports.byteLength_add_le {lineComments : Bool} {text : Text} {bytes : Nat}
    {reports shifted : List Report} (h : Reports (ofText lineComments text) reports)
    (hfits : text.byteLength ≤ maxInputLength)
    (hshifted : List.Forall₂ (Report.IsShifted bytes) reports shifted) :
    text.byteLength + bytes ≤ maxInputLength := by
  have hreports : reports = Reading.reports lineComments 0 text := h.unique (reports_ahead rfl)
  have hend : ⟨Lexeme.atEnd (0 + text.byteLength), []⟩ ∈ reports := by
    rw [hreports]
    exact List.mem_append_right _ (List.mem_singleton_self _)
  have hstop := forall_mem_of_forall₂ hshifted (fun _ _ h => h.lexeme.span.stop_le) _ hend
  rwa [Nat.zero_add, Lexeme.atEnd, Span.point, Pos.toNat_ofPlace hfits] at hstop

/-- Where the stray bytes of a third of the greatest length become a text, what stands behind the
first of them is as long as words count, so it is not reported three bytes further on. -/
theorem not_reports_reset :
    (Utf8.stray [] 1431655766 []).length ≤ maxInputLength ∧
      ∃ text suffix, Utf8.decodeLossy (Utf8.stray [] 1431655766 []) = text ∧
        text.dropBytes? 3 = some suffix ∧
        ∀ reports shifted, Reports (ofText true suffix) reports →
          Reports ((ofText true text).reset 3) shifted →
            ¬List.Forall₂ (Report.IsShifted 3) reports shifted := by
  rw [Utf8.length_stray, Utf8.decodeLossy_stray, List.nil_append, List.append_nil]
  refine ⟨by decide, _, List.replicate 1431655765 '\ufffd', rfl,
    Text.dropBytes?_append ['\ufffd'] _, fun reports shifted hreports _ hshifted => ?_⟩
  have hlength := Text.byteLength_replacements 1431655765
  have hlong := hreports.byteLength_add_le (hlength ▸ by decide) hshifted
  rw [hlength] at hlong
  exact absurd hlong (by decide)

end Tokenizer

end Css
