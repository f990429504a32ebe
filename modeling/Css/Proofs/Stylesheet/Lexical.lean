import Css.Proofs.Stylesheet.Append
import Css.Proofs.Stylesheet.Limit
import Css.Proofs.Token.OpenString
import Css.Proofs.Token.Restart

/-!
# Faults of the text in the diagnostics

The parser adds no fault of the text itself (`State.lexical_step`): it hands on those of the tokens
it looks at. So a source that is read to its end reports exactly the faults that its tokens have, in
the order of the source (`Stylesheet.filter_isLex_diagnostics`), and one whose nesting is too deep
does not report a string that never ends, which would be behind the bracket where reading ended.
-/

namespace Css

def Problem.isLex : Problem → Bool
  | lex _ => true
  | _ => false

theorem Reading.diagnostic?_eq_some {reading : Reading} {diagnostic : Diagnostic} :
    reading.diagnostic? = some diagnostic ↔
      reading.problem = some diagnostic.problem ∧ reading.lexeme.span = diagnostic.span := by
  obtain ⟨span, problem⟩ := diagnostic
  simp only [diagnostic?, Option.map_eq_some_iff, Diagnostic.mk.injEq]
  constructor
  · rintro ⟨problem, hproblem, hspan, rfl⟩
    exact ⟨hproblem, hspan⟩
  · rintro ⟨hproblem, hspan⟩
    exact ⟨problem, hproblem, hspan, rfl⟩

/-- What is wrong with the tokens of a text is noted in the order of the text. -/
theorem Reading.pairwise_diagnostics (lineComments : Bool) {offset : Nat} {text : Text}
    (hfits : offset + text.byteLength ≤ maxInputLength) :
    ((all lineComments offset text).filterMap diagnostic?).Pairwise fun left right =>
      left.span.start ≤ right.span.start := by
  refine List.Pairwise.filterMap _ ?_ (List.Pairwise.and_mem.1 (pairwise_all hfits))
  rintro left right ⟨hleft, -, hle⟩ diagnostic hdiagnostic diagnostic' hdiagnostic'
  rw [← (diagnostic?_eq_some.1 hdiagnostic).2, ← (diagnostic?_eq_some.1 hdiagnostic').2]
  exact UInt32.le_trans (UInt32.le_of_lt (span_of_mem_all hfits hleft).2.1) hle

namespace Parser.State

def lexical (state : State) : List Diagnostic :=
  state.diagnostics.toList.filter (·.problem.isLex)

theorem Reports.lexical_eq {before after : State} (h : Reports before after) :
    after.lexical = before.lexical := by
  obtain ⟨more, hmore, hstructural⟩ := h
  have hnone : more.toList.filter (·.problem.isLex) = [] := by
    apply List.filter_eq_nil_iff.2
    intro diagnostic hmem hlex
    have hproblem := hstructural diagnostic (Array.mem_toList_iff.1 hmem)
    generalize diagnostic.problem = problem at hlex hproblem
    cases problem <;> contradiction
  rw [lexical, hmore, Array.toList_append, List.filter_append, hnone, List.append_nil, lexical]

theorem lexical_abort (state : State) (span : Span) :
    (state.abort span).lexical = state.lexical := by
  simp [lexical, abort, report, Problem.isLex]

theorem lexical_noting (state : State) (reading : Reading) :
    (state.noting reading).lexical =
      state.lexical ++ reading.diagnostic?.toList.filter (·.problem.isLex) := by
  simp [lexical, noting]

/-- The faults of the text that a step notes are those of its token. -/
theorem lexical_step {state : State} (hgoes : state.aborted = false) (reading : Reading) :
    (state.step reading).lexical =
      state.lexical ++ reading.diagnostic?.toList.filter (·.problem.isLex) := by
  rw [← lexical_noting]
  obtain ⟨hstep, -⟩ | ⟨middle, span, hmiddle, hstep, -⟩ := Reports.step hgoes reading
  · exact hstep.lexical_eq
  · rw [hstep.lexical_eq, lexical_abort, hmiddle.lexical_eq]

/-- Where reading goes on to the end, every fault of the text is noted. -/
theorem lexical_foldl {state : State} {readings : List Reading}
    (hgoes : (readings.foldl step state).aborted = false) :
    (readings.foldl step state).lexical =
      state.lexical ++ (readings.filterMap (·.diagnostic?)).filter (·.problem.isLex) := by
  induction readings generalizing state with
  | nil => simp
  | cons reading readings ih =>
    have hstate : state.aborted = false :=
      aborted_eq_false_of_step (aborted_eq_false_of_foldl hgoes)
    rw [List.foldl_cons, ih hgoes, lexical_step hstate, List.append_assoc, ← List.filter_append]
    cases hdiagnostic : reading.diagnostic? <;> simp [hdiagnostic]

/-- What is noted is a fault of some token, also where reading ends early. -/
theorem exists_of_mem_lexical_foldl {state : State} {readings : List Reading}
    {diagnostic : Diagnostic} (hmem : diagnostic ∈ (readings.foldl step state).lexical) :
    diagnostic ∈ state.lexical ∨
      ∃ reading ∈ readings, reading.diagnostic? = some diagnostic := by
  induction readings generalizing state with
  | nil => exact .inl hmem
  | cons reading readings ih =>
    obtain hstep | ⟨other, hother, hfault⟩ := ih hmem
    · cases hgoes : state.aborted with
      | true =>
        rw [step_of_aborted reading hgoes] at hstep
        exact .inl hstep
      | false =>
        rw [lexical_step hgoes, List.mem_append] at hstep
        obtain hstate | hreading := hstep
        · exact .inl hstate
        · exact .inr ⟨reading, List.mem_cons_self ..,
            Option.mem_toList.1 (List.mem_filter.1 hreading).1⟩
    · exact .inr ⟨other, .tail _ hother, hfault⟩

/-- Only a token that opens a bracket ends reading. -/
theorem aborted_step_of_opens? {state : State} {reading : Reading}
    (hopens : reading.lexeme.token.opens? = none) (hgoes : state.aborted = false) :
    (state.step reading).aborted = false := by
  have hnoting : (state.noting reading).aborted = false := hgoes
  have hcollect : ∀ purpose segment,
      ((state.noting reading).collect purpose segment reading.lexeme).aborted = false :=
    fun purpose segment => aborted_collect hnoting (by simp [hopens])
  have hstep := stepsTo reading hgoes
  generalize state.step reading = after at *
  cases hstep with
  | idle => exact hnoting
  | closeCurly => exact (aborted_closeCurly ..).trans hnoting
  | atRule => exact hnoting
  | start => exact hcollect ..
  | collect => exact hcollect ..
  | endBlock => rw [aborted_closeCurly, aborted_endSegment, hnoting]

theorem aborted_foldl_of_opens? {state : State} {readings : List Reading}
    (hgoes : state.aborted = false)
    (hopens : ∀ reading ∈ readings, reading.lexeme.token.opens? = none) :
    (readings.foldl step state).aborted = false := by
  induction readings generalizing state with
  | nil => exact hgoes
  | cons reading readings ih =>
    rw [List.forall_mem_cons] at hopens
    exact ih (aborted_step_of_opens? hopens.1 hgoes) hopens.2

end Parser.State

namespace Stylesheet

open Css.Parser (State)

variable {options : ParseOptions} {text : Text}

theorem lexical_initial (limit : Nat) : (State.initial limit).lexical = [] := rfl

/-- The faults of the text among the diagnostics of a style sheet. -/
theorem mem_diagnostics_lex {diagnostic : Diagnostic} (hlex : diagnostic.problem.isLex = true) :
    diagnostic ∈ (parse options text).diagnostics ↔
      diagnostic ∈ (stateBehind options text).lexical := by
  rw [← (State.Reports.finish (stateBehind options text) (.ofPlace text.byteLength)).lexical_eq,
    parse_eq, Diagnostic.mem_sort, State.lexical, List.mem_filter]
  simp [hlex]

/-- Nesting that is too deep is among the diagnostics of a style sheet if it ended reading. -/
theorem exists_isDepthExceeded_iff :
    (∃ diagnostic ∈ (parse options text).diagnostics,
      diagnostic.problem.isDepthExceeded = true) ↔
        (stateBehind options text).aborted = true := by
  have hcount := countP_isDepthExceeded options text
  rw [← List.countP_pos_iff, hcount]
  cases (stateBehind options text).aborted <;> simp

theorem forall_isDepthExceeded_iff :
    (∀ diagnostic ∈ (parse options text).diagnostics,
      diagnostic.problem.isDepthExceeded = false) ↔
        (stateBehind options text).aborted = false := by
  simp only [← Bool.not_eq_true, ← exists_isDepthExceeded_iff, not_exists, not_and]

/-- A source that is read to its end reports the strings that never end. -/
theorem mem_diagnostics_openString (hgoes : (stateBehind options text).aborted = false)
    {span : Span} :
    ⟨span, .lex .unterminatedString⟩ ∈ (parse options text).diagnostics ↔
      ∃ reading ∈ Reading.all options.lineComments 0 text,
        reading.IsOpenString ∧ reading.lexeme.span = span := by
  rw [mem_diagnostics_lex rfl, stateBehind, State.lexical_foldl hgoes, lexical_initial,
    List.nil_append, List.mem_filter, List.mem_filterMap]
  constructor
  · rintro ⟨⟨reading, hmem, hdiagnostic⟩, -⟩
    exact ⟨reading, hmem, Reading.diagnostic?_eq_some.1 hdiagnostic⟩
  · rintro ⟨reading, hmem, hfault⟩
    exact ⟨⟨reading, hmem, Reading.diagnostic?_eq_some.2 hfault⟩, rfl⟩

/-- Where the nesting is too deep, no string is reported that never ends. -/
theorem not_mem_diagnostics_openString (haborted : (stateBehind options text).aborted = true)
    (span : Span) : ⟨span, .lex .unterminatedString⟩ ∉ (parse options text).diagnostics := by
  rw [mem_diagnostics_lex rfl, stateBehind]
  intro hmem
  obtain hnil | ⟨reading, hreading, hfault⟩ := State.exists_of_mem_lexical_foldl hmem
  · contradiction
  have hopen : reading.IsOpenString := (Reading.diagnostic?_eq_some.1 hfault).1
  obtain ⟨front, hfront, hothers⟩ := Reading.exists_front_of_isOpenString hreading hopen
  rw [stateBehind, hfront, List.foldl_append, List.foldl_cons, List.foldl_nil] at haborted
  rw [hfront, List.foldl_append, List.foldl_cons, List.foldl_nil] at hmem
  cases hended : (front.foldl State.step (.initial options.maxDepth)).aborted with
  | true =>
    -- reading had ended before the string, which is the last token
    rw [State.step_of_aborted _ hended] at hmem
    obtain hnil | ⟨other, hother, hfault⟩ := State.exists_of_mem_lexical_foldl hmem
    · contradiction
    · exact hothers other hother (Reading.diagnostic?_eq_some.1 hfault).1
  | false =>
    obtain ⟨content, quote, htoken⟩ := hopen.exists_string (Reading.reads_of_mem_all hreading)
    rw [State.aborted_step_of_opens? (by rw [htoken]; rfl) hended] at haborted
    contradiction

/-- The faults of the text among the diagnostics of a source that is read to its end. -/
theorem lexical_finish (hgoes : (stateBehind options text).aborted = false) :
    ((stateBehind options text).finish (.ofPlace text.byteLength)).diagnostics.toList.filter
        (·.problem.isLex) =
      ((Reading.all options.lineComments 0 text).filterMap (·.diagnostic?)).filter
        (·.problem.isLex) := by
  have hfinish :=
    (State.Reports.finish (stateBehind options text) (.ofPlace text.byteLength)).lexical_eq
  rw [stateBehind, State.lexical_foldl hgoes, lexical_initial, List.nil_append] at hfinish
  exact hfinish

theorem filter_isLex_parse_perm (hgoes : (stateBehind options text).aborted = false) :
    ((parse options text).diagnostics.filter (·.problem.isLex)).Perm
      (((Reading.all options.lineComments 0 text).filterMap (·.diagnostic?)).filter
        (·.problem.isLex)) := by
  rw [← lexical_finish hgoes, parse_eq]
  exact (List.mergeSort_perm ..).filter _

/-- Where words count the places, they are in the order of the text. -/
theorem filter_isLex_parse (hfits : text.byteLength ≤ maxInputLength)
    (hgoes : (stateBehind options text).aborted = false) :
    (parse options text).diagnostics.filter (·.problem.isLex) =
      ((Reading.all options.lineComments 0 text).filterMap (·.diagnostic?)).filter
        (·.problem.isLex) := by
  rw [parse_eq, Diagnostic.filter_sort, lexical_finish hgoes]
  rw [lexical_finish hgoes]
  exact (Reading.pairwise_diagnostics _ (by rwa [Nat.zero_add])).filter _

/-- What a tokenizer that is asked for one token after the other raises of a text. -/
theorem flatMap_diagnostics_of_reports {lineComments : Bool} {reports : List Report}
    (h : Tokenizer.Reports (.ofText lineComments text) reports) :
    reports.flatMap (·.diagnostics) =
      (Reading.all lineComments 0 text).filterMap (·.diagnostic?) := by
  rw [← List.nil_append (List.flatMap _ _)]
  exact h.rest_eq.2.symm

/-- A source whose nesting is not too deep reports the faults of its text as a tokenizer does that
is asked for one token after the other: none is lost or reported twice, and none is out of order as
long as words count the places. -/
theorem filter_isLex_diagnostics
    (h : ∀ diagnostic ∈ (parse options text).diagnostics,
      diagnostic.problem.isDepthExceeded = false) :
    ∃ reports, Tokenizer.Reports (.ofText options.lineComments text) reports ∧
      ((parse options text).diagnostics.filter (·.problem.isLex)).Perm
        ((reports.flatMap (·.diagnostics)).filter (·.problem.isLex)) ∧
      (text.byteLength ≤ maxInputLength →
        (parse options text).diagnostics.filter (·.problem.isLex) =
          (reports.flatMap (·.diagnostics)).filter (·.problem.isLex)) := by
  have hgoes := forall_isDepthExceeded_iff.1 h
  have hreports := @Tokenizer.reports_ahead (.ofText options.lineComments text) rfl
  refine ⟨_, hreports, ?_⟩
  rw [flatMap_diagnostics_of_reports hreports]
  exact ⟨filter_isLex_parse_perm hgoes, fun hfits => filter_isLex_parse hfits hgoes⟩

/-- Faults in the prelude of an at-rule, in a declaration that is dropped and behind the last rule
are all reported. -/
theorem filter_isLex_diagnostics_dropped :
    ((parse {} "@a \"\n;b\x7bc:url(d e)\x7d\\".toList).diagnostics.filter
        (·.problem.isLex)).map (·.problem) =
      [.lex .badString, .lex .badUrl, .lex .badEscape] ∧
    ∃ reports, Tokenizer.Reports (.ofText true "@a \"\n;b\x7bc:url(d e)\x7d\\".toList) reports ∧
      (parse {} "@a \"\n;b\x7bc:url(d e)\x7d\\".toList).diagnostics.filter (·.problem.isLex) =
        (reports.flatMap (·.diagnostics)).filter (·.problem.isLex) := by
  have hfits : Text.byteLength "@a \"\n;b\x7bc:url(d e)\x7d\\".toList ≤ maxInputLength := by
    decide +kernel
  have hgoes : (stateBehind {} "@a \"\n;b\x7bc:url(d e)\x7d\\".toList).aborted = false := by
    decide +kernel
  obtain ⟨reports, hreports, -, hordered⟩ :=
    filter_isLex_diagnostics (forall_isDepthExceeded_iff.2 hgoes)
  refine ⟨?_, reports, hreports, hordered hfits⟩
  rw [filter_isLex_parse hfits hgoes]
  decide +kernel

/-! ### Faults past the places of words -/

/-- A backslash in front of a line feed is a fault. -/
theorem all_badEscape (offset : Nat) {rest : Text} (hrest : blanksLength rest = 0) :
    Reading.all true offset ('\\' :: '\n' :: rest) =
      ⟨⟨.delim '\\', ⟨.ofPlace offset, .ofPlace (offset + 1)⟩, ['\\']⟩, some (.lex .badEscape)⟩ ::
        ⟨⟨.whitespace, ⟨.ofPlace (offset + 1), .ofPlace (offset + 1 + 1)⟩, ['\n']⟩, none⟩ ::
          Reading.all true (offset + 1 + 1) rest := by
  have hblank : Token.scan true '\n' rest = ⟨.whitespace, 1, none⟩ := by
    rw [Token.scan_of_isBlank _ (by decide), hrest]
  rw [Reading.all_cons]
  refine congr (congrArg _ rfl) ?_
  show Reading.all true (offset + 1) ('\n' :: rest) = _
  rw [Reading.all_cons, Reading.first, hblank]
  rfl

/-- Two such faults, in front of a run of U+FFFD and behind it. -/
theorem all_escapes (n : Nat) :
    Reading.all true 0 ("  \\\n".toList ++ (List.replicate (n + 1) '\ufffd' ++ "\\\n".toList)) =
      [⟨⟨.whitespace, ⟨0, 2⟩, "  ".toList⟩, none⟩,
        ⟨⟨.delim '\\', ⟨2, 3⟩, ['\\']⟩, some (.lex .badEscape)⟩,
        ⟨⟨.whitespace, ⟨3, 4⟩, ['\n']⟩, none⟩,
        ⟨⟨.ident (List.replicate (n + 1) '\ufffd'), ⟨4, .ofPlace (4 + 3 * (n + 1))⟩,
          List.replicate (n + 1) '\ufffd'⟩, none⟩,
        ⟨⟨.delim '\\', ⟨.ofPlace (4 + 3 * (n + 1)), .ofPlace (4 + 3 * (n + 1) + 1)⟩, ['\\']⟩,
          some (.lex .badEscape)⟩,
        ⟨⟨.whitespace, ⟨.ofPlace (4 + 3 * (n + 1) + 1), .ofPlace (4 + 3 * (n + 1) + 1 + 1)⟩,
          ['\n']⟩, none⟩] := by
  have hrun := Reading.all_replacements true 4 (Nat.succ_pos n)
    (⟨by decide, by decide, by decide⟩ : EndsName "\\\n".toList)
  have hback := all_badEscape (4 + 3 * (n + 1)) (show blanksLength [] = 0 from rfl)
  have hend : Reading.all true (4 + 3 * (n + 1) + 1 + 1) [] = [] := Reading.all.eq_1 ..
  have hnext : blanksLength (List.replicate (n + 1) '\ufffd' ++ "\\\n".toList) = 0 := by
    rw [List.replicate_succ]
    rfl
  show Reading.all true 0
    (' ' :: ' ' :: '\\' :: '\n' :: (List.replicate (n + 1) '\ufffd' ++ "\\\n".toList)) = _
  rw [Reading.all_cons]
  refine congr (congrArg _ rfl) ?_
  show Reading.all true 2
    ('\\' :: '\n' :: (List.replicate (n + 1) '\ufffd' ++ "\\\n".toList)) = _
  rw [all_badEscape 2 hnext, hrun]
  rw [hend] at hback
  exact congrArg _ (congrArg _ (congrArg _ hback))

/-- What is wrong behind a third of the greatest length in stray bytes is reported in front of what
is wrong before them, since words start again at zero there. -/
theorem not_filter_isLex_diagnostics :
    (Utf8.stray "  \\\n".toList 1431655764 "\\\n".toList).length ≤ maxInputLength ∧
      ∃ text, Utf8.decodeLossy (Utf8.stray "  \\\n".toList 1431655764 "\\\n".toList) = text ∧
        (∀ diagnostic ∈ (parse {} text).diagnostics,
          diagnostic.problem.isDepthExceeded = false) ∧
        ∀ reports, Tokenizer.Reports (.ofText true text) reports →
          (parse {} text).diagnostics.filter (·.problem.isLex) ≠
            (reports.flatMap (·.diagnostics)).filter (·.problem.isLex) := by
  have hall := all_escapes 1431655763
  rw [Utf8.length_stray, Utf8.decodeLossy_stray]
  refine ⟨by decide, _, rfl, forall_isDepthExceeded_iff.2 ?_, fun reports hreports h => ?_⟩
  · rw [stateBehind]
    refine State.aborted_foldl_of_opens? rfl fun reading hmem => ?_
    rw [hall] at hmem
    simp only [List.mem_cons, List.not_mem_nil, or_false] at hmem
    obtain rfl | rfl | rfl | rfl | rfl | rfl := hmem <;> rfl
  · have hordered : ((parse {} ("  \\\n".toList ++
        (List.replicate 1431655764 '\ufffd' ++ "\\\n".toList))).diagnostics.filter
          (·.problem.isLex)).Pairwise fun left right => left.span.start ≤ right.span.start :=
      (pairwise_diagnostics ..).filter _
    rw [h, flatMap_diagnostics_of_reports hreports, hall] at hordered
    exact absurd (List.rel_of_pairwise_cons hordered (List.mem_singleton_self _)) (by decide)

end Stylesheet

end Css
