import Css.Proofs.Stylesheet.Lexical
import Css.Proofs.Text.Utf8
import Css.Transform

/-!
# What a transformation comes to

Of bytes that are not too many, a transformation fails where the nesting is too deep or a string
never ends, and nowhere else (`Transform.outcome`). It carries the diagnostics of the style sheet,
and one more where the bytes are no UTF-8. More bytes than that are not read at all, and nothing is
said about them (`Transform.not_transform_fails_iff`).
-/

namespace Css.Transform

def carried : Except TransformError TransformOutput → List Diagnostic
  | .ok output => output.diagnostics
  | .error error => error.diagnostics

variable (options : TransformOptions) (bytes : List UInt8)

def parsed : ParseResult := Stylesheet.parse options.parsing (Utf8.decodeLossy bytes)

def NestsTooDeeply : Prop :=
  ∃ diagnostic ∈ (parsed options bytes).diagnostics, ∃ limit,
    diagnostic.problem = .depthExceeded limit

/-- Whether reading all tokens of some bytes reports a string that starts at a place and never
ends. -/
def LeavesStringOpen (start : Pos) : Prop :=
  let run := (Tokenizer.ofText options.parsing.lineComments (Utf8.decodeLossy bytes)).rest
  ∃ lexeme ∈ run.1, (∃ content quote, lexeme.token = .string content quote) ∧
    ⟨lexeme.span, .lex .unterminatedString⟩ ∈ run.2.diagnostics ∧ lexeme.span.start = start

/-- What a transformation comes to, told from the text of the bytes alone. -/
structure Outcome (result : Except TransformError TransformOutput) : Prop where
  tooDeep : (∃ limit noted, result = .error (.depthExceeded limit noted)) ↔
    NestsTooDeeply options bytes
  openString : ¬NestsTooDeeply options bytes → ∀ start,
    (∃ noted, result = .error (.unterminatedString start noted)) ↔
      LeavesStringOpen options bytes start
  succeeds : ¬NestsTooDeeply options bytes → (∀ start, ¬LeavesStringOpen options bytes start) →
    ∃ output, result = .ok output
  /-- The bytes of a text add no diagnostic. -/
  valid : (∃ text, bytes = Utf8.encode text) →
    carried result = (parsed options bytes).diagnostics
  /-- Other bytes add one, at the first place where no character stands. -/
  invalid : ∀ place, Utf8.StopsAt bytes place →
    ∃ span : Span, span.start.toNat = place ∧ span.stop.toNat = place + 1 ∧
      carried result = Diagnostic.sort
        (⟨span, .lex .invalidUtf8⟩ :: (parsed options bytes).diagnostics)
  ordered : (carried result).Pairwise fun left right => left.span.start ≤ right.span.start

variable {options bytes}

theorem nestsTooDeeply_iff :
    NestsTooDeeply options bytes ↔
      (Stylesheet.stateBehind options.parsing (Utf8.decodeLossy bytes)).aborted = true := by
  rw [← Stylesheet.exists_isDepthExceeded_iff, NestsTooDeeply, parsed]
  refine exists_congr fun diagnostic => and_congr_right fun _ => ?_
  generalize diagnostic.problem = problem
  cases problem <;> simp [Problem.isDepthExceeded]

theorem leavesStringOpen_iff {start : Pos} :
    LeavesStringOpen options bytes start ↔
      ∃ reading ∈ Reading.all options.parsing.lineComments 0 (Utf8.decodeLossy bytes),
        reading.IsOpenString ∧ reading.lexeme.span.start = start := by
  have hnoted :
      (Tokenizer.ofText options.parsing.lineComments (Utf8.decodeLossy bytes)).rest.2.diagnostics =
        (Reading.all options.parsing.lineComments 0 (Utf8.decodeLossy bytes)).filterMap
          Reading.diagnostic? := rfl
  constructor
  · rintro ⟨lexeme, -, -, hfault, hstart⟩
    rw [hnoted, List.mem_filterMap] at hfault
    obtain ⟨reading, hmem, hdiagnostic⟩ := hfault
    obtain ⟨hproblem, hspan⟩ := Reading.diagnostic?_eq_some.1 hdiagnostic
    exact ⟨reading, hmem, hproblem, by rw [hspan, hstart]⟩
  · rintro ⟨reading, hmem, hopen, hstart⟩
    refine ⟨reading.lexeme, List.mem_append_left _ (List.mem_map_of_mem hmem),
      hopen.exists_string (Reading.reads_of_mem_all hmem), ?_, hstart⟩
    rw [hnoted, List.mem_filterMap]
    exact ⟨reading, hmem, Reading.diagnostic?_eq_some.2 ⟨hopen, rfl⟩⟩

/-! ### Failures -/

/-- The diagnostics that decide on the failure. -/
theorem isFatal_iff {diagnostic : Diagnostic} :
    diagnostic.isFatal = true ↔ (∃ limit, diagnostic.problem = .depthExceeded limit) ∨
      diagnostic.problem = .lex .unterminatedString := by
  rw [Diagnostic.isFatal]
  generalize diagnostic.problem = problem
  cases problem with
  | lex error => cases error <;> simp [Problem.isFatal]
  | _ => simp [Problem.isFatal]

/-- A fatal diagnostic is one of the style sheet. -/
theorem mem_parsed_of_isFatal {diagnostic : Diagnostic} (hfatal : diagnostic.isFatal = true)
    (hmem : diagnostic ∈ Diagnostic.sort ((invalidUtf8? bytes).toList ++
      (parsed options bytes).diagnostics)) : diagnostic ∈ (parsed options bytes).diagnostics := by
  rw [Diagnostic.mem_sort, List.mem_append] at hmem
  obtain hinvalid | hmem := hmem
  · obtain ⟨place, -, rfl⟩ := Option.map_eq_some_iff.1 (Option.mem_toList.1 hinvalid)
    contradiction
  · exact hmem

theorem ofDiagnostics?_eq_none_iff {diagnostics : List Diagnostic} :
    TransformError.ofDiagnostics? diagnostics = none ↔
      ∀ diagnostic ∈ diagnostics, ¬diagnostic.isFatal = true := by
  rw [TransformError.ofDiagnostics?, Option.map_eq_none_iff, List.find?_eq_none]

/-- A failure is that of a fatal diagnostic. -/
theorem ofDiagnostics?_eq_some {diagnostics : List Diagnostic} {error : TransformError}
    (h : TransformError.ofDiagnostics? diagnostics = some error) :
    ∃ fatal ∈ diagnostics, fatal.isFatal = true ∧
      ((∃ limit, fatal.problem = .depthExceeded limit ∧ error = .depthExceeded limit diagnostics) ∨
        (fatal.problem = .lex .unterminatedString ∧
          error = .unterminatedString fatal.span.start diagnostics)) := by
  obtain ⟨fatal, hfind, rfl⟩ := Option.map_eq_some_iff.1 h
  have hfatal := List.find?_some hfind
  refine ⟨fatal, List.mem_of_find?_eq_some hfind, hfatal, ?_⟩
  obtain ⟨limit, hlimit⟩ | hopen := isFatal_iff.1 hfatal
  · exact .inl ⟨limit, hlimit, by rw [hlimit]⟩
  · exact .inr ⟨hopen, by rw [hopen]⟩

def noted (options : TransformOptions) (bytes : List UInt8) : List Diagnostic :=
  Diagnostic.sort ((invalidUtf8? bytes).toList ++ (parsed options bytes).diagnostics)

/-- A transformation fails with a fatal diagnostic, and succeeds where there is none. -/
theorem transform_cases (options : TransformOptions) (hfits : bytes.length ≤ maxInputLength) :
    (∃ fatal ∈ (parsed options bytes).diagnostics,
      (∃ limit, fatal.problem = .depthExceeded limit ∧
        transform options bytes = .error (.depthExceeded limit (noted options bytes))) ∨
      (fatal.problem = .lex .unterminatedString ∧
        transform options bytes =
          .error (.unterminatedString fatal.span.start (noted options bytes)))) ∨
    ((∀ diagnostic ∈ (parsed options bytes).diagnostics, ¬diagnostic.isFatal = true) ∧
      ∃ code, transform options bytes = .ok ⟨code, noted options bytes⟩) := by
  have htransform : transform options bytes =
      (TransformError.ofDiagnostics? (noted options bytes)).elim
        (.ok
          { code := Stylesheet.serialize (if options.minify then Style.minified else Style.pretty)
              (if options.minify then Stylesheet.minify (parsed options bytes).sheet
                else (parsed options bytes).sheet)
            diagnostics := noted options bytes })
        .error := by
    rw [transform, if_neg (Nat.not_lt.2 hfits)]
    simp only [noted, parsed]
    cases TransformError.ofDiagnostics? _ <;> rfl
  cases hfailure : TransformError.ofDiagnostics? (noted options bytes) with
  | none =>
    rw [hfailure] at htransform
    refine .inr ⟨fun diagnostic hmem => ?_, _, htransform⟩
    exact ofDiagnostics?_eq_none_iff.1 hfailure diagnostic
      (Diagnostic.mem_sort.2 (List.mem_append_right _ hmem))
  | some error =>
    rw [hfailure] at htransform
    obtain ⟨fatal, hmem, hfatal, hkind⟩ := ofDiagnostics?_eq_some hfailure
    refine .inl ⟨fatal, mem_parsed_of_isFatal hfatal hmem, ?_⟩
    obtain ⟨limit, hlimit, rfl⟩ | ⟨hopen, rfl⟩ := hkind
    · exact .inl ⟨limit, hlimit, htransform⟩
    · exact .inr ⟨hopen, htransform⟩

theorem carried_transform (hfits : bytes.length ≤ maxInputLength) :
    carried (transform options bytes) = noted options bytes := by
  obtain ⟨fatal, -, ⟨limit, -, hresult⟩ | ⟨-, hresult⟩⟩ | ⟨-, code, hresult⟩ :=
    transform_cases options hfits
  all_goals
    rw [hresult]
    rfl

/-- A string that never ends is reported where the nesting is not too deep. -/
theorem leavesStringOpen_iff_mem (hshallow : ¬NestsTooDeeply options bytes) {start : Pos} :
    LeavesStringOpen options bytes start ↔
      ∃ span, ⟨span, .lex .unterminatedString⟩ ∈ (parsed options bytes).diagnostics ∧
        span.start = start := by
  rw [nestsTooDeeply_iff, Bool.not_eq_true] at hshallow
  simp only [leavesStringOpen_iff, parsed, Stylesheet.mem_diagnostics_openString hshallow]
  constructor
  · rintro ⟨reading, hmem, hopen, hstart⟩
    exact ⟨reading.lexeme.span, ⟨reading, hmem, hopen, rfl⟩, hstart⟩
  · rintro ⟨span, ⟨reading, hmem, hopen, rfl⟩, hstart⟩
    exact ⟨reading, hmem, hopen, hstart⟩

/-- No two strings of a text never end. -/
theorem LeavesStringOpen.unique {start start' : Pos} (h : LeavesStringOpen options bytes start)
    (h' : LeavesStringOpen options bytes start') : start = start' := by
  obtain ⟨reading, hmem, hopen, rfl⟩ := leavesStringOpen_iff.1 h
  obtain ⟨reading', hmem', hopen', rfl⟩ := leavesStringOpen_iff.1 h'
  rw [Reading.eq_of_isOpenString hmem hmem' hopen hopen']

/-- A style sheet never reports both kinds of fatal fault. -/
theorem not_openString_of_depthExceeded {parsing : ParseOptions} {text : Text} {limit : Nat}
    {deep : Diagnostic} (hdeep : deep ∈ (Stylesheet.parse parsing text).diagnostics)
    (hlimit : deep.problem = .depthExceeded limit) {openString : Diagnostic}
    (hopen : openString ∈ (Stylesheet.parse parsing text).diagnostics) :
    openString.problem ≠ .lex .unterminatedString := by
  intro hproblem
  have haborted := Stylesheet.exists_isDepthExceeded_iff.1
    ⟨deep, hdeep, by rw [hlimit]; rfl⟩
  obtain ⟨span, problem⟩ := openString
  obtain rfl : problem = .lex .unterminatedString := hproblem
  exact Stylesheet.not_mem_diagnostics_openString haborted span hopen

/-- Where the nesting is not too deep, a string that never ends decides. -/
theorem transform_cases_of_shallow (hfits : bytes.length ≤ maxInputLength)
    (hshallow : ¬NestsTooDeeply options bytes) :
    (∃ start, LeavesStringOpen options bytes start ∧
      transform options bytes = .error (.unterminatedString start (noted options bytes))) ∨
    ((∀ start, ¬LeavesStringOpen options bytes start) ∧
      ∃ code, transform options bytes = .ok ⟨code, noted options bytes⟩) := by
  obtain ⟨fatal, hmem, ⟨limit, hlimit, -⟩ | ⟨hproblem, hresult⟩⟩ | ⟨hnone, hresult⟩ :=
    transform_cases options hfits
  · exact absurd ⟨fatal, hmem, limit, hlimit⟩ hshallow
  · refine .inl ⟨fatal.span.start, (leavesStringOpen_iff_mem hshallow).2 ⟨fatal.span, ?_, rfl⟩,
      hresult⟩
    rw [← hproblem]
    exact hmem
  · refine .inr ⟨fun start hopen => ?_, hresult⟩
    obtain ⟨span, hspan, -⟩ := (leavesStringOpen_iff_mem hshallow).1 hopen
    exact absurd rfl (hnone _ hspan)

theorem outcome (hfits : bytes.length ≤ maxInputLength) :
    Outcome options bytes (transform options bytes) where
  tooDeep := by
    constructor
    · rintro ⟨limit, noted, hresult⟩
      obtain ⟨fatal, hmem, ⟨limit, hlimit, -⟩ | ⟨-, hother⟩⟩ | ⟨-, code, hother⟩ :=
        transform_cases options hfits
      · exact ⟨fatal, hmem, limit, hlimit⟩
      · exact TransformError.noConfusion (Except.error.inj (hresult.symm.trans hother))
      · rw [hresult] at hother
        contradiction
    · rintro ⟨deep, hdeep, limit, hlimit⟩
      obtain ⟨fatal, hmem, ⟨limit, -, hresult⟩ | ⟨hopen, -⟩⟩ | ⟨hnone, -⟩ :=
        transform_cases options hfits
      · exact ⟨limit, _, hresult⟩
      · exact absurd hopen (not_openString_of_depthExceeded hdeep hlimit hmem)
      · exact absurd (isFatal_iff.2 (.inl ⟨limit, hlimit⟩)) (hnone deep hdeep)
  openString := by
    intro hshallow start
    constructor
    · rintro ⟨noted, hresult⟩
      obtain ⟨start', hopen, hother⟩ | ⟨-, code, hother⟩ :=
        transform_cases_of_shallow hfits hshallow
      · rw [hresult, Except.error.injEq, TransformError.unterminatedString.injEq] at hother
        rwa [hother.1]
      · rw [hresult] at hother
        contradiction
    · intro hopen
      obtain ⟨start', hopen', hresult⟩ | ⟨hnone, -⟩ := transform_cases_of_shallow hfits hshallow
      · rw [hopen.unique hopen']
        exact ⟨_, hresult⟩
      · exact absurd hopen (hnone start)
  succeeds := by
    intro hshallow hclosed
    obtain ⟨start, hopen, -⟩ | ⟨-, code, hresult⟩ := transform_cases_of_shallow hfits hshallow
    · exact absurd hopen (hclosed start)
    · exact ⟨_, hresult⟩
  valid := by
    intro htext
    rw [carried_transform hfits, noted, invalidUtf8?, Utf8.firstInvalid?_eq_none_iff.2 htext]
    exact Diagnostic.sort_sort _
  invalid := by
    intro place hstops
    have hfirst := Utf8.firstInvalid?_eq_some_iff.2 hstops
    have hlt : place + 1 ≤ maxInputLength := Nat.le_trans (Utf8.firstInvalid?_lt hfirst) hfits
    refine ⟨⟨.ofPlace place, .ofPlace (place + 1)⟩, Pos.toNat_ofPlace (Nat.le_of_succ_le hlt),
      Pos.toNat_ofPlace hlt, ?_⟩
    rw [carried_transform hfits, noted, invalidUtf8?, hfirst, Pos.ofPlace_add]
    rfl
  ordered := by
    rw [carried_transform hfits]
    exact Diagnostic.pairwise_sort _

theorem transform_of_length_gt (options : TransformOptions)
    (hlong : maxInputLength < bytes.length) :
    transform options bytes = .error (.inputTooLarge bytes.length) := by
  rw [transform, if_pos hlong]

/-- A transformation of bytes that are not too many fails where the nesting is too deep or a string
never ends, and only there; one of more bytes fails with nothing else to say. -/
theorem transform_fails_iff (options : TransformOptions) (bytes : List UInt8) :
    (bytes.length ≤ maxInputLength → Outcome options bytes (transform options bytes)) ∧
    (maxInputLength < bytes.length →
      transform options bytes = .error (.inputTooLarge bytes.length)) ∧
    ((∃ place, Utf8.StopsAt bytes place) ↔ ¬∃ text, bytes = Utf8.encode text) ∧
    ∀ text, ¬((∃ diagnostic ∈ (Stylesheet.parse options.parsing text).diagnostics, ∃ limit,
        diagnostic.problem = .depthExceeded limit) ∧
      ∃ diagnostic ∈ (Stylesheet.parse options.parsing text).diagnostics,
        diagnostic.problem = .lex .unterminatedString) := by
  refine ⟨outcome, transform_of_length_gt options, Utf8.exists_stopsAt_iff, ?_⟩
  · rintro text ⟨⟨deep, hdeep, limit, hlimit⟩, openString, hmem, hopen⟩
    exact not_openString_of_depthExceeded hdeep hlimit hmem hopen

/-- A string that never ends behind a byte that is no character: the string starts where U+FFFD has
ended, the byte is noted where it stands. -/
theorem transform_fails_iff_open :
    (∃ noted, transform {} [0xff, 0x22, 0x61] = .error (.unterminatedString 3 noted)) ∧
    (∃ span : Span, span.start = 0 ∧ span.stop = 1 ∧
      ⟨span, .lex .invalidUtf8⟩ ∈ carried (transform {} [0xff, 0x22, 0x61])) ∧
    (carried (transform {} [0xff, 0x22, 0x61])).Pairwise fun left right =>
      left.span.start ≤ right.span.start := by
  have houtcome := (transform_fails_iff {} [0xff, 0x22, 0x61]).1 (by decide)
  have hdecoded : Utf8.decodeLossy [0xff, 0x22, 0x61] = "\ufffd\"a".toList := by decide +kernel
  have hshallow : ¬NestsTooDeeply {} [0xff, 0x22, 0x61] := by
    rw [nestsTooDeeply_iff, hdecoded]
    decide +kernel
  have hopen : LeavesStringOpen {} [0xff, 0x22, 0x61] 3 := by
    rw [LeavesStringOpen, hdecoded]
    exact ⟨⟨.string ['a'] .double, ⟨3, 5⟩, "\"a".toList⟩, by decide +kernel, ⟨_, _, rfl⟩,
      by decide +kernel, rfl⟩
  obtain ⟨span, hstart, hstop, hcarried⟩ :=
    houtcome.invalid 0 (Utf8.firstInvalid?_eq_some_iff.1 (by decide +kernel))
  refine ⟨(houtcome.openString hshallow 3).2 hopen, ⟨span, UInt32.toNat_inj.1 hstart,
    UInt32.toNat_inj.1 hstop, ?_⟩, houtcome.ordered⟩
  rw [hcarried]
  exact Diagnostic.mem_sort.2 (List.mem_cons_self ..)

/-- A name has no fatal fault, however long it is. -/
theorem isShallow_stray {n : Nat} (h : 0 < n) :
    ¬NestsTooDeeply options (Utf8.stray [] n []) ∧
      ∀ start, ¬LeavesStringOpen options (Utf8.stray [] n []) start := by
  have hall := Reading.all_replacements options.parsing.lineComments 0 h
    (⟨rfl, by decide, by decide⟩ : EndsName [])
  have hnil : ∀ offset, Reading.all options.parsing.lineComments offset [] = [] := fun _ =>
    Reading.all.eq_1 ..
  rw [hnil] at hall
  constructor
  · rw [nestsTooDeeply_iff, Utf8.decodeLossy_stray, List.nil_append, Stylesheet.stateBehind, hall]
    exact Bool.false_ne_true
  · intro start
    rw [leavesStringOpen_iff, Utf8.decodeLossy_stray, List.nil_append, hall]
    rintro ⟨reading, hmem, hopen, -⟩
    obtain rfl := List.mem_singleton.1 hmem
    contradiction

/-- Stray bytes of which there is one more than words keep places give no text, although nothing is
wrong with the name that they become. -/
theorem not_transform_fails_iff :
    ¬∀ (options : TransformOptions) (bytes : List UInt8),
      Outcome options bytes (transform options bytes) := by
  intro h
  obtain ⟨hshallow, hclosed⟩ := @isShallow_stray {} 4294967296 (by decide)
  obtain ⟨output, houtput⟩ := (h {} (Utf8.stray [] 4294967296 [])).succeeds hshallow hclosed
  rw [transform_of_length_gt {} (by rw [Utf8.length_stray]; decide)] at houtput
  contradiction

/-- Minified, a name of two hyphens and the combinator behind it are one token, and that is dropped
when the text is minified again. -/
theorem not_transform_transform :
    transform { minify := true } (Utf8.encode "-- > a\x7b\x7d".toList) =
        .ok ⟨"-->a\x7b\x7d".toList, []⟩ ∧
      transform { minify := true } (Utf8.encode "-->a\x7b\x7d".toList) =
        .ok ⟨"a\x7b\x7d".toList, []⟩ := by
  decide +kernel

end Css.Transform
