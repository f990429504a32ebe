import Css.Proofs.Token.Grammar
import Css.Tokenizer

/-!
# Malformed tokens

Whether a token is malformed shows in the characters it is written with (`Token.fault?`): a string,
comment or url without its end, what is left of a string or url that was cut short, or a lone
backslash. A tokenizer reports each malformed token once, in the order of the text, and nothing else
(`Tokenizer.diagnostics_rest`). One kind it misses: a url that the end of the text cuts off behind a
blank.
-/

namespace Css

namespace Token

def behindTarget (raw target : Text) : Text :=
  ((raw.drop 4).dropWhile isBlank).drop target.length

def fault? (raw : Text) : Token → Option Problem
  | badString => some (.lex .badString)
  | badUrl => some (.lex .badUrl)
  | delim c => if c = '\\' then some (.lex .badEscape) else none
  | comment content =>
    if raw.take 2 = "/*".toList ∧ raw ≠ "/*".toList ++ content ++ "*/".toList then
      some (.lex .unterminatedComment)
    else none
  | string content quote =>
    if raw = quote.toChar :: (content ++ [quote.toChar]) then none
    else some (.lex .unterminatedString)
  | url target => if ')' ∈ behindTarget raw target then none else some (.unbalancedBlock ')')
  | _ => none

def isCutOff (raw : Text) : Token → Bool
  | url target => !(behindTarget raw target).isEmpty && !(behindTarget raw target).contains ')'
  | _ => false

def IsJudged (text : Text) (scan : Scan) : Prop :=
  scan.problem =
    if scan.token.isCutOff (text.take scan.length) then none
    else scan.token.fault? (text.take scan.length)

theorem IsJudged.of_fault? {text raw : Text} {scan : Scan} (hraw : text.take scan.length = raw)
    (hcut : scan.token.isCutOff raw = false) (hfault : scan.problem = scan.token.fault? raw) :
    IsJudged text scan := by
  rw [IsJudged, hraw, hcut, hfault]
  rfl

/-! ### Strings and comments -/

theorem isJudged_scanNumeric (text text' : Text) : IsJudged text' (scanNumeric text) := by
  unfold scanNumeric
  simp only
  split
  · rfl
  · split <;> rfl

theorem isJudged_delim {c : Char} (hc : c ≠ '\\') (text : Text) (length : Nat) :
    IsJudged text { token := delim c, length } := by
  exact .of_fault? rfl rfl (if_neg hc).symm

theorem isJudged_ofChar? {c : Char} {token : Token} (h : ofChar? c = some token) (text : Text)
    (length : Nat) : IsJudged text { token, length } := by
  unfold ofChar? at h
  split at h
  all_goals first
    | contradiction
    | (obtain rfl := Option.some.inj h; rfl)

theorem isJudged_scanString (quote : Quote) (text : Text) :
    IsJudged (quote.toChar :: text) (scanString quote text) := by
  have hle := chainLength_le (stringUnit_le quote) text
  have hsplit := List.take_append_drop (chainLength (stringUnit quote) text) text
  unfold scanString
  simp only
  generalize hlength : chainLength (stringUnit quote) text = length at hle hsplit ⊢
  split
  · -- The string reaches up to the end of the text and has no second quote.
    have hshort : (quote.toChar :: text).take (1 + length) ≠
        quote.toChar :: (text.take length ++ [quote.toChar]) := by
      intro heq
      have := congrArg List.length heq
      simp only [List.length_take, List.length_cons, List.length_append, List.length_nil] at this
      omega
    exact .of_fault? rfl rfl (if_neg hshort).symm
  · rename_i c rest hdrop
    split
    · rename_i hc
      obtain rfl : c = quote.toChar := by simpa using hc
      have hraw : (quote.toChar :: text).take (1 + length + 1) =
          quote.toChar :: (text.take length ++ [quote.toChar]) := by
        rw [Nat.add_comm 1, List.take_succ_cons, List.take_add, hdrop]
        rfl
      exact .of_fault? hraw rfl (if_pos rfl).symm
    · rfl

theorem take_commentLength {text : Text} (h : text.drop (commentLength text) ≠ []) :
    text.take (commentLength text + 2) = text.take (commentLength text) ++ ['*', '/'] := by
  fun_induction commentLength text with
  | case1 => exact absurd rfl h
  | case2 => rfl
  | case3 c cs hnot ih =>
    rw [List.drop_succ_cons] at h
    rw [Nat.add_right_comm, List.take_succ_cons, List.take_succ_cons, ih h, List.cons_append]

theorem isJudged_scanComment (text : Text) :
    IsJudged ('/' :: '*' :: text) (scanComment text) := by
  have hle := commentLength_le text
  have hraw : ∀ n, ('/' :: '*' :: text).take (2 + n) = "/*".toList ++ text.take n := by
    intro n
    rw [Nat.add_comm]
    rfl
  unfold scanComment
  simp only
  split
  · have hshort : ("/*".toList ++ text.take (commentLength text) : Text) ≠
        "/*".toList ++ text.take (commentLength text) ++ "*/".toList := by
      intro heq
      have := congrArg List.length heq
      simp at this
    exact .of_fault? (hraw _) rfl (if_pos ⟨rfl, hshort⟩).symm
  · rename_i hrest
    have hclosed := take_commentLength fun hnil => hrest (by rw [hnil]; rfl)
    rw [Nat.add_assoc]
    refine .of_fault? (hraw _) rfl ?_
    rw [hclosed, ← List.append_assoc]
    exact (if_neg fun h => h.2 rfl).symm

theorem isJudged_scanLineComment (text : Text) :
    IsJudged ('/' :: '/' :: text) (scanLineComment text) := by
  have hraw : ∀ n, (('/' :: '/' :: text).take (2 + n)).take 2 ≠ "/*".toList := by
    intro n
    rw [List.take_take, Nat.min_eq_left (Nat.le_add_right ..)]
    exact fun heq => absurd (congrArg (·.getLast?) heq) (by simp)
  exact .of_fault? rfl rfl (if_neg fun h => hraw _ h.1).symm

/-! ### Urls -/

/-- What stands behind the target of a url, cut from what stands behind the blanks in front. -/
theorem behindTarget_take {name before text : Text} (hname : name.length = 3)
    (hbefore : ∀ c ∈ before, isBlank c = true) (hhead : ∀ c ∈ text.head?, isBlank c = false)
    (length more : Nat) (hle : length ≤ text.length) :
    behindTarget
        ((name ++ '(' :: (before ++ text)).take (name.length + 1 + before.length + length + more))
        (text.take length) =
      (text.drop length).take more := by
  have hwhole : name ++ '(' :: (before ++ text) = (name ++ ['(']) ++ (before ++ text) := by simp
  have hlength : (name ++ ['(']).length = 4 := by rw [List.length_append, hname]; rfl
  have htake : (before ++ text).take (before.length + (length + more)) =
      before ++ text.take (length + more) := by
    rw [List.take_append, List.take_of_length_le (Nat.le_add_right ..), Nat.add_sub_cancel_left]
  have hdropWhile : (before ++ text.take (length + more)).dropWhile isBlank =
      text.take (length + more) := by
    rw [List.dropWhile_append_of_pos hbefore]
    cases text with
    | nil => simp
    | cons c cs =>
      have hc := hhead c rfl
      cases hsum : length + more with
      | zero => rfl
      | succ n => rw [List.take_succ_cons, List.dropWhile_cons, if_neg (by simp [hc])]
  rw [behindTarget, hwhole, hname, show 3 + 1 + before.length + length + more =
    (name ++ ['(']).length + (before.length + (length + more)) by rw [hlength]; omega,
    List.take_append, List.take_of_length_le (Nat.le_add_right ..), Nat.add_sub_cancel_left,
    List.drop_append_of_le_length (by omega), ← hlength, List.drop_length, List.nil_append, htake,
    hdropWhile, List.length_take, Nat.min_eq_left hle, List.drop_take, Nat.add_sub_cancel_left]

theorem isJudged_scanUrl {name before text : Text} (hname : name.length = 3)
    (hbefore : ∀ c ∈ before, isBlank c = true) (hhead : ∀ c ∈ text.head?, isBlank c = false) :
    IsJudged (name ++ '(' :: (before ++ text))
      (scanUrl (name.length + 1 + before.length) text) := by
  have hbehind := fun more => behindTarget_take hname hbefore hhead (chainLength urlUnit text) more
    (chainLength_le urlUnit_le text)
  unfold scanUrl
  simp only
  generalize chainLength urlUnit text = length at hbehind ⊢
  split
  · rename_i hdrop
    have hnone := hbehind 0
    rw [hdrop, Nat.add_zero] at hnone
    refine .of_fault? rfl ?_ ?_
    · rw [isCutOff, hnone]
      rfl
    · rw [fault?, hnone]
      rfl
  · rename_i rest hrest
    obtain ⟨after, tail, hafter, hblanks, hall, -⟩ := exists_blanks (text.drop length)
    have hbracket : ')' ∉ after := fun hmem => absurd (hall _ hmem) (by decide)
    simp only [hblanks]
    rw [hafter] at hrest hbehind ⊢
    simp only [List.drop_left]
    split
    · -- The text ends behind blanks, and nothing is reported.
      rename_i htail
      have hcut := hbehind after.length
      rw [List.take_left] at hcut
      have hne : after.isEmpty = false := by
        cases after with
        | nil => exact absurd rfl hrest
        | cons c after => rfl
      rw [IsJudged, isCutOff, hcut, hne, List.contains_eq_mem, decide_eq_false hbracket]
      rfl
    · rename_i tail
      have hclosed := hbehind (after.length + 1)
      have hmem : ')' ∈ (after ++ ')' :: tail).take (after.length + 1) := by
        rw [List.take_append, Nat.add_sub_cancel_left]
        simp
      rw [← Nat.add_assoc] at hclosed
      refine .of_fault? rfl ?_ ?_
      · rw [isCutOff, hclosed, List.contains_eq_mem, decide_eq_true hmem]
        exact Bool.and_false _
      · rw [fault?, hclosed, if_pos hmem]
    · rfl

theorem isJudged_scanIdentLike (text : Text) : IsJudged text (scanIdentLike text) := by
  have hsplit := List.take_append_drop (nameLength text) text
  have hlength : (text.take (nameLength text)).length = nameLength text := by
    rw [List.length_take, Nat.min_eq_left (nameLength_le text)]
  unfold scanIdentLike
  simp only
  generalize text.take (nameLength text) = name at hsplit hlength ⊢
  split
  · rename_i inner hdrop
    split
    · rename_i hurl
      split
      · rfl
      · obtain ⟨before, tail, rfl, hblanks, hbefore, htail⟩ := exists_blanks inner
        have hname : name.length = 3 := by
          have hlower : Text.lower name = ['u', 'r', 'l'] := by simpa [Text.isKeyword] using hurl
          have hlength := congrArg List.length hlower
          rwa [Text.lower, List.length_map] at hlength
        rw [hblanks, List.drop_left, ← hlength, ← hsplit, hdrop]
        exact isJudged_scanUrl hname hbefore htail
    · rfl
  · rfl

/-- What is found wrong with a token is what its characters show, except where a url is cut off
behind a blank. -/
theorem isJudged_scan (lineComments : Bool) (c : Char) (cs : Text) :
    IsJudged (c :: cs) (scan lineComments c cs) := by
  unfold scan
  simp only
  split
  · exact isJudged_ofChar? ‹_› ..
  split
  · rfl
  split
  · exact isJudged_scanNumeric ..
  split
  · split
    · exact isJudged_scanComment _
    · split
      · exact isJudged_scanLineComment _
      · exact isJudged_delim (by decide) ..
    · exact isJudged_delim (by decide) ..
  · exact isJudged_scanString .double cs
  · exact isJudged_scanString .single cs
  · split
    · exact isJudged_delim (by decide) ..
    · rfl
  · split
    · rfl
    · exact isJudged_delim (by decide) ..
  · split
    · rfl
    · exact isJudged_delim (by decide) ..
  · split
    · rfl
    · split
      · exact isJudged_scanIdentLike _
      · exact isJudged_delim (by decide) ..
  · split
    · exact isJudged_scanIdentLike _
    · rfl
  · rename_i hbackslash
    split
    · exact isJudged_scanIdentLike _
    · exact isJudged_delim hbackslash ..

end Token

/-! ### What a run reports -/

namespace Lexeme

/-- What is wrong with a lexeme. -/
def fault? (lexeme : Lexeme) : Option Problem := lexeme.token.fault? lexeme.raw

def isCutOff (lexeme : Lexeme) : Bool := lexeme.token.isCutOff lexeme.raw

def diagnostic? (lexeme : Lexeme) : Option Diagnostic :=
  lexeme.fault?.map (⟨lexeme.span, ·⟩)

end Lexeme

/-- A reading has the fault that its characters show. -/
theorem Reading.diagnostic?_of_mem_all {lineComments : Bool} {offset : Nat} {text : Text}
    {reading : Reading} (h : reading ∈ all lineComments offset text) :
    reading.diagnostic? = if reading.lexeme.isCutOff then none else reading.lexeme.diagnostic? := by
  fun_induction all lineComments offset text with
  | case1 => simp at h
  | case2 offset c cs first ih =>
    obtain rfl | hrest := List.mem_cons.1 h
    · have hjudged := Token.isJudged_scan lineComments c cs
      have hproblem : first.problem = if first.lexeme.isCutOff then none else first.lexeme.fault? :=
        hjudged
      rw [diagnostic?, hproblem, Lexeme.diagnostic?]
      split <;> rfl
    · exact ih hrest

namespace Tokenizer

/-- Each malformed token of a text is reported once, with its place and in the order of the text,
and no other token is. Only a url that the text cuts off behind a blank is not reported. -/
theorem diagnostics_rest (lineComments : Bool) (text : Text) :
    (ofText lineComments text).rest.2.diagnostics =
      ((ofText lineComments text).rest.1.filter (!·.isCutOff)).filterMap (·.diagnostic?) := by
  have hreadings : ∀ readings : List Reading,
      (∀ reading ∈ readings, reading.diagnostic? =
        if reading.lexeme.isCutOff then none else reading.lexeme.diagnostic?) →
      readings.filterMap (·.diagnostic?) =
        ((readings.map (·.lexeme)).filter (!·.isCutOff)).filterMap (·.diagnostic?) := by
    intro readings hall
    induction readings with
    | nil => rfl
    | cons reading readings ih =>
      rw [List.forall_mem_cons] at hall
      rw [List.filterMap_cons, hall.1, ih hall.2, List.map_cons, List.filter_cons]
      cases hcut : reading.lexeme.isCutOff with
      | true => rfl
      | false => simp [List.filterMap_cons]
  have hdiagnostics : (ofText lineComments text).rest.2.diagnostics =
      (Reading.all lineComments 0 text).filterMap (·.diagnostic?) := List.nil_append _
  have hlexemes : (ofText lineComments text).rest.1 =
      (Reading.all lineComments 0 text).map (·.lexeme) ++
        [Lexeme.atEnd (0 + Text.byteLength (text.take text.length))] := rfl
  have hend : ∀ place, ([Lexeme.atEnd place].filter (!·.isCutOff)).filterMap (·.diagnostic?) = [] :=
    fun _ => rfl
  rw [hdiagnostics, hlexemes, List.filter_append, List.filterMap_append, hend, List.append_nil]
  exact hreadings _ fun _ hmem => Reading.diagnostic?_of_mem_all hmem

/-- A url that is cut off behind a blank is malformed, and is not reported. -/
theorem not_diagnostics_rest :
    (ofText true "url(x ".toList).rest.1 =
        [⟨.url "x".toList, ⟨0, 6⟩, "url(x ".toList⟩, Lexeme.atEnd 6] ∧
      (ofText true "url(x ".toList).rest.1.filterMap (·.diagnostic?) =
        [⟨⟨0, 6⟩, .unbalancedBlock ')'⟩] ∧
      (ofText true "url(x ".toList).rest.2.diagnostics = [] := by
  decide +kernel

end Tokenizer

end Css
