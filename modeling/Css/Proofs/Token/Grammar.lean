import Css.Proofs.Token.Lookahead

/-!
# The grammar of tokens

Which characters spell a token depends on those characters and on the few that follow, which must
not belong to the token. `Token.Spells` says this token by token, and it is what scanning does:
characters that spell a token are scanned as it (`Token.Spells.scan_eq`), and a token that is
scanned without a fault and is no comment is spelled by its characters (`Token.isSpelled_scan`).
-/

namespace Css

def Numeric.ofText (text : Text) : Numeric where
  value := ((Number.read? text).getD Number.zero).nearestFinite
  isInteger := (numeralParts text).2.1 == 0 && (numeralParts text).2.2 == 0
  text := text

def Token.numeric? : Token → Option Numeric
  | number numeric => some numeric
  | percentage numeric => some numeric
  | dimension numeric _ => some numeric
  | _ => none

/-! ### Words -/

/-- A character that is a letter in lower case is a letter. -/
theorem isAlpha_of_isLower_toLower {c : Char} (h : c.toLower.isLower = true) :
    c.isAlpha = true := by
  unfold Char.toLower at h
  split at h
  · rename_i hupper
    exact isAlpha_iff.2 (.inl hupper)
  · exact Bool.or_eq_true_iff.2 (.inr h)

namespace Text

/-- A text that is a word of letters in lower case is a word of letters. -/
theorem isAlpha_of_lower {text word : Text} (h : text.lower = word)
    (hword : word ≠ [] ∧ word.all Char.isLower = true) :
    text ≠ [] ∧ text.all Char.isAlpha = true := by
  subst h
  obtain ⟨hne, hletters⟩ := hword
  rw [List.all_eq_true] at hletters ⊢
  refine ⟨?_, fun c hc => isAlpha_of_isLower_toLower (hletters _ (List.mem_map_of_mem hc))⟩
  rintro rfl
  exact hne rfl

theorem isAlpha_of_isOneOf {text : Text} {keywords : List String}
    (h : text.isOneOf keywords = true)
    (hkeywords : ∀ keyword ∈ keywords,
      keyword.toList ≠ [] ∧ keyword.toList.all Char.isLower = true) :
    text ≠ [] ∧ text.all Char.isAlpha = true := by
  obtain ⟨keyword, hmem, hkeyword⟩ := List.any_eq_true.1 h
  exact isAlpha_of_lower (eq_of_beq hkeyword) (hkeywords keyword hmem)

end Text

namespace Token

def DelimEnds (lineComments : Bool) (follow : Text) : Char → Prop
  | '/' => follow.head? ≠ some '*' ∧ (follow.head? ≠ some '/' ∨ lineComments = false)
  | '#' => nameLength follow = 0
  | '@' => startsName follow = false
  | '<' => follow.take 3 ≠ ['!', '-', '-']
  | '-' => startsNumeral ('-' :: follow) = false ∧ startsName ('-' :: follow) = false
  | '+' => startsNumeral ('+' :: follow) = false
  | '.' => startsNumeral ('.' :: follow) = false
  | c => startsToken c = false

/-- Whether the brackets of a quoted url are open: its string follows, or one blank and its
string. -/
def OpensString (blanks follow : Text) : Prop :=
  (blanks = [] ∧ ∃ q rest, follow = q :: rest ∧ isQuote q = true) ∨
    ∃ b q rest, follow = b :: q :: rest ∧ isBlank b = true ∧ isQuote q = true

/-- Whether some characters spell a token where others follow. -/
inductive Spells (lineComments : Bool) (follow : Text) : Token → Text → Prop
  | single {c : Char} {token : Token} : ofChar? c = some token →
    Spells lineComments follow token [c]
  | whitespace {blanks : Text} : blanks ≠ [] → (∀ c ∈ blanks, isBlank c = true) →
    (∀ c ∈ follow.head?, isBlank c = false) → Spells lineComments follow whitespace blanks
  | number {numeral : Text} : startsNumeral (numeral ++ follow) = true →
    NumeralEnds numeral follow → startsName follow = false → follow.head? ≠ some '%' →
    Spells lineComments follow (number (.ofText numeral)) numeral
  | percentage {numeral : Text} : startsNumeral (numeral ++ '%' :: follow) = true →
    NumeralEnds numeral ('%' :: follow) →
    Spells lineComments follow (percentage (.ofText numeral)) (numeral ++ ['%'])
  | dimension {numeral unit : Text} : startsNumeral (numeral ++ (unit ++ follow)) = true →
    NumeralEnds numeral (unit ++ follow) → startsName (unit ++ follow) = true →
    NameEnds unit follow →
    Spells lineComments follow (dimension (.ofText numeral) unit) (numeral ++ unit)
  | string {content : Text} {quote : Quote} :
    chainLength (stringUnit quote) (content ++ quote.toChar :: follow) = content.length →
    Spells lineComments follow (string content quote)
      (quote.toChar :: (content ++ [quote.toChar]))
  | hash {name : Text} : name ≠ [] → NameEnds name follow →
    Spells lineComments follow (hash name (startsName (name ++ follow))) ('#' :: name)
  | atKeyword {name : Text} : startsName (name ++ follow) = true → NameEnds name follow →
    Spells lineComments follow (atKeyword name) ('@' :: name)
  | cdo : Spells lineComments follow cdo ['<', '!', '-', '-']
  | cdc : Spells lineComments follow cdc ['-', '-', '>']
  | ident {name : Text} : startsName (name ++ follow) = true → NameEnds name follow →
    follow.head? ≠ some '(' → (name = ['-', '-'] → follow.head? ≠ some '>') →
    Spells lineComments follow (ident name) name
  | function {name : Text} : startsName (name ++ '(' :: follow) = true →
    NameEnds name ('(' :: follow) → name.isKeyword "url" = false →
    Spells lineComments follow (function name) (name ++ ['('])
  | quotedUrl {name blanks : Text} : name.isKeyword "url" = true →
    (∀ c ∈ blanks, isBlank c = true) → OpensString blanks follow →
    Spells lineComments follow (function name) (name ++ '(' :: blanks)
  | url {name before target after : Text} : name.isKeyword "url" = true →
    (∀ c ∈ before, isBlank c = true) → (∀ c ∈ after, isBlank c = true) →
    chainLength urlUnit (target ++ (after ++ ')' :: follow)) = target.length →
    (target = [] → after = []) →
    Spells lineComments follow (url target)
      (name ++ '(' :: (before ++ (target ++ (after ++ [')']))))
  /-- At the end of a text an unquoted url may lack its bracket behind a blank. -/
  | openUrl {name before target after : Text} : name.isKeyword "url" = true →
    (∀ c ∈ before, isBlank c = true) → (∀ c ∈ after, isBlank c = true) →
    chainLength urlUnit (target ++ after) = target.length → target ≠ [] → after ≠ [] →
    follow = [] →
    Spells lineComments follow (url target) (name ++ '(' :: (before ++ (target ++ after)))
  | delim {c : Char} : DelimEnds lineComments follow c → Spells lineComments follow (delim c) [c]

/-! ### Scanning a spelled token -/

theorem nameEnds_take (text : Text) :
    NameEnds (text.take (nameLength text)) (text.drop (nameLength text)) := by
  rw [NameEnds, List.take_append_drop, List.length_take, Nat.min_eq_left (nameLength_le text)]

theorem numeralEnds_take (text : Text) :
    NumeralEnds (text.take (numeralLength text)) (text.drop (numeralLength text)) := by
  rw [NumeralEnds, List.take_append_drop, List.length_take, Nat.min_eq_left (numeralLength_le text)]

theorem take_numeralLength_ne_nil {text : Text} (h : startsNumeral text = true) :
    text.take (numeralLength text) ≠ [] := by
  have hpos := numeralLength_pos h
  have hle := numeralLength_le text
  intro hnil
  have hlength := congrArg List.length hnil
  rw [List.length_take, List.length_nil] at hlength
  omega

theorem scanNumeric_append {numeral follow : Text} (hne : numeral ≠ [])
    (h : NumeralEnds numeral follow) :
    scanNumeric (numeral ++ follow) =
      if startsName follow then
        { token := dimension (.ofText numeral) (follow.take (nameLength follow))
          length := numeral.length + nameLength follow }
      else if follow.head? = some '%' then
        { token := percentage (.ofText numeral), length := numeral.length + 1 }
      else { token := number (.ofText numeral), length := numeral.length } := by
  have hlength : numeralLength (numeral ++ follow) = numeral.length := h
  simp only [scanNumeric, hlength, h.numeralParts_eq hne, List.take_left, List.drop_left]
  split
  · rfl
  · split
    · rfl
    · rename_i hhead
      rw [if_neg]
      · rfl
      · intro heq
        obtain ⟨tail, rfl⟩ := List.head?_eq_some_iff.1 heq
        exact hhead tail rfl

theorem scanIdentLike_ident {name follow : Text} (h : NameEnds name follow)
    (hfollow : follow.head? ≠ some '(') :
    scanIdentLike (name ++ follow) = { token := ident name, length := name.length } := by
  have hlength : nameLength (name ++ follow) = name.length := h
  rw [scanIdentLike_of_no_bracket (by rw [hlength, List.drop_left]; exact hfollow), hlength,
    List.take_left]

theorem scanIdentLike_bracket {name inner : Text} (h : NameEnds name ('(' :: inner)) :
    scanIdentLike (name ++ '(' :: inner) =
      if name.isKeyword "url" then
        if ((inner.drop (blanksLength inner)).head?.map isQuote).getD false then
          { token := function name, length := name.length + 1 + (blanksLength inner - 1) }
        else scanUrl (name.length + 1 + blanksLength inner) (inner.drop (blanksLength inner))
      else { token := function name, length := name.length + 1 } := by
  have hlength : nameLength (name ++ '(' :: inner) = name.length := h
  have hinner : (name ++ '(' :: inner).drop (nameLength (name ++ '(' :: inner)) = '(' :: inner := by
    rw [hlength, List.drop_left]
  rw [scanIdentLike_of_bracket hinner, hlength, List.take_left]

theorem startsNumeral_eq_false_of_startsName {text : Text} (h : startsName text = true) :
    startsNumeral text = false := by
  cases hnumeral : startsNumeral text with
  | false => rfl
  | true =>
    exfalso
    have hplain : ∀ {c : Char} {cs : Text}, startsPlainName (c :: cs) = true →
        c ≠ '.' ∧ c ≠ '+' ∧ c.isDigit = false := by
      intro c cs hstarts
      simp only [startsPlainName, Bool.or_eq_true, bne_iff_ne, ne_eq] at hstarts
      by_cases hc : c = '\\'
      · subst hc
        decide
      · have hstart : isNameStart c = true := by
          refine hstarts.resolve_right ?_
          simp [escapeLength, hc]
        refine ⟨?_, ?_, isDigit_eq_false_of_isNameStart hstart⟩ <;>
          (rintro rfl; exact absurd hstart (by decide))
    rcases text with _ | ⟨c, cs⟩
    · contradiction
    by_cases hc : c = '-'
    · subst hc
      rcases cs with _ | ⟨d, cs⟩
      · contradiction
      · by_cases hd : d = '-'
        · subst hd
          exact absurd hnumeral (by simp [startsNumeral, signLength])
        · rw [startsName_hyphen hd] at h
          obtain ⟨hpoint, -, hdigit⟩ := hplain h
          simp [startsNumeral, signLength, hpoint, hdigit] at hnumeral
    · rw [startsName_of_ne_hyphen hc] at h
      obtain ⟨hpoint, hplus, hdigit⟩ := hplain h
      obtain h' | h' | h' | h' := startsNumeral_cons hnumeral
      · exact hplus h'
      · exact hc h'
      · exact hpoint h'
      · rw [hdigit] at h'
        contradiction

/-- What starts a name is scanned as one, except for the end of a comment in mark-up. -/
theorem scan_of_startsName (lineComments : Bool) {c : Char} {cs : Text}
    (h : startsName (c :: cs) = true) (hcdc : (c :: cs).take 3 ≠ ['-', '-', '>']) :
    scan lineComments c cs = scanIdentLike (c :: cs) := by
  by_cases hstart : isNameStart c = true
  · exact scan_of_isNameStart _ hstart cs
  by_cases hhyphen : c = '-'
  · subst hhyphen
    rw [scan_hyphen _ (startsNumeral_eq_false_of_startsName h), if_pos h]
    intro htake
    exact hcdc (by rw [List.take_succ_cons, htake])
  by_cases hbackslash : c = '\\'
  · subst hbackslash
    rw [scan_backslash, if_pos h]
  · rw [startsName_of_ne_hyphen hhyphen] at h
    simp [startsPlainName, hstart, escapeLength, hbackslash] at h

theorem nameEnds_url {name : Text} (h : name.isKeyword "url" = true) {follow : Text}
    (hunit : nameUnit follow = 0) :
    NameEnds name follow ∧ startsName (name ++ follow) = true ∧ name.head? ≠ some '-' := by
  have hlower : name.lower = ['u', 'r', 'l'] := by simpa [Text.isKeyword] using h
  have halpha : ∀ {c d : Char}, c.toLower = d → d.isLower = true → isNameStart c = true := by
    rintro c d rfl hlower
    simp [isNameStart, isAlpha_of_isLower_toLower hlower]
  obtain ⟨a, b, c, rfl, ha, hb, hc⟩ : ∃ a b c, name = [a, b, c] ∧ isNameStart a = true ∧
      isNameStart b = true ∧ isNameStart c = true := by
    rcases name with _ | ⟨a, _ | ⟨b, _ | ⟨c, _ | ⟨d, name⟩⟩⟩⟩ <;>
      simp [Text.lower] at hlower
    exact ⟨a, b, c, rfl, halpha hlower.1 (by decide), halpha hlower.2.1 (by decide),
      halpha hlower.2.2 (by decide)⟩
  have hunit' : ∀ {c : Char} {cs : Text}, isNameStart c = true →
      chainLength nameUnit (c :: cs) = 1 + chainLength nameUnit cs := by
    intro c cs hstart
    rw [chainLength]
    simp [nameUnit, isNameChar, hstart]
  have hend : chainLength nameUnit follow = 0 := by
    cases follow with
    | nil => simp [chainLength]
    | cons c follow => simp [chainLength, hunit]
  refine ⟨?_, startsName_of_isNameStart ha _, ?_⟩
  · simp [NameEnds, nameLength, hunit', ha, hb, hc, hend]
  · rintro hhead
    obtain rfl := Option.some.inj hhead
    exact absurd ha (by decide)

theorem blanksLength_append {blanks : Text} (h : ∀ c ∈ blanks, isBlank c = true) {follow : Text}
    (hfollow : ∀ c ∈ follow.head?, isBlank c = false) :
    blanksLength (blanks ++ follow) = blanks.length := by
  have hnone : follow.takeWhile isBlank = [] := by
    cases follow with
    | nil => rfl
    | cons c follow => rw [List.takeWhile_cons, hfollow c rfl, if_neg Bool.false_ne_true]
  rw [blanksLength, List.takeWhile_append_of_pos h, hnone, List.append_nil]

/-- An unquoted url does not start with a blank or a quote. -/
theorem head?_url {target follow : Text}
    (h : chainLength urlUnit (target ++ follow) = target.length) {c : Char}
    (hc : target.head? = some c) : isBlank c = false ∧ isQuote c = false := by
  obtain ⟨cs, rfl⟩ := List.head?_eq_some_iff.1 hc
  have hpos : urlUnit (c :: (cs ++ follow)) ≠ 0 := by
    intro hzero
    simp [chainLength, hzero] at h
  constructor
  · cases hblank : isBlank c with
    | false => rfl
    | true => simp [urlUnit, hblank] at hpos
  · cases hquote : isQuote c with
    | false => rfl
    | true => simp [urlUnit, hquote] at hpos

theorem scanIdentLike_url {name before target rest : Text} (hname : name.isKeyword "url" = true)
    (hbefore : ∀ c ∈ before, isBlank c = true)
    (hhead : ∀ c ∈ (target ++ rest).head?, isBlank c = false ∧ isQuote c = false) :
    scanIdentLike (name ++ '(' :: (before ++ (target ++ rest))) =
      scanUrl (name.length + 1 + before.length) (target ++ rest) := by
  have hblanks := blanksLength_append hbefore fun c hc => (hhead c hc).1
  have hquote : ((target ++ rest).head?.map isQuote).getD false = false := by
    cases hc : (target ++ rest).head? with
    | none => rfl
    | some c => exact (hhead c (by rw [hc]; rfl)).2
  rw [scanIdentLike_bracket (nameEnds_url hname rfl).1, if_pos hname, hblanks, List.drop_left,
    hquote, if_neg (by decide)]

/-- The end of a comment in mark-up is no name with an opening bracket behind it. -/
theorem take_three_ne_cdc {name follow : Text} (h : NameEnds name follow)
    (hcdc : name = ['-', '-'] → follow.head? ≠ some '>') :
    (name ++ follow).take 3 ≠ ['-', '-', '>'] := by
  intro htake
  have hunit := h.nameUnit_eq_zero
  rcases name with _ | ⟨a, _ | ⟨b, _ | ⟨c, name⟩⟩⟩
  · obtain ⟨tail, rfl⟩ : ∃ tail, follow = '-' :: tail := by
      rcases follow with _ | ⟨a, follow⟩
      · contradiction
      · exact ⟨follow, by rw [(List.cons.inj htake).1]⟩
    exact absurd hunit (by simp [nameUnit, isNameChar])
  · obtain ⟨tail, rfl⟩ : ∃ tail, follow = '-' :: tail := by
      rcases follow with _ | ⟨b, follow⟩
      · simp at htake
      · simp at htake
        exact ⟨follow, by rw [htake.2.1]⟩
    exact absurd hunit (by simp [nameUnit, isNameChar])
  · rcases follow with _ | ⟨c, follow⟩
    · simp at htake
    · simp at htake
      obtain ⟨rfl, rfl, rfl⟩ := htake
      exact hcdc rfl rfl
  · simp at htake
    obtain ⟨rfl, rfl, rfl⟩ := htake
    have htail := ((h.tail (by decide)).tail (by decide)).nameUnit_pos
    simp [nameUnit, isNameChar, isNameStart, escapeLength] at htail

/-- What starts a name and is no end of a comment in mark-up is scanned as a name is. -/
theorem exists_scan_name (lineComments : Bool) {name follow : Text} (hends : NameEnds name follow)
    (hstarts : startsName (name ++ follow) = true)
    (hcdc : name = ['-', '-'] → follow.head? ≠ some '>') :
    ∃ c cs, name = c :: cs ∧
      scan lineComments c (cs ++ follow) = scanIdentLike (name ++ follow) := by
  obtain ⟨c, cs, rfl⟩ := List.exists_cons_of_ne_nil (hends.ne_nil hstarts)
  exact ⟨c, cs, rfl, scan_of_startsName lineComments hstarts (take_three_ne_cdc hends hcdc)⟩

theorem exists_scan_url (lineComments : Bool) {name : Text} (hname : name.isKeyword "url" = true)
    (inner : Text) :
    ∃ c cs, name = c :: cs ∧
      scan lineComments c (cs ++ '(' :: inner) = scanIdentLike (name ++ '(' :: inner) := by
  obtain ⟨hends, hstarts, -⟩ := @nameEnds_url _ hname ('(' :: inner) rfl
  exact exists_scan_name lineComments hends hstarts fun _ => by simp

theorem exists_scan_numeral (lineComments : Bool) {numeral follow : Text}
    (hstarts : startsNumeral (numeral ++ follow) = true) (hends : NumeralEnds numeral follow) :
    ∃ c cs, numeral = c :: cs ∧
      scan lineComments c (cs ++ follow) = scanNumeric (numeral ++ follow) := by
  have hne : numeral ≠ [] := by
    rintro rfl
    have := numeralLength_pos hstarts
    rw [show numeralLength ([] ++ follow) = 0 from hends] at this
    contradiction
  obtain ⟨c, cs, rfl⟩ := List.exists_cons_of_ne_nil hne
  exact ⟨c, cs, rfl, scan_numeral lineComments hstarts⟩

theorem isBlank_of_isQuote {c : Char} (h : isQuote c = true) : isBlank c = false := by
  obtain rfl | rfl : c = '"' ∨ c = '\'' := by simpa [isQuote] using h
  · rfl
  · rfl

/-- Of the blanks in front of the string of a quoted url, the last is no part of the token. -/
theorem OpensString.exists_quote {blanks follow : Text} (h : OpensString blanks follow)
    (hblanks : ∀ c ∈ blanks, isBlank c = true) :
    ∃ q rest, isQuote q = true ∧ blanksLength (blanks ++ follow) - 1 = blanks.length ∧
      (blanks ++ follow).drop (blanksLength (blanks ++ follow)) = q :: rest := by
  obtain ⟨rfl, q, rest, rfl, hq⟩ | ⟨b, q, rest, rfl, hb, hq⟩ := h
  · have hzero : blanksLength (q :: rest) = 0 := by simp [blanksLength, isBlank_of_isQuote hq]
    refine ⟨q, rest, hq, ?_, ?_⟩
    · rw [List.nil_append, hzero]
      rfl
    · rw [List.nil_append, hzero, List.drop_zero]
  · have hall : ∀ c ∈ blanks ++ [b], isBlank c = true := by
      intro c hc
      obtain hc | hc := List.mem_append.1 hc
      · exact hblanks c hc
      · rw [List.mem_singleton.1 hc, hb]
    have hlength : blanksLength (blanks ++ [b] ++ q :: rest) = (blanks ++ [b]).length :=
      blanksLength_append hall (by simpa using isBlank_of_isQuote hq)
    rw [← List.singleton_append, ← List.append_assoc, hlength, List.drop_left, List.length_append]
    exact ⟨q, rest, hq, rfl, rfl⟩

theorem scanIdentLike_quotedUrl {name blanks follow : Text} (hname : name.isKeyword "url" = true)
    (hblanks : ∀ c ∈ blanks, isBlank c = true) (hopens : OpensString blanks follow) :
    scanIdentLike (name ++ '(' :: (blanks ++ follow)) =
      { token := function name, length := name.length + 1 + blanks.length } := by
  obtain ⟨q, rest, hq, hlength, hdrop⟩ := hopens.exists_quote hblanks
  rw [scanIdentLike_bracket (nameEnds_url hname rfl).1, if_pos hname, hdrop, List.head?_cons,
    Option.map_some, Option.getD_some, hq, if_pos rfl, hlength]

theorem scanIdentLike_closedUrl {name before target after follow : Text}
    (hname : name.isKeyword "url" = true) (hbefore : ∀ c ∈ before, isBlank c = true)
    (hafter : ∀ c ∈ after, isBlank c = true)
    (htarget : chainLength urlUnit (target ++ (after ++ ')' :: follow)) = target.length)
    (hempty : target = [] → after = []) :
    scanIdentLike (name ++ '(' :: (before ++ (target ++ (after ++ ')' :: follow)))) =
      { token := url target
        length := name.length + 1 + before.length + target.length + after.length + 1 } := by
  have hhead : ∀ c ∈ (target ++ (after ++ ')' :: follow)).head?,
      isBlank c = false ∧ isQuote c = false := by
    intro d hd
    cases target with
    | nil =>
      rw [hempty rfl] at hd
      obtain rfl := Option.some.inj hd
      decide
    | cons e target => exact head?_url htarget (by simpa using hd)
  have hblanks : blanksLength (after ++ ')' :: follow) = after.length :=
    blanksLength_append hafter (by simp [isBlank, isNewline])
  have htail : (after ++ ')' :: follow).drop (blanksLength (after ++ ')' :: follow)) =
      ')' :: follow := by
    rw [hblanks, List.drop_left]
  rw [scanIdentLike_url hname hbefore hhead,
    scanUrl_closed (by rw [htarget, List.drop_left]) htail, htarget, List.take_left, hblanks]

theorem scanIdentLike_openUrl {name before target after : Text}
    (hname : name.isKeyword "url" = true) (hbefore : ∀ c ∈ before, isBlank c = true)
    (hafter : ∀ c ∈ after, isBlank c = true)
    (htarget : chainLength urlUnit (target ++ after) = target.length) (hne : target ≠ [])
    (hend : after ≠ []) :
    scanIdentLike (name ++ '(' :: (before ++ (target ++ after))) =
      { token := url target
        length := name.length + 1 + before.length + target.length + after.length } := by
  obtain ⟨d, tail, rfl⟩ := List.exists_cons_of_ne_nil hne
  have hhead : ∀ c ∈ (d :: tail ++ after).head?, isBlank c = false ∧ isQuote c = false :=
    fun c hc => head?_url htarget hc
  have hblanks : blanksLength after = after.length := by
    have := @blanksLength_append _ hafter [] (by simp)
    simpa using this
  obtain ⟨e, tail', rfl⟩ := List.exists_cons_of_ne_nil hend
  have hdrop : (e :: tail').drop (e :: tail').length = [] := List.drop_length
  rw [scanIdentLike_url hname hbefore hhead, scanUrl]
  simp only [htarget, List.drop_left, List.take_left, hblanks, hdrop]

/-- A character that is a token on its own is scanned as one. -/
theorem scan_of_delimEnds {lineComments : Bool} {follow : Text} {c : Char}
    (h : DelimEnds lineComments follow c) :
    scan lineComments c follow = { token := delim c, length := 1 } := by
  unfold DelimEnds at h
  split at h
  · exact scan_slash lineComments h.1 h.2
  · rw [scan_hash, if_pos h]
  · rw [scan_at, h]
    rfl
  · exact scan_less lineComments h
  · rw [scan_hyphen _ h.1, h.2]
    · rfl
    · intro hcdc
      obtain ⟨rest, rfl⟩ : ∃ rest, follow = '-' :: rest := by
        rcases follow with _ | ⟨a, follow⟩
        · contradiction
        · exact ⟨follow, by rw [(List.cons.inj hcdc).1]⟩
      exact absurd h.2 (by simp [startsName])
  · exact scan_sign lineComments (.inl rfl) h
  · exact scan_sign lineComments (.inr rfl) h
  · exact scan_of_not_startsToken lineComments h follow

/-- Characters that spell a token are scanned as that token. -/
theorem Spells.scan_eq {lineComments : Bool} {follow raw : Text} {token : Token}
    (h : Spells lineComments follow token raw) :
    ∃ c cs, raw = c :: cs ∧
      scan lineComments c (cs ++ follow) = { token, length := raw.length } := by
  cases h with
  | single hchar => exact ⟨_, [], rfl, scan_of_ofChar? lineComments hchar follow⟩
  | whitespace hne hblanks hfollow =>
    obtain ⟨c, cs, rfl⟩ := List.exists_cons_of_ne_nil hne
    refine ⟨c, cs, rfl, ?_⟩
    rw [scan_of_isBlank lineComments (hblanks c List.mem_cons_self),
      blanksLength_append (fun d hd => hblanks d (List.mem_cons_of_mem c hd)) hfollow,
      List.length_cons, Nat.add_comm]
  | number hstarts hends hname hpercent =>
    obtain ⟨c, cs, rfl, hscan⟩ := exists_scan_numeral lineComments hstarts hends
    refine ⟨c, cs, rfl, ?_⟩
    rw [hscan, scanNumeric_append (List.cons_ne_nil c cs) hends, hname, if_neg (by decide),
      if_neg hpercent]
  | percentage hstarts hends =>
    obtain ⟨c, cs, rfl, hscan⟩ := exists_scan_numeral lineComments hstarts hends
    refine ⟨c, cs ++ ['%'], rfl, ?_⟩
    rw [List.append_assoc, List.singleton_append, hscan,
      scanNumeric_append (List.cons_ne_nil c cs) hends,
      if_neg (by simp [startsName, startsPlainName, isNameStart, escapeLength])]
    simp
  | @dimension numeral unit hstarts hends hname hunit =>
    obtain ⟨c, cs, rfl, hscan⟩ := exists_scan_numeral lineComments hstarts hends
    have hlength : nameLength (unit ++ follow) = unit.length := hunit
    refine ⟨c, cs ++ unit, rfl, ?_⟩
    rw [List.append_assoc, hscan, scanNumeric_append (List.cons_ne_nil c cs) hends, hname,
      if_pos rfl, hlength, List.take_left, List.length_append]
  | @string content quote hcontent =>
    refine ⟨quote.toChar, content ++ [quote.toChar], rfl, ?_⟩
    rw [scan_quote, List.append_assoc, List.singleton_append, scanString]
    simp only [hcontent, List.take_left, List.drop_left, beq_self_eq_true, if_true]
    simp [Nat.add_comm]
  | @hash name hne hends =>
    have hlength : nameLength (name ++ follow) = name.length := hends
    refine ⟨'#', name, rfl, ?_⟩
    rw [scan_hash, hlength, if_neg (by simpa using hne), List.take_left, List.length_cons,
      Nat.add_comm]
  | @atKeyword name hstarts hends =>
    have hlength : nameLength (name ++ follow) = name.length := hends
    refine ⟨'@', name, rfl, ?_⟩
    rw [scan_at, hlength, if_pos hstarts, List.take_left, List.length_cons, Nat.add_comm]
  | cdo => exact ⟨'<', ['!', '-', '-'], rfl, scan_cdo lineComments follow⟩
  | cdc => exact ⟨'-', ['-', '>'], rfl, scan_cdc lineComments follow⟩
  | ident hstarts hends hbracket hcdc =>
    obtain ⟨c, cs, rfl, hscan⟩ := exists_scan_name lineComments hends hstarts hcdc
    exact ⟨c, cs, rfl, hscan.trans (scanIdentLike_ident hends hbracket)⟩
  | function hstarts hends hurl =>
    obtain ⟨c, cs, rfl, hscan⟩ := exists_scan_name lineComments hends hstarts fun _ => by simp
    refine ⟨c, cs ++ ['('], rfl, ?_⟩
    rw [List.append_assoc, List.singleton_append, hscan, scanIdentLike_bracket hends, hurl,
      if_neg (by decide)]
    simp
  | @quotedUrl name blanks hname hblanks hopens =>
    obtain ⟨c, cs, rfl, hscan⟩ := exists_scan_url lineComments hname (blanks ++ follow)
    refine ⟨c, cs ++ '(' :: blanks, rfl, ?_⟩
    rw [List.append_assoc, List.cons_append, hscan, scanIdentLike_quotedUrl hname hblanks hopens]
    simp
    omega
  | @url name before target after hname hbefore hafter htarget hempty =>
    obtain ⟨c, cs, rfl, hscan⟩ := exists_scan_url lineComments hname
      (before ++ (target ++ (after ++ ')' :: follow)))
    refine ⟨c, cs ++ '(' :: (before ++ (target ++ (after ++ [')']))), rfl, ?_⟩
    have hraw : cs ++ '(' :: (before ++ (target ++ (after ++ [')']))) ++ follow =
        cs ++ '(' :: (before ++ (target ++ (after ++ ')' :: follow))) := by simp
    rw [hraw, hscan, scanIdentLike_closedUrl hname hbefore hafter htarget hempty]
    simp
    omega
  | @openUrl name before target after hname hbefore hafter htarget hne hne' hend =>
    obtain ⟨c, cs, rfl, hscan⟩ := exists_scan_url lineComments hname
      (before ++ (target ++ after))
    refine ⟨c, cs ++ '(' :: (before ++ (target ++ after)), rfl, ?_⟩
    rw [hend, List.append_nil, List.cons_append, hscan,
      scanIdentLike_openUrl hname hbefore hafter htarget hne hne']
    simp
    omega
  | @delim c hends => exact ⟨c, [], rfl, scan_of_delimEnds hends⟩

/-! ### Spelling a scanned token -/

def Scan.IsSpelled (lineComments : Bool) (text : Text) (scan : Scan) : Prop :=
  Spells lineComments (text.drop scan.length) scan.token (text.take scan.length)

theorem isSpelled_scanNumeric (lineComments : Bool) {text : Text}
    (hstarts : startsNumeral text = true) :
    Scan.IsSpelled lineComments text (scanNumeric text) := by
  have hends := numeralEnds_take text
  have hsplit := List.take_append_drop (numeralLength text) text
  have hne := take_numeralLength_ne_nil hstarts
  generalize text.take (numeralLength text) = numeral at hends hsplit hne
  generalize text.drop (numeralLength text) = follow at hends hsplit
  subst hsplit
  rw [scanNumeric_append hne hends, Scan.IsSpelled]
  split
  · rename_i hname
    have hunit := nameEnds_take follow
    have hsplit := List.take_append_drop (nameLength follow) follow
    simp only [List.drop_append, List.take_append, Nat.add_sub_cancel_left]
    rw [List.drop_eq_nil_of_le (Nat.le_add_right ..), List.nil_append,
      List.take_of_length_le (Nat.le_add_right ..)]
    refine .dimension ?_ ?_ ?_ hunit
    · rw [hsplit]; exact hstarts
    · rw [hsplit]; exact hends
    · rw [hsplit]; exact hname
  rename_i hname
  split
  · rename_i hpercent
    obtain ⟨rest, rfl⟩ := List.head?_eq_some_iff.1 hpercent
    have hdrop : (numeral ++ '%' :: rest).drop (numeral.length + 1) = rest := by
      simp [List.drop_append]
    have htake : (numeral ++ '%' :: rest).take (numeral.length + 1) = numeral ++ ['%'] := by
      simp [List.take_append, List.take_of_length_le]
    simp only [hdrop, htake]
    exact .percentage hstarts hends
  · rename_i hpercent
    simp only [List.drop_left, List.take_left]
    exact .number hstarts hends (Bool.eq_false_iff.2 hname) hpercent

theorem isSpelled_scanString (lineComments : Bool) {quote : Quote} {text : Text}
    (hproblem : (scanString quote text).problem = none) :
    Scan.IsSpelled lineComments (quote.toChar :: text) (scanString quote text) := by
  have hsplit := List.take_append_drop (chainLength (stringUnit quote) text) text
  have hlength : (text.take (chainLength (stringUnit quote) text)).length =
      chainLength (stringUnit quote) text := by
    rw [List.length_take, Nat.min_eq_left (chainLength_le (stringUnit_le quote) text)]
  unfold scanString at hproblem ⊢
  simp only at hproblem ⊢
  generalize htake : text.take (chainLength (stringUnit quote) text) = content at *
  split at hproblem
  · contradiction
  · rename_i c rest hdrop
    split at hproblem
    · rename_i hc
      obtain rfl : c = quote.toChar := by simpa using hc
      simp only [beq_self_eq_true, if_true, Scan.IsSpelled]
      rw [hdrop] at hsplit
      rw [← hlength, ← hsplit]
      have hdrop' : (quote.toChar :: (content ++ quote.toChar :: rest)).drop
          (1 + content.length + 1) = rest := by
        simp [Nat.add_comm 1, List.drop_append]
      have htake' : (quote.toChar :: (content ++ quote.toChar :: rest)).take
          (1 + content.length + 1) = quote.toChar :: (content ++ [quote.toChar]) := by
        simp [Nat.add_comm 1, List.take_append, List.take_of_length_le]
      rw [hdrop', htake']
      exact .string (by rw [hsplit, hlength])
    · contradiction

/-- The blanks at the front of a text, and what follows them. -/
theorem exists_blanks (text : Text) :
    ∃ blanks tail, text = blanks ++ tail ∧ blanksLength text = blanks.length ∧
      (∀ c ∈ blanks, isBlank c = true) ∧ ∀ c ∈ tail.head?, isBlank c = false := by
  refine ⟨text.takeWhile isBlank, text.dropWhile isBlank, List.takeWhile_append_dropWhile.symm,
    rfl, fun c hc => List.all_eq_true.1 (List.all_takeWhile) c hc, fun c hc => ?_⟩
  have hdrop := List.head?_dropWhile_not isBlank text
  rw [Option.mem_def.1 hc] at hdrop
  simpa using hdrop

theorem isSpelled_scanUrl (lineComments : Bool) {name before text : Text}
    (hname : name.isKeyword "url" = true) (hbefore : ∀ c ∈ before, isBlank c = true)
    (hhead : ∀ c ∈ text.head?, isBlank c = false)
    (hproblem : (scanUrl (name.length + 1 + before.length) text).problem = none) :
    Scan.IsSpelled lineComments (name ++ '(' :: (before ++ text))
      (scanUrl (name.length + 1 + before.length) text) := by
  have hsplit := List.take_append_drop (chainLength urlUnit text) text
  have hlength : (text.take (chainLength urlUnit text)).length = chainLength urlUnit text := by
    rw [List.length_take, Nat.min_eq_left (chainLength_le urlUnit_le text)]
  have hcut : ∀ (front rest : Text),
      (name ++ '(' :: (before ++ (front ++ rest))).take
          (name.length + 1 + before.length + front.length) = name ++ '(' :: (before ++ front) ∧
        (name ++ '(' :: (before ++ (front ++ rest))).drop
          (name.length + 1 + before.length + front.length) = rest := by
    intro front rest
    have hwhole : name ++ '(' :: (before ++ (front ++ rest)) =
        (name ++ '(' :: (before ++ front)) ++ rest := by simp
    have hlength : name.length + 1 + before.length + front.length =
        (name ++ '(' :: (before ++ front)).length := by simp; omega
    rw [hwhole, hlength, List.take_left, List.drop_left]
    exact ⟨rfl, rfl⟩
  unfold scanUrl at hproblem ⊢
  simp only at hproblem ⊢
  generalize htake : text.take (chainLength urlUnit text) = target at *
  generalize hdrop : text.drop (chainLength urlUnit text) = rest at *
  split at hproblem
  · contradiction
  rename_i rest' hrest
  obtain ⟨after, tail, rfl, hblanks, hafter, htail⟩ := exists_blanks rest
  simp only [hblanks, List.drop_left] at hproblem ⊢
  rw [← hlength] at hproblem ⊢
  rw [← hsplit]
  have htarget : chainLength urlUnit (target ++ (after ++ tail)) = target.length := by
    rw [hsplit, hlength]
  split at hproblem
  · -- The text ends behind blanks.
    rw [List.append_nil] at hrest htarget ⊢
    have hne : target ≠ [] := by
      rintro rfl
      obtain ⟨c, after, rfl⟩ := List.exists_cons_of_ne_nil (fun hnil => hrest hnil)
      have hblank := hafter c List.mem_cons_self
      rw [hhead c (by rw [← hsplit]; rfl)] at hblank
      exact absurd hblank Bool.false_ne_true
    obtain ⟨htake, hdrop⟩ := hcut (target ++ after) []
    simp only [List.append_nil, List.length_append, ← Nat.add_assoc] at htake hdrop
    rw [Scan.IsSpelled, htake, hdrop]
    exact .openUrl hname hbefore hafter htarget hne (fun hnil => hrest hnil) rfl
  · rename_i rest
    have hempty : target = [] → after = [] := by
      rintro rfl
      cases after with
      | nil => rfl
      | cons c after =>
        have hblank := hafter c List.mem_cons_self
        rw [hhead c (by rw [← hsplit]; rfl)] at hblank
        contradiction
    obtain ⟨htake, hdrop⟩ := hcut (target ++ (after ++ [')'])) rest
    simp only [List.append_assoc, List.singleton_append, List.length_append, List.length_singleton,
      ← Nat.add_assoc] at htake hdrop
    rw [Scan.IsSpelled, htake, hdrop]
    exact .url hname hbefore hafter htarget hempty
  · contradiction

theorem isSpelled_scanIdentLike (lineComments : Bool) {text : Text}
    (hstarts : startsName text = true) (hcdc : text.take 3 ≠ ['-', '-', '>'])
    (hproblem : (scanIdentLike text).problem = none) :
    Scan.IsSpelled lineComments text (scanIdentLike text) := by
  have hends := nameEnds_take text
  have hsplit := List.take_append_drop (nameLength text) text
  generalize text.take (nameLength text) = name at hends hsplit
  generalize text.drop (nameLength text) = follow at hends hsplit
  subst hsplit
  by_cases hbracket : follow.head? = some '('
  · obtain ⟨inner, rfl⟩ := List.head?_eq_some_iff.1 hbracket
    rw [scanIdentLike_bracket hends] at hproblem ⊢
    obtain ⟨blanks, tail, rfl, hlength, hblanks, htail⟩ := exists_blanks inner
    simp only [hlength, List.drop_left] at hproblem ⊢
    cases hname : Text.isKeyword name "url" with
    | false =>
      have htake : (name ++ '(' :: (blanks ++ tail)).take (name.length + 1) = name ++ ['('] := by
        simp [List.take_append, List.take_of_length_le]
      have hdrop : (name ++ '(' :: (blanks ++ tail)).drop (name.length + 1) = blanks ++ tail := by
        simp [List.drop_append]
      simp only [Bool.false_eq_true, if_false, Scan.IsSpelled, htake, hdrop]
      exact .function hstarts hends hname
    | true =>
      simp only [hname, if_true] at hproblem ⊢
      split at hproblem
      · rename_i hquote
        obtain ⟨q, rest, rfl, hq⟩ : ∃ q rest, tail = q :: rest ∧ isQuote q = true := by
          cases tail with
          | nil => exact absurd hquote Bool.false_ne_true
          | cons q rest => exact ⟨q, rest, rfl, hquote⟩
        rw [if_pos hquote, Scan.IsSpelled]
        rcases List.eq_nil_or_concat blanks with rfl | ⟨front, b, rfl⟩
        · have htake :
              (name ++ '(' :: ([] ++ q :: rest)).take (name.length + 1) = name ++ ['('] := by
            simp [List.take_append, List.take_of_length_le]
          have hdrop : (name ++ '(' :: ([] ++ q :: rest)).drop (name.length + 1) = q :: rest := by
            simp [List.drop_append]
          simp only [List.length_nil, Nat.zero_sub, Nat.add_zero, htake, hdrop]
          exact .quotedUrl hname (by simp) (.inl ⟨rfl, q, rest, rfl, hq⟩)
        · have hwhole : name ++ '(' :: (front ++ [b] ++ q :: rest) =
              (name ++ '(' :: front) ++ b :: q :: rest := by simp
          have hlength : name.length + 1 + ((front ++ [b]).length - 1) =
              (name ++ '(' :: front).length := by simp; omega
          rw [List.concat_eq_append, hwhole, hlength, List.take_left, List.drop_left]
          refine .quotedUrl hname (fun c hc => hblanks c (by simp [hc]))
            (.inr ⟨b, q, rest, rfl, hblanks b (by simp), hq⟩)
      · rename_i hquote
        rw [if_neg hquote]
        exact isSpelled_scanUrl lineComments hname hblanks htail hproblem
  · rw [scanIdentLike_ident hends hbracket, Scan.IsSpelled]
    simp only [List.take_left, List.drop_left]
    refine .ident hstarts hends hbracket ?_
    rintro rfl hclose
    obtain ⟨rest, rfl⟩ := List.head?_eq_some_iff.1 hclose
    exact hcdc rfl

theorem isSpelled_scan_slash (lineComments : Bool) {cs : Text}
    (hcomment : ∀ content, (scan lineComments '/' cs).token ≠ comment content) :
    Scan.IsSpelled lineComments ('/' :: cs) (scan lineComments '/' cs) := by
  by_cases hstar : cs.head? = some '*'
  · obtain ⟨rest, rfl⟩ := List.head?_eq_some_iff.1 hstar
    refine absurd ?_ (hcomment (rest.take (commentLength rest)))
    rw [scan_comment, scanComment]
    split <;> rfl
  by_cases hslash : cs.head? ≠ some '/' ∨ lineComments = false
  · rw [scan_slash lineComments hstar hslash]
    exact .delim ⟨hstar, hslash⟩
  · obtain ⟨hslash, hon⟩ := not_or.1 hslash
    obtain ⟨rest, rfl⟩ := List.head?_eq_some_iff.1 (Decidable.not_not.1 hslash)
    refine absurd ?_ (hcomment (rest.takeWhile fun c => !isNewline c))
    have hon : lineComments = true := by simpa using hon
    rw [scan_lineComment, hon]
    rfl

theorem isSpelled_scan_blank (lineComments : Bool) {c : Char} (hblank : isBlank c = true)
    (cs : Text) : Scan.IsSpelled lineComments (c :: cs) (scan lineComments c cs) := by
  obtain ⟨blanks, tail, rfl, hlength, hblanks, htail⟩ := exists_blanks cs
  rw [scan_of_isBlank _ hblank, hlength, Nat.add_comm, Scan.IsSpelled]
  simp only [List.drop_succ_cons, List.take_succ_cons, List.drop_left, List.take_left]
  refine .whitespace (List.cons_ne_nil c blanks) ?_ htail
  intro d hd
  obtain rfl | hd := List.mem_cons.1 hd
  · exact hblank
  · exact hblanks d hd

theorem isSpelled_scan_hash (lineComments : Bool) (cs : Text) :
    Scan.IsSpelled lineComments ('#' :: cs) (scan lineComments '#' cs) := by
  rw [scan_hash]
  split
  · exact .delim ‹_›
  · have hends := nameEnds_take cs
    have hsplit := List.take_append_drop (nameLength cs) cs
    have hname : cs.take (nameLength cs) ≠ [] := by
      intro hnil
      have hlength := congrArg List.length hnil
      have := nameLength_le cs
      simp only [List.length_take, List.length_nil] at hlength
      omega
    have hspells : Spells lineComments (cs.drop (nameLength cs)) _ _ := .hash hname hends
    rw [hsplit] at hspells
    rw [Scan.IsSpelled, Nat.add_comm]
    exact hspells

theorem isSpelled_scan_at (lineComments : Bool) (cs : Text) :
    Scan.IsSpelled lineComments ('@' :: cs) (scan lineComments '@' cs) := by
  rw [scan_at]
  split
  · rename_i hstarts
    have hends := nameEnds_take cs
    rw [← List.take_append_drop (nameLength cs) cs] at hstarts
    rw [Scan.IsSpelled, Nat.add_comm]
    exact .atKeyword hstarts hends
  · exact .delim (Bool.eq_false_iff.2 ‹_›)

theorem isSpelled_scan_less (lineComments : Bool) (cs : Text) :
    Scan.IsSpelled lineComments ('<' :: cs) (scan lineComments '<' cs) := by
  by_cases hopens : cs.take 3 = ['!', '-', '-']
  · obtain ⟨after, rfl⟩ : ∃ after, cs = '!' :: '-' :: '-' :: after :=
      ⟨cs.drop 3, by rw [← List.take_append_drop 3 cs, hopens]; rfl⟩
    exact .cdo
  · rw [scan_less _ hopens]
    exact .delim hopens

/-- A token that is no comment and has no fault is spelled by its characters. -/
theorem isSpelled_scan (lineComments : Bool) {c : Char} {cs : Text}
    (hproblem : (scan lineComments c cs).problem = none)
    (hcomment : ∀ content, (scan lineComments c cs).token ≠ comment content) :
    Scan.IsSpelled lineComments (c :: cs) (scan lineComments c cs) := by
  cases hchar : ofChar? c with
  | some token =>
    rw [scan_of_ofChar? _ hchar]
    exact .single hchar
  | none =>
  by_cases hblank : isBlank c = true
  · exact isSpelled_scan_blank lineComments hblank cs
  by_cases hnumeral : startsNumeral (c :: cs) = true
  · rw [scan_numeral _ hnumeral]
    exact isSpelled_scanNumeric lineComments hnumeral
  by_cases hslash : c = '/'
  · subst hslash
    exact isSpelled_scan_slash lineComments hcomment
  by_cases hquote : ∃ quote : Quote, c = quote.toChar
  · obtain ⟨quote, rfl⟩ := hquote
    rw [scan_quote] at hproblem ⊢
    exact isSpelled_scanString lineComments hproblem
  by_cases hhash : c = '#'
  · subst hhash
    exact isSpelled_scan_hash lineComments cs
  by_cases hat : c = '@'
  · subst hat
    exact isSpelled_scan_at lineComments cs
  by_cases hless : c = '<'
  · subst hless
    exact isSpelled_scan_less lineComments cs
  rw [Bool.not_eq_true] at hnumeral
  by_cases hcdc : (c :: cs).take 3 = ['-', '-', '>']
  · obtain ⟨after, hafter⟩ : ∃ after, c :: cs = '-' :: '-' :: '>' :: after :=
      ⟨(c :: cs).drop 3, by rw [← List.take_append_drop 3 (c :: cs), hcdc]; rfl⟩
    obtain ⟨rfl, rfl⟩ := List.cons.inj hafter
    exact .cdc
  by_cases hname : startsName (c :: cs) = true
  · rw [scan_of_startsName _ hname hcdc] at hproblem ⊢
    exact isSpelled_scanIdentLike lineComments hname hcdc hproblem
  rw [Bool.not_eq_true] at hname
  by_cases hhyphen : c = '-'
  · subst hhyphen
    rw [scan_hyphen _ hnumeral, hname]
    · exact .delim ⟨hnumeral, hname⟩
    · intro htake
      exact hcdc (by rw [List.take_succ_cons, htake])
  by_cases hbackslash : c = '\\'
  · subst hbackslash
    rw [scan_backslash, hname] at hproblem
    contradiction
  by_cases hsign : c = '+' ∨ c = '.'
  · rw [scan_sign _ hsign hnumeral]
    obtain rfl | rfl := hsign
    · exact .delim hnumeral
    · exact .delim hnumeral
  have hdigit : c.isDigit = false := by
    cases hdigit : c.isDigit with
    | false => rfl
    | true => rw [startsNumeral_of_isDigit hdigit cs] at hnumeral; contradiction
  have hstart : isNameStart c = false := by
    cases hstart : isNameStart c with
    | false => rfl
    | true => rw [startsName_of_isNameStart hstart cs] at hname; contradiction
  have hother : startsToken c = false := by
    have hdouble : c ≠ '"' := fun hc => hquote ⟨.double, hc⟩
    have hsingle : c ≠ '\'' := fun hc => hquote ⟨.single, hc⟩
    obtain ⟨hplus, hpoint⟩ := not_or.1 hsign
    simp [startsToken, *]
  rw [scan_of_not_startsToken _ hother]
  refine .delim ?_
  unfold DelimEnds
  split <;> first | contradiction | exact hother

end Token

end Css
