import Css.Proofs.Number.Text
import Css.Proofs.Token.Respaced

/-!
# Tokens in fewest characters

Minified output writes a number by its value. A token that is written so stays what it is where it
does not go on with what stands behind it then (`Token.Spells.minified`), and only there
(`Token.Spells.joins_eq_false`): what was written behind it did not go on with it, and starts with
nothing new now but the digits or the point of a number (`Reduces`).
-/

namespace Css

/-! ### Numerals in fewest digits -/

namespace Numeric

def minified (numeric : Numeric) : Numeric := .ofText (numeric.toText .minified)

theorem isFinite_ofText (numeral : Text) : (ofText numeral).value.isFinite = true :=
  Number.isFinite_nearestFinite _

/-- Only what starts with a minus is read as a negative number. -/
theorem head?_of_negative {numeral : Text} (h : (ofText numeral).value.negative = true) :
    numeral.head? = some '-' := by
  have hnegative : ((Number.read? numeral).getD Number.zero).negative = true := h
  cases hread : Number.read? numeral with
  | none =>
    rw [hread] at hnegative
    contradiction
  | some x =>
    rw [hread, Option.getD_some] at hnegative
    unfold Number.read? at hread
    obtain ⟨decimal, -, rfl⟩ := Option.map_eq_some_iff.1 hread
    have hsign : (Number.splitSign numeral).1 = true := hnegative
    unfold Number.splitSign at hsign
    split at hsign
    · rfl
    · contradiction
    · contradiction

theorem toText_ofText (numeral : Text) :
    (ofText numeral).toText .minified =
      (if numeral.head? = some '+' then ['+'] else []) ++
        Style.minified.number (ofText numeral).value := rfl

/-- What is written for the value of a numeral has a minus only if the numeral had one. -/
theorem exists_isNumeral (numeral : Text) :
    ∃ sign whole fraction, IsNumeral (Style.minified.number (ofText numeral).value)
      (ofText numeral).value sign whole fraction ∧
        (sign = ['-'] → numeral.head? = some '-') ∧ (numeral.head? = some '+' → sign = []) := by
  obtain ⟨sign, whole, fraction, hnumeral⟩ :=
    Style.minified.exists_isNumeral (isFinite_ofText numeral)
  have hminus : sign = ['-'] → numeral.head? = some '-' := by
    rintro rfl
    refine head?_of_negative (Number.negative_of_unsigned ?_)
    rw [← hnumeral.value_eq]
    rfl
  refine ⟨sign, whole, fraction, hnumeral, hminus, fun hplus => ?_⟩
  refine hnumeral.sign_eq.resolve_right fun hsign => ?_
  rw [hminus hsign] at hplus
  contradiction

/-- In fewest digits a numeral has a sign or none in front of positional digits. -/
theorem exists_isSigned (numeral : Text) :
    ∃ sign whole fraction, IsSigned ((ofText numeral).toText .minified) sign whole fraction ∧
      (sign = ['-'] → numeral.head? = some '-') := by
  obtain ⟨sign, whole, fraction, hnumeral, hminus, hsign⟩ := exists_isNumeral numeral
  rw [toText_ofText]
  split
  · rename_i hplus
    obtain rfl := hsign hplus
    refine ⟨['+'], whole, fraction, ⟨?_, .inr (.inr rfl), hnumeral.isDigit, hnumeral.ne_nil⟩,
      fun heq => absurd heq (by decide)⟩
    rw [hnumeral.text_eq]
    rfl
  · rw [List.nil_append]
    exact ⟨sign, whole, fraction, hnumeral.isSigned, hminus⟩

/-- A numeral in fewest digits is read as the same number; a zero loses its sign. -/
theorem value_minified (numeral : Text) :
    (ofText numeral).minified.value = (ofText numeral).value.unsigned := by
  have hvalue := value_ofText_number .minified (isFinite_ofText numeral)
  rw [minified, toText_ofText]
  split
  · rename_i hplus
    obtain ⟨sign, whole, fraction, hnumeral, -, hsign⟩ := exists_isNumeral numeral
    obtain rfl := hsign hplus
    have hsplit := Decimal.splitSign_positional hnumeral.isDigit hnumeral.ne_nil
    have htext := hnumeral.text_eq
    rw [List.nil_append] at htext
    have hread : Number.read? ('+' :: Style.minified.number (ofText numeral).value) =
        Number.read? (Style.minified.number (ofText numeral).value) := by
      rw [Number.read?, Number.read?, htext, hsplit, Number.splitSign]
    rw [List.singleton_append, ← hvalue]
    exact congrArg (fun read => (read.getD Number.zero).nearestFinite) hread
  · rw [List.nil_append]
    exact hvalue

end Numeric

/-! ### Tokens in fewest characters -/

namespace Token

def mapNumeric (f : Numeric → Numeric) : Token → Token
  | number numeric => number (f numeric)
  | percentage numeric => percentage (f numeric)
  | dimension numeric unit => dimension (f numeric) unit
  | token => token

def minified : Token → Token := mapNumeric Numeric.minified

/-- A token with the value of its numeral and nothing else of it; a zero has no sign. -/
def valued : Token → Token := mapNumeric fun numeric => ⟨numeric.value.unsigned, false, []⟩

theorem toText_minified (token : Token) :
    token.minified.toText .pretty = token.toText .minified := by
  cases token <;> rfl

theorem minified_eq_whitespace {token : Token} :
    token.minified = whitespace ↔ token = whitespace := by
  cases token <;> simp [minified, mapNumeric]

theorem minified_of_ofChar? {c : Char} {token : Token} (h : ofChar? c = some token) :
    token.minified = token := by
  unfold ofChar? at h
  split at h
  all_goals first
    | contradiction
    | (obtain rfl := Option.some.inj h; rfl)

def joins (token : Token) (follow : Text) : Bool :=
  match token with
  | number numeric =>
    startsDigit follow ||
      fractionLength follow != 0 && !(numeric.toText .minified).contains '.'
  -- the unit `e` reads as an exponent once the numeral has lost its own
  | dimension _ unit => startsDigit follow || exponentLength (unit ++ follow) != 0
  | ident _ => startsDigit follow
  | atKeyword _ => startsDigit follow
  | hash _ _ => startsDigit follow
  | delim '#' => startsDigit follow
  | delim c => startsNumeral (c :: follow)
  | _ => false

end Token

/-! ### What a text goes on with -/

/-- Whether a text goes on with no token that another one does not go on with, but for the digits
and the point of a number. -/
structure Reduces (x y : Text) : Prop where
  head : ∀ c, isBlank c = true ∨ c ∈ ['(', '%', '>', '*', '/', '-'] →
    y.head? = some c → x.head? = some c
  unit : nameUnit y ≠ 0 → startsDigit y = true ∨ nameUnit x ≠ 0
  name : startsName y = true → startsName x = true
  hyphen : startsName ('-' :: y) = true → startsName ('-' :: x) = true
  hyphens : y.take 2 = ['-', '-'] → x.take 2 = ['-', '-']
  markup : y.take 3 = ['!', '-', '-'] → x.take 3 = ['!', '-', '-']

namespace Reduces

variable {x y : Text}

theorem of_separates (h : Separates y) (hblank : ∀ c, y.head? = some c → isBlank c = false)
    (x : Text) : Reduces x y where
  head := by
    intro c hc hy
    refine hc.elim (fun hc => ?_) fun hmem => ?_
    · rw [hblank c hy] at hc
      contradiction
    · refine absurd ?_ (isNameChar_of_isSeparator (h c hy)).2.2
      simp only [List.mem_cons, List.not_mem_nil, or_false] at hmem ⊢
      obtain rfl | rfl | rfl | rfl | rfl | rfl := hmem <;> simp
  unit := fun hunit => .inr ((Alike.of_separates h x).unit hunit)
  name := (Alike.of_separates h x).name
  hyphen := (Alike.of_separates h x).hyphen
  hyphens := by
    intro htake
    cases y with
    | nil => exact absurd htake.symm (List.cons_ne_nil _ _)
    | cons c y =>
      obtain rfl : c = '-' := (List.cons.inj htake).1
      exact absurd (h '-' rfl) (by decide)
  markup := (Alike.of_separates h x).markup

/-- A number that has no minus starts with a character that goes on with no token but a number or a
name, and with a name only if it is a digit. -/
theorem numeral_head {c : Char} (h : c = '+' ∨ c = '.' ∨ c.isDigit = true) :
    isBlank c = false ∧ c ∉ ['(', '%', '>', '*', '/', '-', '!', '\\'] ∧ isNameStart c = false ∧
      (isNameChar c = true → c.isDigit = true) := by
  obtain rfl | rfl | hdigit := h
  · decide
  · decide
  · refine ⟨?_, ?_, ?_, fun _ => hdigit⟩
    · refine Bool.eq_false_iff.2 fun hblank => ?_
      simp only [isBlank, isNewline, Bool.or_eq_true, beq_iff_eq] at hblank
      obtain (((rfl | rfl) | rfl) | rfl) | rfl := hblank <;> contradiction
    · intro hmem
      simp only [List.mem_cons, List.not_mem_nil, or_false] at hmem
      obtain rfl | rfl | rfl | rfl | rfl | rfl | rfl | rfl := hmem <;> contradiction
    · refine Bool.eq_false_iff.2 fun hstart => ?_
      rw [Token.isDigit_eq_false_of_isNameStart hstart] at hdigit
      contradiction

/-- Where a number starts the other text has its minus, if it has one. -/
theorem of_numeral (hy : startsNumeral y = true)
    (hminus : y.head? = some '-' → x.head? = some '-') : Reduces x y := by
  have hname : startsName y ≠ true := by
    intro hname
    rw [Token.startsNumeral_eq_false_of_startsName hname] at hy
    contradiction
  have hhyphens : y.take 2 ≠ ['-', '-'] := by
    intro htake
    obtain ⟨rest, rfl⟩ : ∃ rest, y = '-' :: '-' :: rest :=
      ⟨y.drop 2, by rw [← List.take_append_drop 2 y, htake]; rfl⟩
    exact hname rfl
  obtain ⟨c, y, rfl⟩ := List.exists_cons_of_ne_nil (by rintro rfl; contradiction : y ≠ [])
  by_cases hc : c = '-'
  · subst hc
    obtain ⟨x, rfl⟩ := List.head?_eq_some_iff.1 (hminus rfl)
    refine ⟨fun _ _ h => h, fun _ => .inr (by simp [nameUnit, isNameChar]), fun h => absurd h hname,
      fun _ => rfl, fun h => absurd h hhyphens, fun h => ?_⟩
    exact absurd (List.cons.inj h).1 (by decide)
  · obtain ⟨hblank, hother, hstart, hchar⟩ := numeral_head
      ((Token.startsNumeral_cons hy).imp_right fun h => h.resolve_left hc)
    have hbackslash : c ≠ '\\' := by
      rintro rfl
      exact hother (by decide)
    refine ⟨?_, fun hunit => .inl ?_, fun h => absurd h hname, ?_, fun h => absurd h hhyphens, ?_⟩
    · rintro d (hd | hd) heq
      · obtain rfl := Option.some.inj heq
        rw [hblank] at hd
        contradiction
      · obtain rfl := Option.some.inj heq
        exact absurd (List.mem_append_left ['!', '\\'] hd) hother
    · rw [nameUnit_of_ne hbackslash] at hunit
      split at hunit
      · exact hchar ‹_›
      · contradiction
    · intro hhyphen
      rw [startsName_hyphen hc, startsPlainName, hstart] at hhyphen
      simp [escapeLength, hbackslash] at hhyphen
    · intro htake
      obtain rfl : c = '!' := (List.cons.inj htake).1
      exact absurd (by decide) hother

theorem append {front : Text} (hne : front ≠ []) (hone : front ≠ ['\\'])
    (htwo : front ≠ ['-', '\\']) (hmarkup : front.head? = some '!' → front = ['!'])
    (h : front = ['-'] ∨ front = ['!'] → Reduces x y) : Reduces (front ++ x) (front ++ y) := by
  rcases front with _ | ⟨a, _ | ⟨b, front⟩⟩
  · exact absurd rfl hne
  · have ha : a ≠ '\\' := fun ha => hone (by rw [ha])
    refine ⟨fun _ _ hc => hc, fun hunit => .inr ((nameUnit_ne_zero_congr (.inl ha)).1 hunit),
      startsName_cons_imp ha fun ha => (h (.inl (by rw [ha]))).hyphen,
      fun hname => (startsName_hyphen_congr (.inl ha)).symm.trans hname, ?_, ?_⟩
    · intro htake
      obtain ⟨rfl, hy⟩ := List.cons.inj htake
      cases y with
      | nil => contradiction
      | cons c y =>
        obtain rfl : c = '-' := (List.cons.inj hy).1
        have hhead := (h (.inl rfl)).head '-' (.inr (by decide)) rfl
        obtain ⟨x, rfl⟩ := List.head?_eq_some_iff.1 hhead
        rfl
    · intro htake
      obtain ⟨rfl, hy⟩ := List.cons.inj htake
      exact congrArg ('!' :: ·) ((h (.inr rfl)).hyphens hy)
  · refine ⟨fun _ _ hc => hc, fun hunit => .inr ?_,
      fun hname => (startsName_cons_cons_congr htwo).symm.trans hname,
      fun hname => (startsName_hyphen_congr (.inr ⟨b, _, _, rfl, rfl⟩)).symm.trans hname,
      fun htake => htake, fun htake => ?_⟩
    · exact (nameUnit_ne_zero_congr (.inr ⟨b, _, _, rfl, rfl⟩)).1 hunit
    · obtain rfl : a = '!' := (List.cons.inj htake).1
      exact absurd (hmarkup rfl) (by simp)

end Reduces

/-! ### Tokens that stay what they are -/

/-- A lexeme goes on with the same tokens whatever stands behind it, unless it is a hyphen or an
exclamation mark. -/
theorem Lexeme.IsScanned.reduces {lineComments : Bool} {lexeme : Lexeme} {x y : Text}
    (h : IsScanned lineComments lexeme x)
    (hreduces : lexeme.raw = ['-'] ∨ lexeme.raw = ['!'] → Reduces x y) :
    Reduces (lexeme.raw ++ x) (lexeme.raw ++ y) := by
  have hread : IsRead lineComments lexeme x := by
    obtain ⟨c, cs, hraw, hscan⟩ := h
    exact ⟨c, cs, hraw, by rw [hscan], by rw [hscan]⟩
  refine .append hread.raw_ne_nil ?_ hread.raw_ne_hyphen ?_ hreduces
  · intro hraw
    have hescape := hread.escapeLength_of_backslash hraw
    obtain ⟨c, cs, hcons, hscan⟩ := h
    obtain ⟨rfl, rfl⟩ := List.cons.inj (hraw.symm.trans hcons)
    rw [List.nil_append, Token.scan_backslash,
      if_neg (by simp [startsName, startsPlainName, isNameStart, hescape])] at hscan
    exact absurd (congrArg Scan.problem hscan) (by simp)
  · intro hhead
    obtain ⟨c, cs, hraw, hscan⟩ := h
    rw [hraw] at hhead
    obtain rfl := Option.some.inj hhead
    rw [Token.scan_of_not_startsToken _ (by decide)] at hscan
    have hlength : 1 = lexeme.raw.length := congrArg Scan.length hscan
    rw [hraw] at hlength ⊢
    rw [List.length_eq_zero_iff.1 (Nat.succ.inj hlength).symm]

namespace Token

variable {lineComments : Bool} {token : Token} {raw x y : Text}

theorem NameEnds.of_reduces {name : Text} (h : NameEnds name x) (hreduces : Reduces x y)
    (hdigit : startsDigit y = false) : NameEnds name y := by
  refine h.congr (Decidable.byContradiction fun hunit => ?_) fun c hc hblank =>
    hreduces.head c (.inl hblank) hc
  obtain hstarts | hunit := hreduces.unit hunit
  · rw [hdigit] at hstarts
    contradiction
  · exact hunit h.nameUnit_eq_zero

theorem DelimEnds.of_reduces {c : Char} (h : DelimEnds lineComments x c)
    (hreduces : Reduces x y) (hjoins : (delim c).joins y = false) : DelimEnds lineComments y c := by
  unfold DelimEnds at h ⊢
  split at h
  · exact ⟨fun hy => h.1 (hreduces.head '*' (.inr (by decide)) hy),
      h.2.imp_left fun hne hy => hne (hreduces.head '/' (.inr (by decide)) hy)⟩
  · exact NameEnds.of_reduces (show NameEnds [] x from h) hreduces hjoins
  · exact Bool.eq_false_iff.2 fun hy => Bool.eq_false_iff.1 h (hreduces.name hy)
  · exact fun hy => h (hreduces.markup hy)
  · exact ⟨hjoins, Bool.eq_false_iff.2 fun hy => Bool.eq_false_iff.1 h.2 (hreduces.hyphen hy)⟩
  · exact hjoins
  · exact hjoins
  · exact h

/-- A token that absorbs whitespace is scanned as itself whatever stands behind it, the bracket of a
quoted url in front of its string. -/
theorem Spells.of_absorbsAfter (h : Spells lineComments x token raw)
    (habsorbs : TokenRun.absorbsAfter token = true)
    (hopens : ∀ name, token = .function name → name.isKeyword "url" = true → OpensString [] y) :
    Spells lineComments y token.minified (token.toText .minified) := by
  cases h with
  | single hchar =>
    rw [minified_of_ofChar? hchar, toText_of_ofChar? hchar]
    exact .single hchar
  | @function name hstarts hends hurl =>
    have hends' : NameEnds name ('(' :: y) := hends.congr rfl fun c hc hblank => hc
    exact .function ((hends.startsName_congr hends' (hends.ne_nil hstarts)).trans hstarts) hends'
      hurl
  | quotedUrl hurl =>
    exact .quotedUrl hurl (List.forall_mem_nil _) (hopens _ rfl hurl)
  | _ => contradiction

/-- A token in fewest characters is scanned as itself where it does not go on with what stands
behind it now. -/
theorem Spells.minified (h : Spells lineComments x token raw) (hraw : token.toText .pretty = raw)
    (habsorbs : TokenRun.absorbsAfter token = false) (hreduces : Reduces x y)
    (hjoins : token.joins y = false) :
    Spells lineComments y token.minified (token.toText .minified) := by
  cases h with
  | single hchar =>
    rw [minified_of_ofChar? hchar, toText_of_ofChar? hchar]
    exact .single hchar
  | whitespace hne hblanks hfollow =>
    refine .whitespace (List.cons_ne_nil _ _) (List.forall_mem_singleton.2 rfl) fun c hc => ?_
    refine Bool.eq_false_iff.2 fun hblank => ?_
    rw [hfollow c (hreduces.head c (.inl hblank) hc)] at hblank
    contradiction
  | number _ _ hname hpercent =>
    obtain ⟨sign, whole, fraction, hsigned, -⟩ := Numeric.exists_isSigned raw
    obtain ⟨hdigit, hpoint⟩ := Bool.or_eq_false_iff.1 hjoins
    have hfraction : fraction = [] → fractionLength y = 0 := by
      intro hnil
      have hnone : '.' ∉ (Numeric.ofText raw).toText .minified :=
        fun hmem => hsigned.mem_point_iff.1 hmem hnil
      simpa [hnone] using hpoint
    have hname' : startsName y = false :=
      Bool.eq_false_iff.2 fun hy => Bool.eq_false_iff.1 hname (hreduces.name hy)
    have hexponent : exponentLength y = 0 := Decidable.byContradiction fun hne => by
      rw [startsName_of_exponentLength hne] at hname'
      contradiction
    exact .number (hsigned.startsNumeral_append y)
      (hsigned.numeralEnds_iff.2 ⟨hdigit, hfraction, hexponent⟩) hname' fun hy =>
        hpercent (hreduces.head '%' (.inr (by decide)) hy)
  | @percentage numeral =>
    obtain ⟨sign, whole, fraction, hsigned, -⟩ := Numeric.exists_isSigned numeral
    exact .percentage (hsigned.startsNumeral_append _) (hsigned.numeralEnds_percent y)
  | @dimension numeral unit _ _ hname hunit =>
    obtain ⟨sign, whole, fraction, hsigned, -⟩ := Numeric.exists_isSigned numeral
    obtain ⟨hdigit, hexponent⟩ := Bool.or_eq_false_iff.1 hjoins
    have hunit' := NameEnds.of_reduces hunit hreduces hdigit
    have hname' := (hunit.startsName_congr hunit' (hunit.ne_nil hname)).trans hname
    obtain ⟨hdigit', hfraction⟩ := no_fraction_of_startsName hname'
    exact .dimension (hsigned.startsNumeral_append _)
      (hsigned.numeralEnds_iff.2 ⟨hdigit', fun _ => hfraction, by simpa using hexponent⟩) hname'
      hunit'
  | string hcontent => exact .string (string_congr hcontent y)
  | @hash name hne hends =>
    have hends' := NameEnds.of_reduces hends hreduces hjoins
    have hspells : Spells lineComments y _ _ := .hash hne hends'
    rwa [hends.startsName_congr hends' hne] at hspells
  | atKeyword hstarts hends =>
    have hends' := NameEnds.of_reduces hends hreduces hjoins
    exact .atKeyword ((hends.startsName_congr hends' (hends.ne_nil hstarts)).trans hstarts) hends'
  | cdo => exact .cdo
  | cdc => exact .cdc
  | ident hstarts hends hbracket hcdc =>
    have hends' := NameEnds.of_reduces hends hreduces hjoins
    exact .ident ((hends.startsName_congr hends' (hends.ne_nil hstarts)).trans hstarts) hends'
      (fun hy => hbracket (hreduces.head '(' (.inr (by decide)) hy))
      fun heq hy => hcdc heq (hreduces.head '>' (.inr (by decide)) hy)
  | function => contradiction
  | quotedUrl => contradiction
  | @url name before target after hname hbefore hafter htarget hempty =>
    have hspells : Spells lineComments y (.url target) _ :=
      .url hname hbefore hafter (closedUrlLength_congr hafter htarget y) hempty
    rwa [← hraw] at hspells
  | @openUrl name before target after hname hbefore hafter htarget hne hafter' hnil =>
    obtain ⟨front, last, rfl⟩ := (List.eq_nil_or_concat after).resolve_left hafter'
    have hlast : Url.toText target = (name ++ '(' :: (before ++ (target ++ front))) ++ [last] := by
      rw [show Url.toText target = _ from hraw]
      simp
    obtain rfl : ')' = last := (List.cons.inj (List.append_inj' hlast rfl).2).1
    exact absurd (hafter ')' (by simp)) (by decide)
  | delim hends => exact .delim (hends.of_reduces hreduces hjoins)

theorem joins_delim_of_ends {c : Char} (h : DelimEnds lineComments y c) :
    (delim c).joins y = false := by
  by_cases hhash : c = '#'
  · subst hhash
    exact startsDigit_of_nameUnit (show NameEnds [] y from h).nameUnit_eq_zero
  · have hjoins : (delim c).joins y = startsNumeral (c :: y) := by simp [joins]
    rw [hjoins, Bool.eq_false_iff]
    intro hstarts
    have hscan := (scan_numeral lineComments hstarts).symm.trans (scan_of_delimEnds h)
    unfold scanNumeric at hscan
    simp only at hscan
    split at hscan
    · cases hscan
    · split at hscan <;> cases hscan

/-- What is scanned as a number, a dimension or a character on its own ends where it ends. -/
theorem Spells.ends (h : Spells lineComments x token raw) :
    match token with
    | .number _ => NumeralEnds raw x
    | .dimension _ unit => ∃ numeral, raw = numeral ++ unit ∧ NumeralEnds numeral (unit ++ x)
    | .delim c => DelimEnds lineComments x c
    | _ => True := by
  cases h with
  | single hchar =>
    unfold ofChar? at hchar
    split at hchar <;> (cases hchar; try trivial)
  | number _ hends => exact hends
  | dimension _ hends => exact ⟨_, rfl, hends⟩
  | delim hends => exact hends
  | _ => trivial

/-- A token that is scanned as itself in fewest characters does not go on with what stands behind
it. -/
theorem Spells.joins_eq_false (h : Spells lineComments x token raw)
    (hy : Spells lineComments y token.minified (token.toText .minified)) :
    token.joins y = false := by
  have hname : ∀ name, token.minified.endName? = some name → startsDigit y = false :=
    fun name hname => startsDigit_of_nameUnit (hy.nameEnds hname).1.nameUnit_eq_zero
  cases h with
  | single hchar =>
    unfold ofChar? at hchar
    split at hchar <;> (cases hchar; try rfl)
  | number =>
    obtain ⟨sign, whole, fraction, hsigned, -⟩ := Numeric.exists_isSigned raw
    obtain ⟨hdigit, hfraction, -⟩ := hsigned.numeralEnds_iff.1 hy.ends
    rw [joins, hdigit, Bool.false_or]
    by_cases hnil : fraction = []
    · rw [hfraction hnil]
      rfl
    · simp [hsigned.mem_point_iff.2 hnil]
  | @dimension numeral unit =>
    obtain ⟨sign, whole, fraction, hsigned, -⟩ := Numeric.exists_isSigned numeral
    obtain ⟨numeral', htext, hends⟩ := hy.ends
    obtain rfl := List.append_cancel_right htext
    rw [joins, hname unit rfl, (hsigned.numeralEnds_iff.1 hends).2.2]
    rfl
  | hash => exact hname _ rfl
  | atKeyword => exact hname _ rfl
  | ident => exact hname _ rfl
  | delim => exact joins_delim_of_ends hy.ends
  | _ => rfl

/-- A token that is scanned has the same value in fewest characters. -/
theorem Spells.valued_minified (h : Spells lineComments x token raw) :
    token.minified.valued = token.valued := by
  have hvalue : ∀ numeral : Text, (Numeric.ofText numeral).minified.value.unsigned =
      (Numeric.ofText numeral).value.unsigned := fun numeral => by
    rw [Numeric.value_minified, Number.unsigned_unsigned]
  cases h with
  | number => simp only [Token.minified, valued, mapNumeric, hvalue]
  | percentage => simp only [Token.minified, valued, mapNumeric, hvalue]
  | dimension => simp only [Token.minified, valued, mapNumeric, hvalue]
  | single hchar => rw [minified_of_ofChar? hchar]
  | _ => rfl

/-- In fewest digits a numeral starts like itself, or with a digit or a point. -/
theorem reduces_numeral (numeral x y : Text) :
    Reduces (numeral ++ x) ((Numeric.ofText numeral).toText .minified ++ y) := by
  obtain ⟨sign, whole, fraction, hsigned, hminus⟩ := Numeric.exists_isSigned numeral
  refine .of_numeral (hsigned.startsNumeral_append y) fun hhead => ?_
  obtain ⟨rest, rfl⟩ := List.head?_eq_some_iff.1 (hminus (hsigned.sign_eq_minus hhead))
  rfl

theorem Spells.reduces (h : Spells lineComments x token raw) (hraw : token.toText .pretty = raw)
    (hreduces : raw = ['-'] ∨ raw = ['!'] → Reduces x y) :
    Reduces (raw ++ x) (token.toText .minified ++ y) := by
  have hother (hsame : token.toText .minified = raw) :
      Reduces (raw ++ x) (token.toText .minified ++ y) := by
    have hscanned : Lexeme.IsScanned lineComments ⟨token, .point 0, raw⟩ x := .of_spells h
    rw [hsame]
    exact hscanned.reduces hreduces
  cases h with
  | number => exact reduces_numeral raw x y
  | percentage =>
    rw [toText, List.append_assoc, List.append_assoc]
    exact reduces_numeral ..
  | dimension =>
    rw [toText, List.append_assoc, List.append_assoc]
    exact reduces_numeral ..
  | single hchar => exact hother (toText_of_ofChar? hchar _)
  | _ => exact hother hraw

end Token

end Css
