import Css.Proofs.Token.Requoted
import Css.Proofs.Token.Standing
import Css.Proofs.Value.Written

/-!
# Components that are read again

A token that is a component on its own is written as it was read, or as another token for the same
component: a number in fewest digits, a keyword in lower case, a url with or without quotes. In a
text without backslashes the written form is read as the same component, a hexadecimal colour in
minified output as the same colour (`Value.exists_isWritten_of_isRead`).
-/

namespace Css

def Token.hasExponent : Token → Bool
  | dimension numeric _ => (numeralParts numeric.text).2.2 != 0
  | _ => false

/-- Whether a unit would be read as an exponent, which it is not behind another one. -/
def Token.hasExponentUnit : Token → Bool
  | dimension _ unit => exponentLength unit != 0
  | _ => false

namespace Value

open Lexeme

variable {style : Style} {lineComments : Bool} {x : Number}

theorem isWritten_number (h : x.isFinite = true) :
    IsWritten style lineComments (number x)
      [⟨.number (.ofText (style.number x)), .point 0, style.number x⟩] := by
  obtain ⟨sign, whole, fraction, hnumeral⟩ := style.exists_isNumeral h
  refine isWritten_token rfl ?_ (by rw [toText]) fun follow hfollow => ?_
  · rw [ofToken, Numeric.value_ofText_number _ h,
      reread_of_eq (by simp only [unsigned, recolored]), unsigned]
  · have hends : EndsComponent follow := hfollow
    have hnumeralEnds := hnumeral.isSigned.numeralEnds_iff.2
      ⟨hends.startsDigit_eq, fun _ => hends.fractionLength_eq, hends.exponentLength_eq⟩
    exact .number (hnumeral.isSigned.startsNumeral_append follow) hnumeralEnds
      hends.startsName_eq (hends.head?_ne (by decide) (by decide))

theorem isWritten_percentage (h : x.isFinite = true) :
    IsWritten style lineComments (percentage x)
      [⟨.percentage (.ofText (style.number x)), .point 0, style.number x ++ ['%']⟩] := by
  obtain ⟨sign, whole, fraction, hnumeral⟩ := style.exists_isNumeral h
  refine isWritten_token rfl ?_ (by rw [toText]) fun follow hfollow => ?_
  · rw [ofToken, Numeric.value_ofText_number _ h,
      reread_of_eq (by simp only [unsigned, recolored]), unsigned]
  · exact .percentage (hnumeral.isSigned.startsNumeral_append _)
      (hnumeral.isSigned.numeralEnds_percent follow)

/-- A unit that is not read as an exponent on its own is not read as one in front of what ends a
component. -/
theorem isWritten_dimension (h : x.isFinite = true) {unit behind : Text} (hplain : '\\' ∉ unit)
    (hstarts : startsName (unit ++ behind) = true) (hends : NameEnds unit behind)
    (hexponent : exponentLength unit = 0) :
    IsWritten style lineComments (dimension x unit)
      [⟨.dimension (.ofText (style.number x)) unit, .point 0, style.number x ++ unit⟩] := by
  obtain ⟨sign, whole, fraction, hnumeral⟩ := style.exists_isNumeral h
  refine isWritten_token rfl ?_ (by rw [toText]) fun follow hfollow => ?_
  · rw [ofToken, Numeric.value_ofText_number _ h,
      reread_of_eq (by simp only [unsigned, recolored]), unsigned]
  have hfollow : EndsComponent follow := hfollow
  have hne := hends.ne_nil hstarts
  have hends' := hends.congr_of_plain hplain hfollow.nameUnit_eq
  have hstarts' := (hends.startsName_congr hends' hne).trans hstarts
  have hdigit' : startsDigit follow = true → startsDigit [] = true := by
    rw [hfollow.startsDigit_eq]
    exact fun h => absurd h Bool.false_ne_true
  have hsigned : ∀ rest, follow = '+' :: rest → startsDigit rest = true →
      ∃ rest', [] = '+' :: rest' ∧ startsDigit rest' = true :=
    fun rest heq => absurd (congrArg List.head? heq) (hfollow.head?_ne (by decide) (by decide))
  have hexponent' : exponentLength (unit ++ follow) = 0 := by
    refine Decidable.byContradiction fun hpos => ?_
    have halone := Token.exponentLength_congr_unit hdigit' hsigned hne
      (hends.congr_of_plain hplain rfl) hends' hpos
    rw [List.append_nil] at halone
    exact halone hexponent
  obtain ⟨hdigit, hfraction⟩ := no_fraction_of_startsName hstarts'
  exact .dimension (hnumeral.isSigned.startsNumeral_append _)
    (hnumeral.isSigned.numeralEnds_iff.2 ⟨hdigit, fun _ => hfraction, hexponent'⟩) hstarts' hends'

/-! ### Urls -/

/-- What a url or a string holds is written as a url, without quotes or as a function that holds a
string. -/
theorem exists_isWritten_url {target : Text} (h : Url.IsHeld target) :
    ∃ lexemes, IsWritten style lineComments (url target) lexemes ∧ MayEnclose [] lexemes ∧
      (Url.isBare target = true → marks lexemes = []) := by
  have hreread : (url target).reread style = url target :=
    reread_self (by simp only [unsigned]) (by simp only [recolored]) style
  obtain ⟨hne, htext, hlength⟩ | ⟨hbare, quote, htext, hlength⟩ := h.toText_cases
  · refine ⟨_, @isWritten_token _ _ _ (.url target) _ rfl ?_ (by rw [toText, htext])
      fun follow _ => ?_, .inl rfl, fun _ => rfl⟩
    · rw [hreread]
      rfl
    · exact @Token.Spells.url _ follow "url".toList [] target [] (by decide)
        (List.forall_mem_nil _) (List.forall_mem_nil _) (hlength follow)
        (fun hnil => absurd hnil hne)
  · have hstring : Stand lineComments
        [⟨.string target quote, .point 0, quote.enclose target⟩] :=
      Stand.nil.cons rfl rfl fun _ _ => .string (hlength _)
    refine ⟨_, @isWritten_block _ _ _ _ "url".toList hstring.inside ?_ ?_ fun follow => ?_,
      .inr rfl, fun hother => by rw [hbare] at hother; contradiction⟩
    · rw [parseCall_eq, if_pos (by decide), hreread]
      rfl
    · rw [toText, htext, text_cons, text_nil, List.append_nil]
    · refine @Token.Spells.quotedUrl _ _ _ [] (by decide) (List.forall_mem_nil _) (.inl ⟨rfl, ?_⟩)
      exact ⟨quote.toChar, _, rfl, isQuote_toChar quote⟩

/-! ### Tokens as they were read -/

/-- A word that is read as a value which stays what it is. -/
theorem isWritten_word {name : Text} {value : Value} (hname : name.isIdentifier = true)
    (hread : ofName name = value) (hreread : value.reread style = value)
    (htext : value.toText style = name) (htight : value.isTight = false) :
    IsWritten style lineComments value [⟨.ident name, .point 0, name⟩] := by
  refine isWritten_token rfl ?_ htext.symm fun follow hfollow => ?_
  · rw [hreread, ← hread]
    rfl
  · exact Text.spells_of_isIdentifier hname ((mayPrecede_iff htight follow).1 hfollow).endsName

theorem isWritten_keyword (word : WideKeyword) :
    IsWritten style lineComments (keyword word)
      [⟨.ident (Keyword.spelling word).toList, .point 0, (Keyword.spelling word).toList⟩] := by
  have hreread : (keyword word).reread style = keyword word :=
    reread_self (by simp only [unsigned]) (by simp only [recolored]) style
  refine isWritten_word ?_ ?_ hreread (by rw [toText]) rfl
  · cases word <;> decide
  · cases word <;> rfl

/-- A character that is a token on its own is no component. -/
theorem ofToken_ne_ok {c : Char} {token : Token} (h : Token.ofChar? c = some token)
    (value : Value) : ofToken token ≠ .ok value := by
  unfold Token.ofChar? at h
  split at h
  all_goals first
    | contradiction
    | (obtain rfl := Option.some.inj h; intro hread; contradiction)

section

variable {lexeme : Lexeme} {behind : Text} {value : Value}

/-- A numeral is spelled by its characters. -/
theorem spells_numeral (h : IsRead lineComments lexeme behind) {numeric : Numeric}
    (hnumeric : lexeme.token.numeric? = some numeric) :
    Token.Spells lineComments behind lexeme.token lexeme.raw := by
  refine h.spells_of_sound (fun problem hreads => ?_) fun content htoken => ?_
  · generalize lexeme.token = token at hnumeric hreads
    cases hreads <;> contradiction
  · rw [htoken] at hnumeric
    contradiction

/-- A numeral is read as a finite number, however large it is. -/
theorem isFinite_numeric (h : IsRead lineComments lexeme behind) {numeric : Numeric}
    (hnumeric : lexeme.token.numeric? = some numeric) : numeric.value.isFinite = true := by
  have hspells := spells_numeral h hnumeric
  generalize lexeme.raw = raw at hspells
  generalize lexeme.token = token at hnumeric hspells
  cases hspells with
  | single hchar =>
    unfold Token.ofChar? at hchar
    split at hchar
    all_goals first
      | contradiction
      | (obtain rfl := Option.some.inj hchar; contradiction)
  | number =>
    obtain rfl := Option.some.inj hnumeric
    exact Number.isFinite_nearestFinite _
  | percentage =>
    obtain rfl := Option.some.inj hnumeric
    exact Number.isFinite_nearestFinite _
  | dimension =>
    obtain rfl := Option.some.inj hnumeric
    exact Number.isFinite_nearestFinite _
  | _ => contradiction

/-- A unit whose numeral has no exponent does not go on as one. -/
theorem exponentLength_unit {numeral follow : Text} (h : NumeralEnds numeral follow)
    (hne : numeral ≠ []) (hexponent : (numeralParts numeral).2.2 = 0) :
    exponentLength follow = 0 := by
  have hends := h
  rw [NumeralEnds, numeralLength, h.numeralParts_eq hne, hexponent, Nat.add_zero] at hends
  have hparts := h.numeralParts_eq hne
  have hlast : exponentLength ((numeral ++ follow).drop
      ((numeralParts (numeral ++ follow)).1 + (numeralParts (numeral ++ follow)).2.1)) =
        (numeralParts (numeral ++ follow)).2.2 := rfl
  rw [hparts, hends, List.drop_left, hexponent] at hlast
  exact hlast

/-- What ends a unit takes nothing from it, so the unit alone is no exponent either. -/
theorem exponentLength_of_append {unit follow : Text} (hplain : '\\' ∉ unit)
    (hstarts : startsName (unit ++ follow) = true) (hends : NameEnds unit follow)
    (h : exponentLength (unit ++ follow) = 0) : exponentLength unit = 0 := by
  refine Decidable.byContradiction fun hpos => ?_
  have halone : NameEnds unit [] := hends.congr_of_plain hplain rfl
  refine Token.exponentLength_congr_unit (fun hdigit => ?_) (fun _ hsign => ?_)
    (hends.ne_nil hstarts) hends halone (by rwa [List.append_nil]) h
  · contradiction
  · contradiction

theorem hasExponentUnit_of_isRead (h : IsRead lineComments lexeme behind)
    (hplain : '\\' ∉ lexeme.raw) (hexponent : lexeme.token.hasExponent = false) :
    lexeme.token.hasExponentUnit = false := by
  cases htoken : lexeme.token with
  | dimension numeric unit =>
    have hspells := spells_numeral h (by rw [htoken]; rfl)
    rw [htoken] at hspells hexponent
    generalize lexeme.raw = raw at hspells hplain
    cases hspells with
    | single hchar => exact absurd rfl (ofToken_ne_ok hchar _)
    | @dimension numeral _ hstarts hends hstart hunit =>
      have hne : numeral ≠ [] := by
        rintro rfl
        have hnumeral := Token.startsNumeral_eq_false_of_startsName hstart
        exact absurd hstarts (Bool.eq_false_iff.1 hnumeral)
      have hlast : ((numeralParts numeral).2.2 != 0) = false := hexponent
      have hlength := exponentLength_unit hends hne (by simpa using hlast)
      have hunitPlain : '\\' ∉ unit := fun hmem => hplain (List.mem_append_right numeral hmem)
      have halone := exponentLength_of_append hunitPlain hstart hunit hlength
      simp only [Token.hasExponentUnit, halone, bne_self_eq_false]
  | _ => rfl

theorem exists_isWritten_dimension (h : IsRead lineComments lexeme behind)
    (hplain : '\\' ∉ lexeme.raw) {numeric : Numeric} {unit : Text}
    (htoken : lexeme.token = .dimension numeric unit)
    (hexponent : (Token.dimension numeric unit).hasExponentUnit = false) :
    ∃ lexemes, IsWritten style lineComments (dimension numeric.value unit) lexemes ∧
      marks lexemes = [] := by
  have hfinite := isFinite_numeric h (by rw [htoken]; rfl)
  have hspells := spells_numeral h (by rw [htoken]; rfl)
  rw [htoken] at hspells
  generalize lexeme.raw = raw at hspells hplain
  cases hspells with
  | single hchar => exact absurd rfl (ofToken_ne_ok hchar _)
  | @dimension numeral _ hstarts hends hstart hunit =>
    have hunit' : (exponentLength unit != 0) = false := hexponent
    exact ⟨_, isWritten_dimension hfinite
      (fun hmem => hplain (List.mem_append_right numeral hmem)) hstart hunit
      (by simpa using hunit'), rfl⟩

/-- A word is a keyword, or it is written as it was read. -/
theorem ofName_cases (style : Style) (name : Text) :
    (∃ word, ofName name = keyword word) ∨
      (ofName name).reread style = ofName name ∧ (ofName name).toText style = name ∧
        (ofName name).isTight = false := by
  unfold ofName
  split
  · exact .inl ⟨_, rfl⟩
  · exact .inr ⟨reread_self (by simp only [unsigned]) (by simp only [recolored]) style,
      by rw [toText]; rfl, rfl⟩
  · exact .inr ⟨reread_self (by simp only [unsigned]) (by simp only [recolored]) style,
      by rw [toText], rfl⟩

theorem exists_isWritten_ident {name : Text} (h : IsRead lineComments lexeme behind)
    (hplain : '\\' ∉ lexeme.raw) (htoken : lexeme.token = .ident name) :
    ∃ lexemes, IsWritten style lineComments (ofName name) lexemes ∧ marks lexemes = [] := by
  obtain ⟨word, hword⟩ | ⟨hreread, htext, htight⟩ := ofName_cases style name
  · exact ⟨_, hword ▸ isWritten_keyword word, rfl⟩
  · exact ⟨_, isWritten_word (h.isIdentifier_ident hplain htoken) rfl hreread htext htight, rfl⟩

/-- What a url without quotes holds can be written in quotes, which an empty one is. -/
theorem exists_isWritten_url_of_url (h : IsRead lineComments lexeme behind)
    (hplain : '\\' ∉ lexeme.raw ++ behind) {target : Text} (htoken : lexeme.token = .url target) :
    ∃ lexemes, IsWritten style lineComments (url target) lexemes ∧
      (target ≠ [] → marks lexemes = []) := by
  have hread := h.spells_or_isOpen (by rw [htoken]; rfl) (by rw [isTrivia, htoken]; rfl) hplain
  have hraw : '\\' ∉ lexeme.raw := fun hmem => hplain (List.mem_append_left _ hmem)
  generalize lexeme.raw ++ behind = text at hread hplain
  generalize lexeme.raw = raw at hread hraw
  rw [htoken] at hread
  obtain ⟨hbackslash, follow, hlength⟩ : '\\' ∉ target ∧
      ∃ follow, chainLength urlUnit (target ++ follow) = target.length := by
    obtain hspells | hopen := hread
    · cases hspells with
      | single hchar => exact absurd rfl (ofToken_ne_ok hchar _)
      | url _ _ _ htarget => exact ⟨fun hmem => hraw (by simp [hmem]), _, htarget⟩
      | openUrl _ _ _ htarget => exact ⟨fun hmem => hraw (by simp [hmem]), _, htarget⟩
    · cases hopen with
      | url _ hsuffix htarget =>
        exact ⟨fun hmem => hplain (hsuffix.subset hmem), [], by rwa [List.append_nil]⟩
  obtain ⟨lexemes, hlexemes, -, hbare⟩ := exists_isWritten_url (.url hlength)
  exact ⟨lexemes, hlexemes, fun hne => hbare (isBare_of_chainLength hbackslash hne hlength)⟩

/-- What a string holds can be written as a url. -/
theorem exists_isWritten_url_of_string (h : IsRead lineComments lexeme behind)
    (hplain : '\\' ∉ lexeme.raw ++ behind) {content : Text} {quote : Quote}
    (htoken : lexeme.token = .string content quote) :
    ∃ lexemes, IsWritten style lineComments (url content) lexemes ∧ MayEnclose [] lexemes := by
  obtain ⟨hcontent, hchars⟩ := h.forall_of_string hplain htoken
  obtain ⟨lexemes, hlexemes, hmarks, -⟩ :=
    exists_isWritten_url (.string (stringLength_of_forall hcontent hchars []))
  exact ⟨lexemes, hlexemes, hmarks⟩

/-- A string is written as it was read. -/
theorem exists_isWritten_string (h : IsRead lineComments lexeme behind)
    (hplain : '\\' ∉ lexeme.raw ++ behind) {content : Text} {quote : Quote}
    (htoken : lexeme.token = .string content quote) :
    ∃ lexemes, IsWritten style lineComments (string content quote) lexemes ∧
      marks lexemes = [] := by
  obtain ⟨hcontent, hchars⟩ := h.forall_of_string hplain htoken
  refine ⟨_, @isWritten_token _ _ _ (.string content quote) (quote.enclose content) rfl ?_
    (by rw [toText]) fun follow _ => .string (stringLength_of_forall hcontent hchars follow), rfl⟩
  rw [reread_self (by simp only [unsigned]) (by simp only [recolored])]
  rfl

/-- A hexadecimal colour is written as it was read, or in its shortest form. -/
theorem exists_isWritten_hex {digits : Text} {rgba : Rgba} (h : Rgba.ofHex? digits = some rgba) :
    ∃ lexemes, IsWritten style lineComments (color (.hex digits rgba)) lexemes ∧
      marks lexemes = [] := by
  cases hminify : style.minify with
  | true =>
    refine @exists_isWritten_shortest _ _ _ rgba ?_ ?_ rfl
    · rw [toText, Color.toText, hminify, if_pos rfl]
    · rw [reread, hminify, if_pos rfl]
      simp only [unsigned, recolored]
  | false =>
    obtain ⟨hne, hchars⟩ := Rgba.isNameChar_of_ofHex? h
    refine ⟨_, @isWritten_token _ _ _ (.hash digits (startsName digits)) ('#' :: digits) rfl ?_ ?_
      fun follow hfollow => Token.spells_hash hne hchars (EndsComponent.endsName hfollow), rfl⟩
    · rw [reread, hminify, if_neg Bool.false_ne_true]
      simp only [ofToken, h, unsigned]
    · rw [toText, Color.toText, hminify, if_neg Bool.false_ne_true]

theorem toChar_of_ofChar? {c : Char} {sign : Delimiter} (h : Delimiter.ofChar? c = some sign) :
    sign.toChar = c := by
  unfold Delimiter.ofChar? at h
  split at h
  all_goals first
    | contradiction
    | (obtain rfl := Option.some.inj h; rfl)

theorem token_of_ofToken_sign {token : Token} {sign : Delimiter}
    (h : ofToken token = .ok (delimiter sign)) : token = .delim sign.toChar := by
  cases token with
  | delim c =>
    simp only [ofToken] at h
    split at h
    · rename_i found hfound
      obtain rfl := delimiter.inj (Except.ok.inj h)
      rw [toChar_of_ofChar? hfound]
    · contradiction
  | ident name =>
    simp only [ofToken, ofName] at h
    split at h <;> simp at h
  | hash digits isId =>
    simp only [ofToken] at h
    split at h <;> simp at h
  | _ => simp [ofToken] at h

theorem ofChar?_toChar (sign : Delimiter) : Delimiter.ofChar? sign.toChar = some sign := by
  cases sign <;> rfl

/-- A sign is a token on its own in front of what may follow it. -/
theorem delimEnds_sign {sign : Delimiter} {follow : Text}
    (h : (delimiter sign).MayPrecede follow) :
    Token.DelimEnds lineComments follow sign.toChar := by
  have hnumeral : ∀ c : Char, c = '+' ∨ c = '-' → EndsComponent follow →
      startsNumeral (c :: follow) = false := by
    intro c hc hends
    refine @Token.startsNumeral_congr [] follow ?_ ?_ c hc (by obtain rfl | rfl := hc <;> rfl)
    · rw [hends.startsDigit_eq]
      exact id
    · rw [hends.fractionLength_eq]
      exact id
  cases sign with
  | star => rfl
  | slash =>
    have hslash : ∀ c ∈ follow.head?, c ≠ '*' ∧ c ≠ '/' := h
    exact ⟨fun hhead => (hslash _ hhead).1 rfl, .inl fun hhead => (hslash _ hhead).2 rfl⟩
  | plus => exact hnumeral '+' (.inl rfl) h
  | minus =>
    have hends : EndsComponent follow := h
    exact ⟨hnumeral '-' (.inr rfl) h, startsName_hyphen_eq_false hends.nameUnit_eq⟩

theorem isWritten_sign (sign : Delimiter) :
    IsWritten style lineComments (delimiter sign)
      [⟨.delim sign.toChar, .point 0, [sign.toChar]⟩] := by
  refine isWritten_token rfl ?_ (by rw [toText]) fun _ hfollow => .delim (delimEnds_sign hfollow)
  rw [(keepsShape_reread style).sign_eq]
  simp only [ofToken, ofChar?_toChar]

/-- A component is written as lexemes that are read as it, with brackets only for an empty url. -/
theorem exists_isWritten_of_isRead (h : IsRead lineComments lexeme behind)
    (hplain : '\\' ∉ lexeme.raw ++ behind) (hexponent : lexeme.token.hasExponentUnit = false)
    (hread : ofToken lexeme.token = .ok value) :
    ∃ lexemes, IsWritten style lineComments value lexemes ∧
      (lexeme.token ≠ .url [] → marks lexemes = []) := by
  have hraw : '\\' ∉ lexeme.raw := fun hmem => hplain (List.mem_append_left _ hmem)
  cases htoken : lexeme.token with
  | number numeric =>
    rw [htoken] at hread
    obtain rfl := Except.ok.inj hread
    exact ⟨_, isWritten_number (isFinite_numeric h (by rw [htoken]; rfl)), fun _ => rfl⟩
  | percentage numeric =>
    rw [htoken] at hread
    obtain rfl := Except.ok.inj hread
    exact ⟨_, isWritten_percentage (isFinite_numeric h (by rw [htoken]; rfl)), fun _ => rfl⟩
  | dimension numeric unit =>
    rw [htoken] at hread hexponent
    obtain rfl := Except.ok.inj hread
    obtain ⟨lexemes, hlexemes, hmarks⟩ := exists_isWritten_dimension h hraw htoken hexponent
    exact ⟨lexemes, hlexemes, fun _ => hmarks⟩
  | ident name =>
    rw [htoken] at hread
    obtain rfl := Except.ok.inj hread
    obtain ⟨lexemes, hlexemes, hmarks⟩ := exists_isWritten_ident h hraw htoken
    exact ⟨lexemes, hlexemes, fun _ => hmarks⟩
  | url target =>
    rw [htoken] at hread
    obtain rfl := Except.ok.inj hread
    obtain ⟨lexemes, hlexemes, hmarks⟩ := exists_isWritten_url_of_url h hplain htoken
    exact ⟨lexemes, hlexemes, fun hurl => hmarks fun hnil => hurl (by rw [hnil])⟩
  | string content quote =>
    rw [htoken] at hread
    obtain rfl := Except.ok.inj hread
    obtain ⟨lexemes, hlexemes, hmarks⟩ := exists_isWritten_string h hplain htoken
    exact ⟨lexemes, hlexemes, fun _ => hmarks⟩
  | hash digits isId =>
    rw [htoken] at hread
    simp only [ofToken] at hread
    split at hread
    · rename_i rgba hrgba
      obtain rfl := Except.ok.inj hread
      obtain ⟨lexemes, hlexemes, hmarks⟩ := exists_isWritten_hex hrgba
      exact ⟨lexemes, hlexemes, fun _ => hmarks⟩
    · contradiction
  | delim c =>
    rw [htoken] at hread
    simp only [ofToken] at hread
    split at hread
    · rename_i sign hsign
      obtain rfl := Except.ok.inj hread
      exact ⟨_, isWritten_sign sign, fun _ => rfl⟩
    · contradiction
  | _ =>
    rw [htoken] at hread
    contradiction

end

end Value

end Css
