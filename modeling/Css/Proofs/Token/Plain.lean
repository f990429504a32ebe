import Css.Proofs.Token.Alike
import Css.Token.Run

/-!
# Tokens without escapes

Without a backslash each character of a name, a url or a string counts by itself, whatever follows
it. So a token that is written to be read is spelled by the characters it was read from, a url by
its target alone (`Token.Spells.reprint`); and a token that lacks its end is spelled once this is
written (`Token.IsOpen.spells`).
-/

namespace Css

/-! ### Names, urls and strings -/

theorem chainLength_congr_of_plain {unit : Text → Nat}
    (hunit : ∀ {c : Char}, c ≠ '\\' → ∀ x y, unit (c :: y) = unit (c :: x) ∧ unit (c :: x) ≤ 1)
    {front : Text} (hplain : '\\' ∉ front) {x y : Text} (hend : unit y = 0)
    (h : chainLength unit (front ++ x) = front.length) :
    chainLength unit (front ++ y) = front.length := by
  induction front with
  | nil =>
    cases y with
    | nil => simp [chainLength]
    | cons c y => simp [chainLength, hend]
  | cons c front ih =>
    obtain ⟨hc, hfront⟩ := not_or.1 (fun h => hplain (List.mem_cons.2 h))
    obtain ⟨hsame, hle⟩ := hunit (Ne.symm hc) (front ++ x) (front ++ y)
    rw [List.cons_append, chainLength] at h ⊢
    rw [hsame]
    split at h
    · simp at h
    rename_i n hn
    obtain rfl : n = 0 := by omega
    simp only [hn, List.drop_zero, List.length_cons] at h ⊢
    rw [ih hfront (by omega)]
    omega

theorem nameUnit_of_ne {c : Char} (h : c ≠ '\\') (text : Text) :
    nameUnit (c :: text) = if isNameChar c then 1 else 0 := by
  simp [nameUnit, escapeLength, h]

theorem urlUnit_of_ne {c : Char} (h : c ≠ '\\') (text : Text) :
    urlUnit (c :: text) =
      if isBlank c || isQuote c || isNonPrintable c || c == '(' || c == ')' then 0 else 1 := by
  simp [urlUnit, h]

theorem NameEnds.congr_of_plain {name x y : Text} (h : NameEnds name x) (hplain : '\\' ∉ name)
    (hunit : nameUnit y = 0) : NameEnds name y := by
  refine chainLength_congr_of_plain (fun hc x y => ?_) hplain hunit h
  rw [nameUnit_of_ne hc, nameUnit_of_ne hc]
  exact ⟨rfl, by split <;> omega⟩

def Url.isBareChar (c : Char) : Bool :=
  !(isBlank c || isQuote c || c == '(' || c == ')' || isNonPrintable c)

theorem Url.isBare_iff {target : Text} :
    isBare target = true ↔ target ≠ [] ∧ ∀ c ∈ target, isBareChar c = true := by
  rw [isBare, Bool.and_eq_true, List.all_eq_true, Bool.not_eq_true', List.isEmpty_eq_false_iff]
  rfl

theorem urlUnit_eq {c : Char} (h : c ≠ '\\') (text : Text) :
    urlUnit (c :: text) = if Url.isBareChar c then 1 else 0 := by
  rw [urlUnit_of_ne h, Url.isBareChar]
  cases isBlank c <;> cases isQuote c <;> cases isNonPrintable c <;> cases c == '(' <;>
    cases c == ')' <;> rfl

/-- A url ends in front of a text that goes on with neither a url nor an escape at its end. -/
theorem urlLength_congr {target x y : Text} (hy : FollowsAs x y) (hend : urlUnit y = 0)
    (h : chainLength urlUnit (target ++ x) = target.length) :
    chainLength urlUnit (target ++ y) = target.length := by
  refine chainLength_congr (fun front hpos hle => ?_) hend h
  rcases front with _ | ⟨c, front⟩
  · exact absurd hle (Nat.not_le.2 hpos)
  by_cases hbackslash : c = '\\'
  · subst hbackslash
    exact escapeLength_congr ('\\' :: front) hy hpos hle
  · rw [List.cons_append, List.cons_append, urlUnit_eq hbackslash, urlUnit_eq hbackslash]

/-- Where a url ends does not depend on what follows its closing bracket. -/
theorem closedUrlLength_congr {target after x : Text} (hafter : ∀ c ∈ after, isBlank c = true)
    (h : chainLength urlUnit (target ++ (after ++ ')' :: x)) = target.length) (y : Text) :
    chainLength urlUnit (target ++ (after ++ ')' :: y)) = target.length := by
  refine urlLength_congr ?_ ?_ h
  · cases after <;> exact fun _ hc _ => hc
  · cases after with
    | nil => rfl
    | cons c after => simp [urlUnit, hafter c List.mem_cons_self]

/-- A url can be read without quotes if it was. -/
theorem isBare_of_chainLength {target follow : Text} (hplain : '\\' ∉ target)
    (hne : target ≠ []) (h : chainLength urlUnit (target ++ follow) = target.length) :
    Url.isBare target = true := by
  have hunit : ∀ c ∈ target, ∀ rest : Text,
      urlUnit (c :: rest) = if Url.isBareChar c then 1 else 0 :=
    fun c hc rest => urlUnit_eq (fun heq => hplain (heq ▸ hc)) rest
  refine Url.isBare_iff.2 ⟨hne, fun c hc => ?_⟩
  obtain ⟨rest, hone⟩ := forall_of_chainLength
    (fun c hc rest => by rw [hunit c hc]; split <;> omega) h c hc
  rw [hunit c hc] at hone
  split at hone
  · assumption
  · contradiction

/-- A string without escapes holds neither newlines nor its own quote. -/
theorem forall_of_stringLength {quote : Quote} {content follow : Text} (hplain : '\\' ∉ content)
    (h : chainLength (stringUnit quote) (content ++ follow) = content.length) :
    ∀ c ∈ content, c ≠ quote.toChar ∧ isNewline c = false := by
  have hunit : ∀ c ∈ content, ∀ rest : Text,
      stringUnit quote (c :: rest) = if c == quote.toChar || isNewline c then 0 else 1 :=
    fun c hc rest => stringUnit_of_ne (fun heq => hplain (heq ▸ hc)) rest
  intro c hc
  obtain ⟨rest, hone⟩ := forall_of_chainLength
    (fun c hc rest => by rw [hunit c hc]; split <;> omega) h c hc
  rw [hunit c hc] at hone
  split at hone
  · contradiction
  · rename_i hother
    simpa using hother

theorem stringLength_of_forall {quote : Quote} {content : Text} (hplain : '\\' ∉ content)
    (h : ∀ c ∈ content, c ≠ quote.toChar ∧ isNewline c = false) (follow : Text) :
    chainLength (stringUnit quote) (content ++ quote.toChar :: follow) = content.length := by
  refine chainLength_of_forall (fun c hc rest => ?_) (stringUnit_toChar quote follow)
  rw [stringUnit_of_ne (fun heq => hplain (heq ▸ hc))]
  simpa using h c hc

namespace Token

variable {lineComments : Bool}

/-! ### Tokens as they are written -/

theorem toText_of_ofChar? {c : Char} {token : Token} (h : ofChar? c = some token) (style : Style) :
    token.toText style = [c] := by
  unfold ofChar? at h
  split at h
  all_goals first
    | contradiction
    | (obtain rfl := Option.some.inj h; rfl)

theorem isPlain_of_ofChar? {c : Char} {token : Token} (h : ofChar? c = some token) :
    token.IsPlain ∧ token.endName? = none := by
  unfold ofChar? at h
  split at h
  all_goals first
    | contradiction
    | (obtain rfl := Option.some.inj h; exact ⟨trivial, rfl⟩)

theorem Spells.toText_eq {follow raw : Text} {token : Token}
    (h : Spells lineComments follow token raw) (hplain : token.IsPlain) :
    token.toText .pretty = raw := by
  cases h with
  | single hchar => exact toText_of_ofChar? hchar _
  | whitespace => exact hplain.elim
  | quotedUrl hname =>
    rw [IsPlain, hname] at hplain
    contradiction
  | url => exact hplain.elim
  | openUrl => exact hplain.elim
  | _ => rfl

theorem toText_url {target : Text} (h : Url.isBare target = true) (style : Style) :
    (url target).toText style = ['u', 'r', 'l'] ++ '(' :: (target ++ [')']) := by
  simp [toText, Url.toText, h]

/-- A url is spelled by its target between brackets, whatever follows. -/
theorem spells_url {target x : Text} (hplain : '\\' ∉ target) (hne : target ≠ [])
    (h : chainLength urlUnit (target ++ x) = target.length) (follow : Text) :
    Spells lineComments follow (url target) ((url target).toText .pretty) := by
  have htarget : chainLength urlUnit (target ++ ([] ++ ')' :: follow)) = target.length := by
    refine chainLength_congr_of_plain (fun hc x y => ?_) hplain rfl h
    rw [urlUnit_of_ne hc, urlUnit_of_ne hc]
    exact ⟨rfl, by split <;> omega⟩
  rw [toText_url (isBare_of_chainLength hplain hne h)]
  exact .url rfl (List.forall_mem_nil _) (List.forall_mem_nil _) htarget fun h => absurd h hne

theorem startsUrl_of_isKeyword {name : Text} (h : name.isKeyword "url" = true) (rest : Text) :
    StartsUrl (name ++ rest) := by
  have hlower : name.lower = ['u', 'r', 'l'] := by simpa [Text.isKeyword] using h
  cases name with
  | nil => contradiction
  | cons c name =>
    have hc : c.toLower = 'u' := (List.cons.inj hlower).1
    unfold Char.toLower at hc
    split at hc
    · have hval : c.val - 0 = 'U'.val := by
        have := congrArg (·.val - 32) hc
        simpa using this
      exact .inr (congrArg some (Char.ext (by simpa using hval)))
    · exact .inl (congrArg some hc)

/-- A token that is no plain one, and no whitespace, starts like a url as it was read, and as it is
written. -/
theorem Spells.startsUrl {follow raw : Text} {token : Token}
    (h : Spells lineComments follow token raw) (hspace : token ≠ .whitespace)
    (hkind : ¬ token.IsPlain) : StartsUrl raw ∧ StartsUrl (token.toText .pretty) := by
  cases h with
  | single hchar => exact absurd (isPlain_of_ofChar? hchar).1 hkind
  | whitespace => exact absurd rfl hspace
  | function _ _ hname => exact absurd hname hkind
  | quotedUrl hname => exact ⟨startsUrl_of_isKeyword hname _, startsUrl_of_isKeyword hname _⟩
  | url hname => exact ⟨startsUrl_of_isKeyword hname _, .inl rfl⟩
  | openUrl hname => exact ⟨startsUrl_of_isKeyword hname _, .inl rfl⟩
  | _ => exact absurd trivial hkind

/-- The name at the end of a token is over where its characters are. -/
theorem Spells.nameEnds {follow raw name : Text} {token : Token}
    (h : Spells lineComments follow token raw) (hname : token.endName? = some name) :
    NameEnds name follow ∧ name ⊆ raw := by
  cases h with
  | single hchar =>
    rw [(isPlain_of_ofChar? hchar).2] at hname
    contradiction
  | @dimension numeral unit _ _ _ hends =>
    obtain rfl := Option.some.inj hname
    exact ⟨hends, List.subset_append_right ..⟩
  | hash _ hends =>
    obtain rfl := Option.some.inj hname
    exact ⟨hends, List.subset_cons_self ..⟩
  | atKeyword _ hends =>
    obtain rfl := Option.some.inj hname
    exact ⟨hends, List.subset_cons_self ..⟩
  | ident _ hends =>
    obtain rfl := Option.some.inj hname
    exact ⟨hends, List.Subset.refl _⟩
  | _ => contradiction

/-- A plain token stays what it is if what follows now goes on with no token that the old text did
not go on with. -/
theorem Spells.congr_of_plain {x y raw : Text} {token : Token} (h : Spells lineComments x token raw)
    (hkind : token.IsPlain) (hplain : '\\' ∉ raw) (halike : Alike x y) :
    Spells lineComments y token raw := by
  refine h.congr hkind halike fun name hname => ?_
  obtain ⟨hends, hsubset⟩ := h.nameEnds hname
  exact hends.congr_of_plain (fun hmem => hplain (hsubset hmem))
    (Decidable.byContradiction fun hne => halike.unit hne hends.nameUnit_eq_zero)

/-- A token that was read is spelled by what is written for it, if what follows now goes on with no
token that the old text did not go on with. -/
theorem Spells.reprint {x y raw : Text} {token : Token} (h : Spells lineComments x token raw)
    (hspace : token ≠ .whitespace) (hurl : token ≠ .url []) (hplain : '\\' ∉ raw)
    (halike : Alike x y)
    (hopens : ∀ name blanks, token = .function name → name.isKeyword "url" = true →
      OpensString blanks x → OpensString [] y) :
    Spells lineComments y token (token.toText .pretty) := by
  by_cases hkind : token.IsPlain
  · rw [h.toText_eq hkind]
    exact h.congr_of_plain hkind hplain halike
  cases h with
  | whitespace => exact absurd rfl hspace
  | single hchar => exact absurd (isPlain_of_ofChar? hchar).1 hkind
  | function _ _ hname => exact absurd hname hkind
  | @quotedUrl name blanks hname _ hopen =>
    exact .quotedUrl hname (List.forall_mem_nil _) (hopens name blanks rfl hname hopen)
  | @url name before target after _ _ _ htarget =>
    refine spells_url (fun hmem => hplain ?_) (fun hnil => hurl (by rw [hnil])) htarget y
    simp [hmem]
  | @openUrl name before target after _ _ _ htarget hne =>
    refine spells_url (fun hmem => hplain ?_) hne htarget y
    simp [hmem]
  | _ => exact absurd trivial hkind

/-! ### Tokens that lack their end -/

/-- Whether a token lacks its end: its content goes up to the end of a text. -/
inductive IsOpen (text : Text) : Token → Prop
  | string {content : Text} {quote : Quote} : text = quote.toChar :: content →
    chainLength (stringUnit quote) content = content.length → IsOpen text (string content quote)
  | url {target : Text} : StartsUrl text → target <:+ text →
    chainLength urlUnit target = target.length → IsOpen text (url target)

/-- A token that lacks its end is spelled once it is written with it. -/
theorem IsOpen.spells {text : Text} {token : Token} (h : IsOpen text token) (hplain : '\\' ∉ text)
    (hurl : token ≠ Token.url []) (follow : Text) :
    Spells lineComments follow token (token.toText .pretty) := by
  cases h with
  | @string content quote htext hcontent =>
    have hbackslash : '\\' ∉ content := fun hmem => hplain (by rw [htext]; simp [hmem])
    refine .string (chainLength_congr_of_plain (fun hc x y => ?_) hbackslash
      (stringUnit_toChar quote follow) (by rwa [List.append_nil]))
    rw [stringUnit_of_ne hc, stringUnit_of_ne hc]
    exact ⟨rfl, by split <;> omega⟩
  | url _ hsuffix htarget =>
    exact spells_url (fun hmem => hplain (hsuffix.subset hmem)) (fun hnil => hurl (by rw [hnil]))
      (by rwa [List.append_nil]) follow

theorem chainLength_eq_length {unit : Text → Nat} (hunit : ∀ text, unit text ≤ text.length)
    {text : Text} (h : text.drop (chainLength unit text) = []) :
    text.take (chainLength unit text) = text ∧ chainLength unit text = text.length := by
  have hle := chainLength_le hunit text
  have hge := List.drop_eq_nil_iff.1 h
  exact ⟨List.take_of_length_le hge, Nat.le_antisymm hle hge⟩

theorem isOpen_scanString {quote : Quote} {text : Text} {problem : Problem}
    (h : (scanString quote text).problem = some problem) :
    (scanString quote text).token.isBad = true ∨
      IsOpen (quote.toChar :: text) (scanString quote text).token := by
  unfold scanString at h ⊢
  simp only at h ⊢
  split
  · rename_i hdrop
    obtain ⟨htake, hlength⟩ := chainLength_eq_length (stringUnit_le quote) hdrop
    rw [htake]
    exact .inr (.string rfl hlength)
  · rename_i hdrop
    rw [hdrop] at h
    simp only at h
    split
    · rename_i hquote
      rw [if_pos hquote] at h
      contradiction
    · exact .inl rfl

theorem isOpen_scanUrl {passed : Nat} {front text : Text} {problem : Problem}
    (hstarts : StartsUrl (front ++ text)) (h : (scanUrl passed text).problem = some problem) :
    (scanUrl passed text).token.isBad = true ∨
      IsOpen (front ++ text) (scanUrl passed text).token := by
  unfold scanUrl at h ⊢
  simp only at h ⊢
  split
  · rename_i hdrop
    obtain ⟨htake, hlength⟩ := chainLength_eq_length urlUnit_le hdrop
    rw [htake]
    exact .inr (.url hstarts (List.suffix_append ..) hlength)
  · rename_i hdrop
    split at h
    · contradiction
    · split at h
      · contradiction
      · contradiction
      · exact .inl rfl

theorem isOpen_scanIdentLike {text : Text} {problem : Problem}
    (h : (scanIdentLike text).problem = some problem) :
    (scanIdentLike text).token.isBad = true ∨ IsOpen text (scanIdentLike text).token := by
  have hsplit := List.take_append_drop (nameLength text) text
  unfold scanIdentLike at h ⊢
  simp only at h ⊢
  split at h
  · rename_i inner hdrop
    split at h
    · rename_i hname
      rw [if_pos hname]
      split at h
      · contradiction
      · rename_i hquote
        have hwhole : (text.take (nameLength text) ++ '(' :: inner.take (blanksLength inner)) ++
            inner.drop (blanksLength inner) = text := by
          rw [List.append_assoc, List.cons_append, List.take_append_drop, ← hdrop, hsplit]
        have hstarts : StartsUrl text := by
          rw [← hwhole, List.append_assoc]
          exact startsUrl_of_isKeyword hname _
        rw [← hwhole] at hstarts
        have hopen := isOpen_scanUrl hstarts h
        rw [hwhole] at hopen
        rw [if_neg hquote]
        exact hopen
    · contradiction
  · contradiction

/-- What is wrong with a token that is no comment, where no backslash stands: it is cut short, or it
lacks its end. -/
theorem isOpen_scan {lineComments : Bool} {c : Char} {cs : Text} {problem : Problem}
    (hc : c ≠ '\\') (htrivia : (scan lineComments c cs).token.isTrivia = false)
    (h : (scan lineComments c cs).problem = some problem) :
    (scan lineComments c cs).token.isBad = true ∨
      IsOpen (c :: cs) (scan lineComments c cs).token := by
  have hnone : ∀ {scan : Scan}, scan.problem = none → scan.problem ≠ some problem :=
    fun hscan h => by rw [hscan] at h; contradiction
  generalize hscan : scan lineComments c cs = found at h htrivia ⊢
  unfold scan at hscan
  simp only at hscan
  split at hscan
  · subst hscan
    contradiction
  split at hscan
  · subst hscan
    contradiction
  split at hscan
  · subst hscan
    exact absurd h (hnone (problem_scanNumeric _))
  split at hscan
  · split at hscan
    · subst hscan
      unfold scanComment at htrivia
      simp only at htrivia
      split at htrivia <;> contradiction
    · split at hscan
      · subst hscan
        contradiction
      · subst hscan
        contradiction
    · subst hscan
      contradiction
  · subst hscan
    exact @isOpen_scanString .double _ _ h
  · subst hscan
    exact @isOpen_scanString .single _ _ h
  · split at hscan <;> (subst hscan; contradiction)
  · split at hscan <;> (subst hscan; contradiction)
  · split at hscan <;> (subst hscan; contradiction)
  · split at hscan
    · subst hscan
      contradiction
    · split at hscan
      · subst hscan
        exact isOpen_scanIdentLike h
      · subst hscan
        contradiction
  · exact absurd rfl hc
  · split at hscan
    · subst hscan
      exact isOpen_scanIdentLike h
    · subst hscan
      contradiction

end Token

/-! ### Words -/

def Text.IsWord (lineComments : Bool) (name : Text) : Prop :=
  ∀ follow, Separates follow → Token.Spells lineComments follow (.ident name) name

def Text.isIdentifier (name : Text) : Bool := startsName name && name.all isNameChar

theorem Text.isIdentifier_iff {name : Text} :
    name.isIdentifier = true ↔ startsName name = true ∧ ∀ c ∈ name, isNameChar c = true := by
  rw [isIdentifier, Bool.and_eq_true, List.all_eq_true]

/-- A name without escapes is over where no name goes on. -/
theorem Text.nameEnds_of_isIdentifier {name : Text} (h : name.isIdentifier = true) {follow : Text}
    (hunit : nameUnit follow = 0) :
    NameEnds name follow ∧ startsName (name ++ follow) = true := by
  obtain ⟨hstarts, hchars⟩ := isIdentifier_iff.1 h
  have hends := nameEnds_of_plain hchars hunit
  have hne : name ≠ [] := by
    rintro rfl
    contradiction
  have hnil : NameEnds name [] := nameEnds_of_plain hchars rfl
  refine ⟨hends, (hnil.startsName_congr hends hne).trans ?_⟩
  rwa [List.append_nil]

/-- Without a backslash a name that was read is a name without escapes. -/
theorem Text.isIdentifier_of_nameEnds {name follow : Text} (hplain : '\\' ∉ name)
    (hstarts : startsName (name ++ follow) = true) (hends : NameEnds name follow) :
    name.isIdentifier = true := by
  have hunit : ∀ c ∈ name, ∀ rest : Text,
      nameUnit (c :: rest) = if isNameChar c then 1 else 0 :=
    fun c hc rest => nameUnit_of_ne (fun heq => hplain (heq ▸ hc)) rest
  have hchars : ∀ c ∈ name, isNameChar c = true := by
    intro c hc
    obtain ⟨rest, hone⟩ := forall_of_chainLength
      (fun c hc rest => by rw [hunit c hc]; split <;> omega) hends c hc
    rw [hunit c hc] at hone
    split at hone
    · assumption
    · contradiction
  have hnil : NameEnds name [] := nameEnds_of_plain hchars rfl
  refine isIdentifier_iff.2 ⟨?_, hchars⟩
  rwa [← hends.startsName_congr hnil (hends.ne_nil hstarts), List.append_nil] at hstarts

/-- Whether a text goes on with no name, no bracket of a function and no end of a `-->`. -/
structure EndsName (follow : Text) : Prop where
  unit : nameUnit follow = 0
  bracket : follow.head? ≠ some '('
  arrow : follow.head? ≠ some '>'

theorem endsName_cons {c : Char} (hname : isNameChar c = false) (hc : c ∉ ['\\', '(', '>'])
    (rest : Text) : EndsName (c :: rest) := by
  simp only [List.mem_cons, List.not_mem_nil, or_false, not_or] at hc
  obtain ⟨hbackslash, hbracket, harrow⟩ := hc
  refine ⟨?_, fun hhead => hbracket (Option.some.inj hhead), fun hhead =>
    harrow (Option.some.inj hhead)⟩
  rw [nameUnit_of_ne hbackslash, hname, if_neg Bool.false_ne_true]

theorem Separates.endsName {follow : Text} (h : Separates follow) : EndsName follow where
  unit := nameUnit_of_separates h
  bracket := fun hhead => absurd (h _ hhead) (by decide)
  arrow := fun hhead => absurd (h _ hhead) (by decide)

theorem Text.spells_of_isIdentifier {lineComments : Bool} {name : Text}
    (h : name.isIdentifier = true) {follow : Text} (hfollow : EndsName follow) :
    Token.Spells lineComments follow (.ident name) name := by
  obtain ⟨hends, hstarts⟩ := nameEnds_of_isIdentifier h hfollow.unit
  exact .ident hstarts hends hfollow.bracket fun _ => hfollow.arrow

/-- Characters of a name behind a `#` are over where no name goes on. -/
theorem Token.spells_hash {lineComments : Bool} {name : Text} (hne : name ≠ [])
    (hchars : ∀ c ∈ name, isNameChar c = true) {follow : Text} (hfollow : EndsName follow) :
    Spells lineComments follow (.hash name (startsName name)) ('#' :: name) := by
  have hends := nameEnds_of_plain hchars hfollow.unit
  have hnil : NameEnds name [] := nameEnds_of_plain hchars rfl
  have hstarts := hnil.startsName_congr hends hne
  rw [List.append_nil] at hstarts
  rw [← hstarts]
  exact .hash hne hends

/-- A name without escapes is a word. -/
theorem Text.isWord_of_isIdentifier {lineComments : Bool} {name : Text}
    (h : name.isIdentifier = true) : IsWord lineComments name :=
  fun _ hfollow => spells_of_isIdentifier h hfollow.endsName

/-- A name of letters alone has no escapes. -/
theorem Text.isIdentifier_of_isAlpha {name : Text} (hne : name ≠ [])
    (h : name.all Char.isAlpha = true) : name.isIdentifier = true := by
  rw [List.all_eq_true] at h
  obtain ⟨c, name, rfl⟩ := List.exists_cons_of_ne_nil hne
  have hstart : ∀ d ∈ c :: name, isNameStart d = true := fun d hd => by
    simp [isNameStart, h d hd]
  refine isIdentifier_iff.2 ⟨startsName_of_isNameStart (hstart c List.mem_cons_self) name, ?_⟩
  exact fun d hd => by simp [isNameChar, hstart d hd]

theorem Text.isWord_of_isAlpha {lineComments : Bool} {name : Text} (hne : name ≠ [])
    (h : name.all Char.isAlpha = true) : IsWord lineComments name :=
  isWord_of_isIdentifier (isIdentifier_of_isAlpha hne h)

end Css
