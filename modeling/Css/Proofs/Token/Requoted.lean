import Css.Proofs.Token.Plain

/-!
# Texts in other quotes

What a url or a string holds is scanned in one form and written in another: without quotes where it
needs none, else in the quotes that only stand in it behind a backslash. Escapes end at the same
place in every form, so the form that is written ends where the text does
(`Url.IsHeld.toText_cases`).
-/

namespace Css

/-! ### Escapes -/

theorem isBlank_of_mem_take_blankLength {text : Text} {c : Char}
    (h : c ∈ text.take (blankLength text)) : isBlank c = true := by
  unfold blankLength at h
  split at h
  · obtain rfl | rfl : c = '\r' ∨ c = '\n' := by simpa using h
    · rfl
    · rfl
  · rename_i d rest _
    split at h
    · obtain rfl : c = d := by simpa using h
      assumption
    · simp at h
  · simp at h

theorem blankLength_pos {c : Char} (h : isBlank c = true) (cs : Text) :
    0 < blankLength (c :: cs) := by
  unfold blankLength
  split
  · exact Nat.two_pos
  · rename_i heq
    obtain ⟨rfl, rfl⟩ := List.cons.inj heq
    rw [if_pos h]
    exact Nat.one_pos
  · contradiction

/-- An escape is a backslash, a character, and hexadecimal digits and blanks. -/
theorem mem_take_escapeLength {c d : Char} {cs : Text}
    (h : d ∈ cs.take (escapeLength ('\\' :: c :: cs) - 2)) :
    isHexDigit d = true ∨ isBlank d = true := by
  simp only [escapeLength] at h
  split at h
  · simp at h
  split at h
  · rename_i hhex
    rw [List.take_succ_cons, List.takeWhile_cons, if_pos hhex, List.length_cons,
      List.drop_succ_cons] at h
    obtain ⟨digits, hdigits⟩ : ∃ digits, digits = (cs.take 5).takeWhile isHexDigit := ⟨_, rfl⟩
    rw [← hdigits] at h
    have hall : ∀ d ∈ digits, isHexDigit d = true := by
      rw [hdigits]
      exact List.all_eq_true.1 List.all_takeWhile
    have hprefix : digits <+: cs := by
      rw [hdigits]
      exact (List.takeWhile_prefix _).trans (List.take_prefix _ _)
    obtain ⟨rest, rfl⟩ := hprefix
    rw [List.drop_left, show 1 + (digits.length + 1) + blankLength rest - 2 =
      digits.length + blankLength rest by omega, List.take_length_add_append] at h
    obtain h | h := List.mem_append.1 h
    · exact .inl (hall d h)
    · exact .inr (isBlank_of_mem_take_blankLength h)
  · simp at h

theorem isNewline_of_escapeLength {c : Char} {cs : Text}
    (h : 0 < escapeLength ('\\' :: c :: cs)) : isNewline c = false := by
  cases hnewline : isNewline c with
  | false => rfl
  | true => simp [escapeLength, hnewline] at h

theorem urlUnit_backslash (cs : Text) : urlUnit ('\\' :: cs) = escapeLength ('\\' :: cs) := rfl

theorem stringUnit_escape {quote : Quote} {c : Char} (h : isNewline c = false) (cs : Text) :
    stringUnit quote ('\\' :: c :: cs) = escapeLength ('\\' :: c :: cs) := by
  rw [stringUnit, if_neg (by rw [h]; exact Bool.false_ne_true)]

theorem stringUnit_newline {quote : Quote} {c : Char} (h : isNewline c = true) (cs : Text) :
    stringUnit quote ('\\' :: c :: cs) = 1 + blankLength (c :: cs) := by
  rw [stringUnit, if_pos h]

/-- Whether a unit that starts with a backslash takes the character behind it, and then
hexadecimal digits and blanks; and every other unit is one character. -/
structure TakesEscapes (unit : Text → Nat) : Prop where
  char : ∀ {c : Char}, c ≠ '\\' → ∀ cs, unit (c :: cs) ≤ 1
  escape : ∀ {c : Char} {cs : Text}, 0 < unit ('\\' :: c :: cs) → 2 ≤ unit ('\\' :: c :: cs)
  more : ∀ {c d : Char} {cs : Text}, d ∈ cs.take (unit ('\\' :: c :: cs) - 2) →
    isHexDigit d = true ∨ isBlank d = true

theorem takesEscapes_urlUnit : TakesEscapes urlUnit where
  char := fun hc cs => by rw [urlUnit_eq hc]; split <;> omega
  escape := by
    intro c cs hpos
    rw [urlUnit_backslash] at hpos ⊢
    exact two_le_escapeLength hpos
  more := mem_take_escapeLength

theorem takesEscapes_stringUnit (quote : Quote) : TakesEscapes (stringUnit quote) where
  char := fun hc cs => by rw [stringUnit_of_ne hc]; split <;> omega
  escape := by
    intro c cs hpos
    cases hnewline : isNewline c with
    | false =>
      rw [stringUnit_escape hnewline] at hpos ⊢
      exact two_le_escapeLength hpos
    | true =>
      have hblank : isBlank c = true := by rw [isBlank, hnewline]; rfl
      have hpos := blankLength_pos hblank cs
      rw [stringUnit_newline hnewline]
      omega
  more := by
    intro c d cs hmem
    cases hnewline : isNewline c with
    | false =>
      rw [stringUnit_escape hnewline] at hmem
      exact mem_take_escapeLength hmem
    | true =>
      have hblank : isBlank c = true := by rw [isBlank, hnewline]; rfl
      obtain ⟨n, hn⟩ := Nat.exists_eq_add_of_lt (blankLength_pos hblank cs)
      rw [Nat.zero_add] at hn
      rw [stringUnit_newline hnewline, hn, show 1 + (n + 1) - 2 = n by omega] at hmem
      refine .inr (@isBlank_of_mem_take_blankLength (c :: cs) _ ?_)
      rw [hn, List.take_succ_cons]
      exact List.mem_cons_of_mem c hmem

/-! ### Characters behind backslashes -/

namespace Url

theorem hasUnescaped_cons {c : Char} (h : c ≠ '\\') (sought : Char) (cs : Text) :
    hasUnescaped sought (c :: cs) = (c == sought || hasUnescaped sought cs) := by
  rw [hasUnescaped]
  · exact fun heq => absurd heq h
  · exact fun _ _ heq => absurd heq h

theorem hasUnescaped_drop {sought : Char} {cs : Text} {n : Nat}
    (h : ∀ c ∈ cs.take n, c ≠ '\\' ∧ c ≠ sought) :
    hasUnescaped sought (cs.drop n) = hasUnescaped sought cs := by
  induction cs generalizing n with
  | nil => rw [List.drop_nil]
  | cons c cs ih =>
    cases n with
    | zero => rfl
    | succ n =>
      obtain ⟨hc, hcs⟩ := List.forall_mem_cons.1 h
      rw [List.drop_succ_cons, ih hcs, hasUnescaped_cons hc.1, beq_false_of_ne hc.2, Bool.false_or]

end Url

variable {unit : Text → Nat} {front follow : Text}

/-- Nothing in a unit but its first character stands without a backslash before it, and is a double
quote. -/
theorem TakesEscapes.hasUnescaped_drop (h : TakesEscapes unit) (hfirst : front.head? ≠ some '"')
    (hpos : 0 < unit (front ++ follow)) (hle : unit (front ++ follow) ≤ front.length) :
    Url.hasUnescaped '"' (front.drop (unit (front ++ follow))) = Url.hasUnescaped '"' front := by
  rcases front with _ | ⟨c, front⟩
  · exact absurd hle (Nat.not_le.2 hpos)
  by_cases hc : c = '\\'
  · subst hc
    rcases front with _ | ⟨c, front⟩
    · have hone : unit (['\\'] ++ follow) = 1 := Nat.le_antisymm hle hpos
      rw [hone]
      rfl
    · simp only [List.cons_append] at hpos hle ⊢
      obtain ⟨n, hn⟩ := Nat.exists_eq_add_of_le' (h.escape hpos)
      rw [hn] at hle
      have hmore : ∀ d ∈ front.take n, d ≠ '\\' ∧ d ≠ '"' := by
        intro d hd
        have hgoes : isHexDigit d = true ∨ isBlank d = true := by
          refine @TakesEscapes.more _ h c d (front ++ follow) ?_
          rw [hn, Nat.add_sub_cancel,
            List.take_append_of_le_length (by simpa using Nat.le_of_succ_le_succ hle)]
          exact hd
        constructor <;> rintro rfl <;> exact absurd hgoes (by decide)
      rw [hn, List.drop_succ_cons, List.drop_succ_cons, Url.hasUnescaped,
        Url.hasUnescaped_drop hmore]
  · have hone : unit (c :: front ++ follow) = 1 := Nat.le_antisymm (h.char hc _) hpos
    rw [hone, List.drop_succ_cons, List.drop_zero, Url.hasUnescaped_cons hc,
      beq_false_of_ne (fun heq => hfirst (congrArg some heq)), Bool.false_or]

/-- A chain that stops at double quotes passes none but behind a backslash. -/
theorem TakesEscapes.hasUnescaped_eq_false (h : TakesEscapes unit)
    (hstop : ∀ cs, unit ('"' :: cs) = 0)
    (hchain : chainLength unit (front ++ follow) = front.length) :
    Url.hasUnescaped '"' front = false := by
  refine chain_induction (motive := fun front => Url.hasUnescaped '"' front = false) rfl ?_ hchain
  intro front hpos hle ih
  rw [← h.hasUnescaped_drop _ hpos hle]
  · exact ih
  · intro hfirst
    obtain ⟨rest, rfl⟩ := List.head?_eq_some_iff.1 hfirst
    rw [List.cons_append, hstop] at hpos
    contradiction

/-! ### From one form to another -/

theorem Url.isBareChar_spec {c : Char} (h : isBareChar c = true) :
    (∀ quote : Quote, c ≠ quote.toChar) ∧ isNewline c = false := by
  simp only [isBareChar, isBlank, isQuote, Bool.not_eq_true', Bool.or_eq_false_iff,
    beq_eq_false_iff_ne] at h
  refine ⟨fun quote => ?_, h.1.1.1.1.1.1⟩
  cases quote
  · exact h.1.1.1.2.1
  · exact h.1.1.1.2.2

/-- Neither a name nor an escape goes on with a closing bracket. -/
theorem followsAs_bracket (x y : Text) : FollowsAs x (')' :: y) := by
  rintro c hc hgoes
  obtain rfl := Option.some.inj hc
  exact absurd hgoes (by decide)

variable {content x : Text}

/-- A string in single quotes is one in double quotes too, if each of these in it stands behind a
backslash. -/
theorem stringLength_double
    (h : chainLength (stringUnit .single) (content ++ '\'' :: x) = content.length)
    (hnone : Url.hasUnescaped '"' content = false) (y : Text) :
    chainLength (stringUnit .double) (content ++ '"' :: y) = content.length := by
  refine chainLength_transfer (motive := fun front => Url.hasUnescaped '"' front = false)
    (fun front hnone hpos hle => ?_) (stringUnit_toChar .double y) h hnone
  have hfirst : front.head? ≠ some '"' := by
    intro hfirst
    obtain ⟨rest, rfl⟩ := List.head?_eq_some_iff.1 hfirst
    rw [Url.hasUnescaped_cons (by decide)] at hnone
    contradiction
  refine ⟨@stringUnit_requote .single .double x y front hfirst hpos hle, ?_⟩
  rw [(takesEscapes_stringUnit .single).hasUnescaped_drop hfirst hpos hle]
  exact hnone

/-- What a string holds needs no quotes if its characters can stand in a url. -/
theorem urlLength_of_string {quote : Quote}
    (h : chainLength (stringUnit quote) (content ++ quote.toChar :: x) = content.length)
    (hbare : ∀ c ∈ content, Url.isBareChar c = true) (y : Text) :
    chainLength urlUnit (content ++ ')' :: y) = content.length := by
  refine chainLength_transfer (motive := fun front => ∀ c ∈ front, Url.isBareChar c = true)
    (fun front hbare hpos hle => ⟨?_, fun c hc => hbare c (List.mem_of_mem_drop hc)⟩) rfl h hbare
  rcases front with _ | ⟨c, front⟩
  · exact absurd hle (Nat.not_le.2 hpos)
  obtain ⟨hc, hfront⟩ := List.forall_mem_cons.1 hbare
  by_cases hbackslash : c = '\\'
  · subst hbackslash
    rcases front with _ | ⟨d, front⟩
    · have hescape := (takesEscapes_stringUnit quote).escape hpos
      exact absurd hescape (Nat.not_le.2 (Nat.lt_succ_of_le hle))
    · have hd := (Url.isBareChar_spec (hfront d List.mem_cons_self)).2
      simp only [List.cons_append, stringUnit_escape hd] at hpos hle ⊢
      exact escapeLength_congr ('\\' :: d :: front) (followsAs_bracket _ y) hpos hle
  · obtain ⟨hquote, hnewline⟩ := Url.isBareChar_spec hc
    rw [List.cons_append, List.cons_append, urlUnit_eq hbackslash, if_pos hc,
      stringUnit_of_ne hbackslash, if_neg (by simp [hquote, hnewline])]

/-- What a url without quotes holds can stand in double quotes. -/
theorem stringLength_of_url (h : chainLength urlUnit (content ++ x) = content.length) (y : Text) :
    chainLength (stringUnit .double) (content ++ '"' :: y) = content.length := by
  refine chainLength_transfer (motive := fun _ => True)
    (fun front _ hpos hle => ⟨?_, trivial⟩) (stringUnit_toChar .double y) h trivial
  rcases front with _ | ⟨c, front⟩
  · exact absurd hle (Nat.not_le.2 hpos)
  by_cases hbackslash : c = '\\'
  · subst hbackslash
    rcases front with _ | ⟨d, front⟩
    · exact absurd (two_le_escapeLength hpos) (Nat.not_le.2 (Nat.lt_succ_of_le hle))
    · rw [List.cons_append, List.cons_append, stringUnit_escape (isNewline_of_escapeLength hpos)]
      exact escapeLength_congr ('\\' :: d :: front) (followsAs_toChar x .double y) hpos hle
  · rw [List.cons_append, urlUnit_eq hbackslash] at hpos
    rw [List.cons_append, List.cons_append, urlUnit_eq hbackslash, stringUnit_of_ne hbackslash]
    split at hpos
    · rename_i hc
      obtain ⟨hquote, hnewline⟩ := Url.isBareChar_spec hc
      rw [if_pos hc, if_neg (by simp [hquote, hnewline])]
    · contradiction

namespace Url

inductive IsHeld (target : Text) : Prop
  | url {follow : Text} : chainLength urlUnit (target ++ follow) = target.length → IsHeld target
  | string {quote : Quote} {follow : Text} :
    chainLength (stringUnit quote) (target ++ quote.toChar :: follow) = target.length →
    IsHeld target

variable {target : Text}

/-- What a url token or a string that is closed holds. -/
theorem IsHeld.of_spells {lineComments : Bool} {follow raw : Text} {token : Token}
    (h : Token.Spells lineComments follow token raw)
    (htoken : token = .url target ∨ ∃ quote, token = .string target quote) : IsHeld target := by
  have hother : ∀ {c : Char}, Token.ofChar? c ≠ some token := by
    intro c hchar
    unfold Token.ofChar? at hchar
    obtain rfl | ⟨quote, rfl⟩ := htoken <;> split at hchar <;>
      first | contradiction | exact Token.noConfusion (Option.some.inj hchar)
  obtain rfl | ⟨quote, rfl⟩ := htoken
  · cases h with
    | single hchar => exact absurd hchar hother
    | url _ _ _ hlength => exact .url hlength
    | openUrl _ _ _ hlength => exact .url hlength
  · cases h with
    | single hchar => exact absurd hchar hother
    | string hlength => exact .string hlength

/-- A text that was held is written without quotes, and is a url there whatever follows, or in
quotes, and is a string there. -/
theorem IsHeld.toText_cases (h : IsHeld target) :
    (target ≠ [] ∧ toText target = "url".toList ++ '(' :: (target ++ [')']) ∧
        ∀ follow, chainLength urlUnit (target ++ ')' :: follow) = target.length) ∨
      isBare target = false ∧
        ∃ quote : Quote, toText target = "url".toList ++ '(' :: (quote.enclose target ++ [')']) ∧
          ∀ follow, chainLength (stringUnit quote) (target ++ quote.toChar :: follow) =
            target.length := by
  cases hbare : isBare target with
  | true =>
    obtain ⟨hne, hchars⟩ := isBare_iff.1 hbare
    refine .inl ⟨hne, by simp [toText, hbare], fun follow => ?_⟩
    cases h with
    | url hlength => exact urlLength_congr (followsAs_bracket _ _) rfl hlength
    | string hlength => exact urlLength_of_string hlength hchars follow
  | false =>
    refine .inr ⟨rfl, ?_⟩
    cases hdouble : hasUnescaped '"' target with
    | false =>
      refine ⟨.double, by simp [toText, hbare, hdouble], fun follow => ?_⟩
      cases h with
      | url hlength => exact stringLength_of_url hlength follow
      | @string quote _ hlength =>
        cases quote with
        | double => exact string_congr hlength follow
        | single => exact stringLength_double hlength hdouble follow
    | true =>
      refine ⟨.single, by simp [toText, hbare, hdouble], fun follow => ?_⟩
      cases h with
      | url hlength =>
        rw [takesEscapes_urlUnit.hasUnescaped_eq_false (fun _ => rfl) hlength] at hdouble
        contradiction
      | @string quote _ hlength =>
        cases quote with
        | single => exact string_congr hlength follow
        | double =>
          rw [(takesEscapes_stringUnit .double).hasUnescaped_eq_false (stringUnit_toChar .double)
            hlength] at hdouble
          contradiction

end Url

end Css
