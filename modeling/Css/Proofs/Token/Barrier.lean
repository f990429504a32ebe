import Css.Proofs.Token.Scanning
import Css.Proofs.Token.Tiles

/-!
# Barriers

A token that ends before a closing curly bracket or a semicolon does not depend on which of them it
is, nor on what follows it: no lexical form looks past a character that it cannot hold. So a text
that is cut into tokens in front of such a barrier is cut into the same ones in front of another.
-/

namespace Css

inductive IsBarrier : Text → Prop
  | curly (rest : Text) : IsBarrier ('}' :: rest)
  | semicolon (rest : Text) : IsBarrier (';' :: rest)

theorem IsBarrier.ne_nil {x : Text} (hx : IsBarrier x) : x ≠ [] := by
  cases hx <;> exact List.cons_ne_nil _ _

variable {x y : Text}

/-! ### Lengths of lexical forms -/

theorem drop_barrier {front : Text} {n : Nat} (hn : n ≤ front.length) (x : Text) :
    (front ++ x).drop n = front.drop n ++ x :=
  List.drop_append_of_le_length hn

theorem takeWhile_barrier (hx : IsBarrier x) {p : Char → Bool} (hcurly : p '}' = false)
    (hsemicolon : p ';' = false) (front : Text) :
    (front ++ x).takeWhile p = front.takeWhile p := by
  induction front with
  | nil => cases hx <;> simp [hcurly, hsemicolon]
  | cons c front ih => simp only [List.cons_append, List.takeWhile_cons, ih]

theorem take_takeWhile_barrier (hx : IsBarrier x) {p : Char → Bool} (hcurly : p '}' = false)
    (hsemicolon : p ';' = false) (n : Nat) (front : Text) :
    ((front ++ x).take n).takeWhile p = (front.take n).takeWhile p := by
  induction front generalizing n with
  | nil => cases hx <;> cases n <;> simp [hcurly, hsemicolon]
  | cons c front ih =>
    cases n with
    | zero => rfl
    | succ n => simp only [List.cons_append, List.take_succ_cons, List.takeWhile_cons, ih]

theorem blanksLength_barrier (hx : IsBarrier x) (front : Text) :
    blanksLength (front ++ x) = blanksLength front :=
  congrArg List.length (takeWhile_barrier hx rfl rfl front)

theorem digitsLength_barrier (hx : IsBarrier x) (front : Text) :
    digitsLength (front ++ x) = digitsLength front :=
  congrArg List.length (takeWhile_barrier hx rfl rfl front)

theorem blankLength_barrier (hx : IsBarrier x) (front : Text) :
    blankLength (front ++ x) = blankLength front := by
  rcases front with _ | ⟨c, _ | ⟨d, front⟩⟩
  · cases hx <;> rfl
  · by_cases hc : c = '\r'
    · subst hc; cases hx <;> rfl
    · simp [blankLength, hc]
  · by_cases hc : c = '\r' ∧ d = '\n'
    · obtain ⟨rfl, rfl⟩ := hc
      rfl
    · have hone : ∀ tail, blankLength (c :: d :: tail) = if isBlank c then 1 else 0 := by
        intro tail
        rw [blankLength]
        rintro tail' rfl heq
        exact hc ⟨rfl, (List.cons.inj heq).1⟩
      rw [List.cons_append, List.cons_append, hone, hone]

theorem escapeLength_barrier (hx : IsBarrier x) (hy : IsBarrier y) (front : Text) :
    escapeLength (front ++ x) = escapeLength (front ++ y) := by
  rcases front with _ | ⟨c, _ | ⟨d, front⟩⟩
  · cases hx <;> cases hy <;> rfl
  · by_cases hc : c = '\\'
    · subst hc; cases hx <;> cases hy <;> rfl
    · simp [escapeLength, hc]
  · by_cases hc : c = '\\'
    · subst hc
      have hdigits : (((d :: front).take 6).takeWhile isHexDigit).length ≤ (d :: front).length := by
        have h1 := length_takeWhile_le isHexDigit ((d :: front).take 6)
        have h2 := List.length_take_le' 6 (d :: front)
        omega
      simp only [List.cons_append, escapeLength]
      rw [← List.cons_append, ← List.cons_append, take_takeWhile_barrier hx rfl rfl,
        take_takeWhile_barrier hy rfl rfl, drop_barrier hdigits, drop_barrier hdigits,
        blankLength_barrier hx, blankLength_barrier hy]
    · simp [escapeLength, hc]

theorem nameUnit_barrier (hx : IsBarrier x) (hy : IsBarrier y) (front : Text) :
    nameUnit (front ++ x) = nameUnit (front ++ y) := by
  cases front with
  | nil => cases hx <;> cases hy <;> rfl
  | cons c front =>
    simp only [List.cons_append, nameUnit]
    rw [← List.cons_append, ← List.cons_append, escapeLength_barrier hx hy]

theorem stringUnit_barrier (quote : Quote) (hx : IsBarrier x) (hy : IsBarrier y) (front : Text) :
    stringUnit quote (front ++ x) = stringUnit quote (front ++ y) := by
  rcases front with _ | ⟨c, _ | ⟨d, front⟩⟩
  · cases hx <;> cases hy <;> cases quote <;> rfl
  · by_cases hc : c = '\\'
    · subst hc
      cases hx <;> cases hy <;> simp [stringUnit, isNewline, escapeLength, isHexDigit]
    · simp [stringUnit, hc]
  · by_cases hc : c = '\\'
    · subst hc
      simp only [List.cons_append, stringUnit]
      have hblank := blankLength_barrier hx (d :: front)
      have hblank' := blankLength_barrier hy (d :: front)
      have hescape := escapeLength_barrier hx hy ('\\' :: d :: front)
      simp only [List.cons_append] at hblank hblank' hescape
      rw [hblank, hblank', hescape]
    · simp [stringUnit, hc]

theorem urlUnit_barrier (hx : IsBarrier x) (hy : IsBarrier y) (front : Text) :
    urlUnit (front ++ x) = urlUnit (front ++ y) := by
  cases front with
  | nil => cases hx <;> cases hy <;> rfl
  | cons c front =>
    simp only [List.cons_append, urlUnit]
    rw [← List.cons_append, ← List.cons_append, escapeLength_barrier hx hy]

theorem badUrlUnit_barrier (hx : IsBarrier x) (hy : IsBarrier y) (front : Text) :
    badUrlUnit (front ++ x) = badUrlUnit (front ++ y) := by
  cases front with
  | nil => cases hx <;> cases hy <;> rfl
  | cons c front =>
    simp only [List.cons_append, badUrlUnit]
    rw [← List.cons_append, ← List.cons_append, escapeLength_barrier hx hy]

/-- A chain that ends before the barrier. One that holds the barrier may go on behind it. -/
theorem chainLength_barrier {unit : Text → Nat}
    (hsame : ∀ front, unit (front ++ x) = unit (front ++ y)) (hne : y ≠ []) (front : Text)
    (h : chainLength unit (front ++ y) ≤ front.length) :
    chainLength unit (front ++ x) = chainLength unit (front ++ y) := by
  induction hlength : front.length using Nat.strongRecOn generalizing front with
  | ind length ih =>
    cases front with
    | nil =>
      -- no unit starts at the one barrier, so none does at the other
      have hend : unit y = 0 := by
        cases y with
        | nil => contradiction
        | cons c rest =>
          rw [List.nil_append, chainLength] at h
          split at h
          · assumption
          · simp at h
      have hend' : unit x = 0 := (hsame []).trans hend
      have hzero : ∀ {z}, unit z = 0 → chainLength unit z = 0 := by
        intro z hz
        cases z with
        | nil => rw [chainLength]
        | cons c rest => rw [chainLength, hz]
      rw [List.nil_append, List.nil_append, hzero hend', hzero hend]
    | cons c front =>
      have hunit := hsame (c :: front)
      simp only [List.cons_append] at hunit h ⊢
      rw [chainLength] at h
      rw [chainLength, chainLength, hunit]
      split
      · rfl
      · rename_i n hn
        simp only [hn, List.length_cons] at h
        have hle : n ≤ front.length := by omega
        rw [drop_barrier hle] at h ⊢
        rw [drop_barrier hle, ih (front.drop n).length _ (front.drop n) _ rfl]
        · simp only [List.length_drop, List.length_cons] at hlength ⊢
          omega
        · simp only [List.length_drop]
          omega

theorem nameLength_barrier (hx : IsBarrier x) (hy : IsBarrier y) {front : Text}
    (h : nameLength (front ++ y) ≤ front.length) :
    nameLength (front ++ x) = nameLength (front ++ y) :=
  chainLength_barrier (nameUnit_barrier hx hy) hy.ne_nil front h

theorem commentLength_barrier (hy : IsBarrier y) {front : Text}
    (h : commentLength (front ++ y) < front.length) :
    commentLength (front ++ x) = commentLength (front ++ y) := by
  induction front with
  | nil => simp at h
  | cons c front ih =>
    cases front with
    | nil => cases hy <;> simp [commentLength] at h
    | cons d front =>
      by_cases hend : c = '*' ∧ d = '/'
      · obtain ⟨rfl, rfl⟩ := hend
        rfl
      · have hstep : ∀ tail, commentLength (c :: d :: tail) = commentLength (d :: tail) + 1 := by
          intro tail
          rw [commentLength]
          rintro tail' rfl heq
          exact hend ⟨rfl, (List.cons.inj heq).1⟩
        simp only [List.cons_append, hstep] at h ih ⊢
        rw [ih (by simpa using h)]

/-! ### Names and numerals -/

theorem startsPlainName_barrier (hx : IsBarrier x) (hy : IsBarrier y) (front : Text) :
    startsPlainName (front ++ x) = startsPlainName (front ++ y) := by
  cases front with
  | nil => cases hx <;> cases hy <;> rfl
  | cons c front =>
    simp only [List.cons_append, startsPlainName]
    rw [← List.cons_append, ← List.cons_append, escapeLength_barrier hx hy]

theorem startsName_barrier (hx : IsBarrier x) (hy : IsBarrier y) (front : Text) :
    startsName (front ++ x) = startsName (front ++ y) := by
  have hplain := startsPlainName_barrier hx hy front
  rcases front with _ | ⟨c, _ | ⟨d, front⟩⟩
  · cases hx <;> cases hy <;> rfl
  · by_cases hc : c = '-'
    · subst hc; cases hx <;> cases hy <;> rfl
    · simpa [startsName, hc] using hplain
  · by_cases hc : c = '-'
    · subst hc
      by_cases hd : d = '-'
      · subst hd; rfl
      · have := startsPlainName_barrier hx hy (d :: front)
        simpa [startsName, hd] using this
    · simpa [startsName, hc] using hplain

theorem signLength_barrier (hx : IsBarrier x) (front : Text) :
    signLength (front ++ x) = signLength front := by
  cases front with
  | nil => cases hx <;> rfl
  | cons c front =>
    by_cases hplus : c = '+'
    · subst hplus; rfl
    · by_cases hminus : c = '-'
      · subst hminus; rfl
      · simp [signLength, hplus, hminus]

theorem fractionLength_barrier (hx : IsBarrier x) (front : Text) :
    fractionLength (front ++ x) = fractionLength front := by
  cases front with
  | nil => cases hx <;> rfl
  | cons c front =>
    by_cases hpoint : c = '.'
    · subst hpoint
      simp only [List.cons_append, fractionLength, digitsLength_barrier hx]
    · simp [fractionLength, hpoint]

theorem exponentLength_barrier (hx : IsBarrier x) (front : Text) :
    exponentLength (front ++ x) = exponentLength front := by
  cases front with
  | nil => cases hx <;> rfl
  | cons c front =>
    simp only [List.cons_append, exponentLength, signLength_barrier hx]
    rw [drop_barrier (signLength_le front), digitsLength_barrier hx]

theorem numeralParts_barrier (hx : IsBarrier x) (front : Text) :
    numeralParts (front ++ x) = numeralParts front := by
  have hsign := signLength_le front
  have hdigits := digitsLength_le (front.drop (signLength front))
  have hfraction := fractionLength_le
    (front.drop (signLength front + digitsLength (front.drop (signLength front))))
  simp only [List.length_drop] at hdigits hfraction
  simp only [numeralParts, signLength_barrier hx]
  rw [drop_barrier hsign, digitsLength_barrier hx, drop_barrier (by omega),
    fractionLength_barrier hx, drop_barrier (by omega), exponentLength_barrier hx]

theorem numeralLength_barrier (hx : IsBarrier x) (front : Text) :
    numeralLength (front ++ x) = numeralLength front := by
  simp only [numeralLength, numeralParts_barrier hx]

theorem startsNumeral_barrier (hx : IsBarrier x) (front : Text) :
    startsNumeral (front ++ x) = startsNumeral front := by
  rw [startsNumeral, signLength_barrier hx, drop_barrier (signLength_le front), startsNumeral]
  rcases front.drop (signLength front) with _ | ⟨c, _ | ⟨d, tail⟩⟩
  · cases hx <;> rfl
  · by_cases hc : c = '.'
    · subst hc; cases hx <;> rfl
    · simp [hc]
  · by_cases hc : c = '.'
    · subst hc; rfl
    · simp [hc]

/-! ### Tokens -/

theorem take_barrier {front : Text} {n : Nat} (hn : n ≤ front.length) (x : Text) :
    (front ++ x).take n = front.take n :=
  List.take_append_of_le_length hn

theorem isQuote_head?_barrier (hx : IsBarrier x) (hy : IsBarrier y) (front : Text) :
    ((front ++ x).head?.map isQuote).getD false = ((front ++ y).head?.map isQuote).getD false := by
  cases front with
  | nil => cases hx <;> cases hy <;> rfl
  | cons c front => rfl

theorem take_eq_barrier (hx : IsBarrier x) (word : Text) (hcurly : '}' ∉ word)
    (hsemicolon : ';' ∉ word) (front : Text) :
    (front ++ x).take word.length = word ↔ front.take word.length = word := by
  induction word generalizing front with
  | nil => simp
  | cons c word ih =>
    obtain ⟨hc, hmem⟩ := not_or.1 (mt List.mem_cons.2 hcurly)
    obtain ⟨hc', hmem'⟩ := not_or.1 (mt List.mem_cons.2 hsemicolon)
    cases front with
    | nil => cases hx <;> simp [hc, hc']
    | cons d front =>
      simp only [List.cons_append, List.length_cons, List.take_succ_cons, List.cons.injEq,
        ih hmem hmem' front]

theorem takeWhile_eq_of_length_le {p : Char → Bool} (hy : IsBarrier y)
    (hcurly : p '}' = true) (hsemicolon : p ';' = true) {front : Text}
    (h : ((front ++ y).takeWhile p).length ≤ front.length) :
    (front ++ x).takeWhile p = (front ++ y).takeWhile p := by
  induction front with
  | nil => cases hy <;> simp [hcurly, hsemicolon] at h
  | cons c front ih =>
    simp only [List.cons_append, List.takeWhile_cons] at h ⊢
    split
    · rename_i hc
      simp only [hc, if_true, List.length_cons, Nat.add_le_add_iff_right] at h
      rw [ih h]
    · rfl

namespace Token

theorem scanNumeric_barrier (hx : IsBarrier x) (hy : IsBarrier y) (front : Text)
    (h : (scanNumeric (front ++ y)).length ≤ front.length) :
    scanNumeric (front ++ x) = scanNumeric (front ++ y) := by
  have hle := numeralLength_le front
  simp only [scanNumeric, numeralLength_barrier hx, numeralLength_barrier hy,
    numeralParts_barrier hx, numeralParts_barrier hy, take_barrier hle, drop_barrier hle] at h ⊢
  generalize hafter : front.drop (numeralLength front) = after at h ⊢
  have hlength : numeralLength front + after.length = front.length := by
    rw [← hafter, List.length_drop]
    omega
  rw [startsName_barrier hx hy after]
  split
  · rename_i hname
    simp only [hname, if_true] at h
    have hunit : nameLength (after ++ y) ≤ after.length := by omega
    rw [nameLength_barrier hx hy hunit, take_barrier hunit, take_barrier hunit]
  · rcases after with _ | ⟨c, after⟩
    · cases hx <;> cases hy <;> rfl
    · by_cases hc : c = '%'
      · subst hc; rfl
      · simp [hc]

theorem scanString_barrier (quote : Quote) (hx : IsBarrier x) (hy : IsBarrier y) {front : Text}
    (h : (scanString quote (front ++ y)).length ≤ front.length + 1) :
    scanString quote (front ++ x) = scanString quote (front ++ y) := by
  have hshort : chainLength (stringUnit quote) (front ++ y) ≤ front.length := by
    simp only [scanString] at h
    split at h
    · dsimp only at h; omega
    · split at h <;> (dsimp only at h; omega)
  have hsame := chainLength_barrier (stringUnit_barrier quote hx hy) hy.ne_nil front hshort
  simp only [scanString, hsame, drop_barrier hshort, take_barrier hshort]
  rcases front.drop (chainLength (stringUnit quote) (front ++ y)) with _ | ⟨c, after⟩
  · cases hx <;> cases hy <;> cases quote <;> rfl
  · rfl

theorem scanComment_barrier (hx : IsBarrier x) (hy : IsBarrier y) {front : Text}
    (h : (scanComment (front ++ y)).length ≤ front.length + 2) :
    scanComment (front ++ x) = scanComment (front ++ y) := by
  have hshort : commentLength (front ++ y) < front.length := by
    have hle := commentLength_le (front ++ y)
    have hpos := List.length_pos_iff.2 hy.ne_nil
    simp only [List.length_append] at hle
    simp only [scanComment] at h
    split at h
    · rename_i hempty
      simp only [List.isEmpty_iff, List.drop_eq_nil_iff, List.length_append] at hempty
      dsimp only at h
      omega
    · dsimp only at h
      omega
  have hsame := commentLength_barrier (x := x) hy hshort
  simp only [scanComment, hsame, drop_barrier (Nat.le_of_lt hshort),
    take_barrier (Nat.le_of_lt hshort)]
  cases front.drop (commentLength (front ++ y)) with
  | nil => cases hx <;> cases hy <;> rfl
  | cons c rest => rfl

theorem scanLineComment_barrier (hy : IsBarrier y) {front : Text}
    (h : (scanLineComment (front ++ y)).length ≤ front.length + 2) :
    scanLineComment (front ++ x) = scanLineComment (front ++ y) := by
  simp only [scanLineComment] at h ⊢
  rw [takeWhile_eq_of_length_le hy rfl rfl (by omega)]

theorem scanBadUrl_barrier (hx : IsBarrier x) (hy : IsBarrier y) (passed : Nat) (front : Text)
    (h : (scanBadUrl passed (front ++ y)).length ≤ passed + front.length) :
    scanBadUrl passed (front ++ x) = scanBadUrl passed (front ++ y) := by
  have hshort : chainLength badUrlUnit (front ++ y) ≤ front.length := by
    simp only [scanBadUrl] at h
    omega
  have hsame := chainLength_barrier (badUrlUnit_barrier hx hy) hy.ne_nil front hshort
  simp only [scanBadUrl, hsame, drop_barrier hshort]
  cases front.drop (chainLength badUrlUnit (front ++ y)) with
  | nil => cases hx <;> cases hy <;> simp
  | cons c rest => simp

theorem scanUrl_barrier (hx : IsBarrier x) (hy : IsBarrier y) (passed : Nat) {front : Text}
    (h : (scanUrl passed (front ++ y)).length ≤ passed + front.length) :
    scanUrl passed (front ++ x) = scanUrl passed (front ++ y) := by
  have hshort : chainLength urlUnit (front ++ y) ≤ front.length := by
    have hbad : ∀ n text, n ≤ (scanBadUrl n text).length := fun n text => by
      simp only [scanBadUrl]
      omega
    simp only [scanUrl] at h
    split at h
    · dsimp only at h; omega
    · split at h
      · dsimp only at h; omega
      · dsimp only at h; omega
      · have hle := Nat.le_trans (hbad _ _) h
        omega
  have hsame := chainLength_barrier (urlUnit_barrier hx hy) hy.ne_nil front hshort
  obtain ⟨after, hafter⟩ : ∃ after, front.drop (chainLength urlUnit (front ++ y)) = after :=
    ⟨_, rfl⟩
  have hlength : chainLength urlUnit (front ++ y) + after.length = front.length := by
    rw [← hafter, List.length_drop]
    omega
  have hblanks := blanksLength_le after
  have hdrop := List.length_drop (i := blanksLength after) (l := after)
  -- what stands behind the characters of the url, and behind the blanks after them
  have hurl : (front ++ x).drop (chainLength urlUnit (front ++ x)) = after ++ x := by
    rw [hsame, drop_barrier hshort, hafter]
  have hurl' : (front ++ y).drop (chainLength urlUnit (front ++ y)) = after ++ y := by
    rw [drop_barrier hshort, hafter]
  have hend : ∀ {z}, IsBarrier z → (after ++ z).drop (blanksLength (after ++ z)) =
      after.drop (blanksLength after) ++ z := by
    intro z hz
    rw [blanksLength_barrier hz, drop_barrier hblanks]
  rcases hcase : after.drop (blanksLength after) with _ | ⟨c, tail⟩
  · rw [hcase] at hend hdrop
    -- a url that the barrier cuts off behind blanks
    have hcut : ∀ {z}, IsBarrier z →
        (front ++ z).drop (chainLength urlUnit (front ++ z)) = after ++ z →
        scanUrl passed (front ++ z) = scanBadUrl
          (passed + chainLength urlUnit (front ++ z) + blanksLength (after ++ z)) z := by
      intro z hz hafter
      have hbehind := hend hz
      cases hz <;> exact scanUrl_bad hafter hbehind (by decide)
    rw [hcut hy hurl'] at h ⊢
    rw [hcut hx hurl, hsame, blanksLength_barrier hx, blanksLength_barrier hy] at *
    refine scanBadUrl_barrier hx hy _ [] ?_
    simp only [List.length_nil] at hdrop ⊢
    exact Nat.le_trans h (by omega)
  · rw [hcase] at hend hdrop
    by_cases hc : c = ')'
    · subst hc
      rw [scanUrl_closed hurl (hend hx), scanUrl_closed hurl' (hend hy), hsame,
        blanksLength_barrier hx, blanksLength_barrier hy, take_barrier hshort, take_barrier hshort]
    · rw [scanUrl_bad hurl' (hend hy) hc] at h ⊢
      rw [scanUrl_bad hurl (hend hx) hc, hsame, blanksLength_barrier hx,
        blanksLength_barrier hy] at *
      refine scanBadUrl_barrier hx hy _ (c :: tail) ?_
      exact Nat.le_trans h (by omega)

/-! ### Identifiers, functions and urls -/

theorem scanIdentLike_barrier (hx : IsBarrier x) (hy : IsBarrier y) (front : Text)
    (h : (scanIdentLike (front ++ y)).length ≤ front.length) :
    scanIdentLike (front ++ x) = scanIdentLike (front ++ y) := by
  have hshort := Nat.le_trans (nameLength_le_scanIdentLike (front ++ y)) h
  have hsame := nameLength_barrier hx hy hshort
  obtain ⟨after, hafter⟩ : ∃ after, front.drop (nameLength (front ++ y)) = after := ⟨_, rfl⟩
  have hlength : nameLength (front ++ y) + after.length = front.length := by
    rw [← hafter, List.length_drop]
    omega
  have hname : (front ++ x).drop (nameLength (front ++ x)) = after ++ x := by
    rw [hsame, drop_barrier hshort, hafter]
  have hname' : (front ++ y).drop (nameLength (front ++ y)) = after ++ y := by
    rw [drop_barrier hshort, hafter]
  by_cases hopen : after.head? = some '('
  · obtain ⟨inner, rfl⟩ := List.head?_eq_some_iff.1 hopen
    have hblanks := blanksLength_le inner
    have hdrop := List.length_drop (i := blanksLength inner) (l := inner)
    rw [List.length_cons] at hlength
    rw [List.cons_append] at hname hname'
    rw [scanIdentLike_of_bracket hname'] at h ⊢
    rw [scanIdentLike_of_bracket hname, hsame, take_barrier hshort, take_barrier hshort] at *
    simp only [blanksLength_barrier hx, blanksLength_barrier hy, drop_barrier hblanks,
      isQuote_head?_barrier hx hy] at h ⊢
    split
    · rename_i hurl
      split
      · rfl
      · rename_i hquote
        simp only [hurl, hquote, if_true, Bool.false_eq_true, if_false] at h
        refine scanUrl_barrier hx hy _ (Nat.le_trans h ?_)
        omega
    · rfl
  · have hhead : ∀ {z}, IsBarrier z → (after ++ z).head? ≠ some '(' := fun hz => by
      cases after with
      | nil => cases hz <;> simp
      | cons c after => simpa using hopen
    rw [scanIdentLike_of_no_bracket (by rw [hname]; exact hhead hx),
      scanIdentLike_of_no_bracket (by rw [hname']; exact hhead hy), hsame, take_barrier hshort,
      take_barrier hshort]

theorem scan_slash_barrier (hx : IsBarrier x) (hy : IsBarrier y) (lineComments : Bool)
    {front : Text} (h : (scan lineComments '/' (front ++ y)).length ≤ front.length + 1) :
    scan lineComments '/' (front ++ x) = scan lineComments '/' (front ++ y) := by
  rcases front with _ | ⟨d, front⟩
  · cases hx <;> cases hy <;> rfl
  by_cases hstar : d = '*'
  · subst hstar
    exact scanComment_barrier hx hy h
  by_cases hslash : d = '/'
  · subst hslash
    simp only [List.cons_append, scan_lineComment] at h ⊢
    split
    · rename_i hon
      rw [if_pos hon] at h
      exact scanLineComment_barrier hy h
    · rfl
  · rw [scan_slash _ (by simpa using hstar) (by simp [hslash]),
      scan_slash _ (by simpa using hstar) (by simp [hslash])]

theorem scan_hash_barrier (hx : IsBarrier x) (hy : IsBarrier y) (lineComments : Bool)
    {front : Text} (h : (scan lineComments '#' (front ++ y)).length ≤ front.length + 1) :
    scan lineComments '#' (front ++ x) = scan lineComments '#' (front ++ y) := by
  have hshort : nameLength (front ++ y) ≤ front.length := by
    rw [scan_hash] at h
    split at h
    · omega
    · dsimp only at h
      omega
  rw [scan_hash, scan_hash, nameLength_barrier hx hy hshort, startsName_barrier hx hy,
    take_barrier hshort, take_barrier hshort]

theorem scan_at_barrier (hx : IsBarrier x) (hy : IsBarrier y) (lineComments : Bool)
    {front : Text} (h : (scan lineComments '@' (front ++ y)).length ≤ front.length + 1) :
    scan lineComments '@' (front ++ x) = scan lineComments '@' (front ++ y) := by
  rw [scan_at] at h ⊢
  rw [scan_at, startsName_barrier hx hy]
  split
  · rename_i hstarts
    rw [if_pos hstarts] at h
    have hshort : nameLength (front ++ y) ≤ front.length := by
      dsimp only at h
      omega
    rw [nameLength_barrier hx hy hshort, take_barrier hshort, take_barrier hshort]
  · rfl

theorem scan_less_barrier (hx : IsBarrier x) (hy : IsBarrier y) (lineComments : Bool)
    (front : Text) : scan lineComments '<' (front ++ x) = scan lineComments '<' (front ++ y) := by
  have hcdo : ∀ {z}, IsBarrier z →
      ((front ++ z).take 3 = ['!', '-', '-'] ↔ front.take 3 = ['!', '-', '-']) :=
    fun hz => take_eq_barrier hz ['!', '-', '-'] (by decide) (by decide) front
  by_cases hopens : front.take 3 = ['!', '-', '-']
  · obtain ⟨after, rfl⟩ : ∃ after, front = '!' :: '-' :: '-' :: after :=
      ⟨front.drop 3, by rw [← List.take_append_drop 3 front, hopens]; rfl⟩
    rfl
  · rw [scan_less _ (mt (hcdo hx).1 hopens), scan_less _ (mt (hcdo hy).1 hopens)]

theorem scan_hyphen_barrier (hx : IsBarrier x) (hy : IsBarrier y) (lineComments : Bool)
    {front : Text} (hnumeral : startsNumeral ('-' :: front) = false)
    (h : (scan lineComments '-' (front ++ y)).length ≤ front.length + 1) :
    scan lineComments '-' (front ++ x) = scan lineComments '-' (front ++ y) := by
  have hnone : ∀ {z}, IsBarrier z → startsNumeral ('-' :: (front ++ z)) = false :=
    fun hz => (startsNumeral_barrier hz ('-' :: front)).trans hnumeral
  have hcdc : ∀ {z}, IsBarrier z →
      ((front ++ z).take 2 = ['-', '>'] ↔ front.take 2 = ['-', '>']) :=
    fun hz => take_eq_barrier hz ['-', '>'] (by decide) (by decide) front
  by_cases hcloses : front.take 2 = ['-', '>']
  · obtain ⟨after, rfl⟩ : ∃ after, front = '-' :: '>' :: after :=
      ⟨front.drop 2, by rw [← List.take_append_drop 2 front, hcloses]; rfl⟩
    rfl
  · rw [scan_hyphen _ (hnone hy) (mt (hcdc hy).1 hcloses)] at h ⊢
    have hname : startsName ('-' :: (front ++ x)) = startsName ('-' :: (front ++ y)) :=
      startsName_barrier hx hy ('-' :: front)
    rw [scan_hyphen _ (hnone hx) (mt (hcdc hx).1 hcloses), hname]
    split
    · rename_i hstarts
      rw [if_pos hstarts] at h
      exact scanIdentLike_barrier hx hy ('-' :: front) h
    · rfl

theorem scan_backslash_barrier (hx : IsBarrier x) (hy : IsBarrier y) (lineComments : Bool)
    {front : Text} (h : (scan lineComments '\\' (front ++ y)).length ≤ front.length + 1) :
    scan lineComments '\\' (front ++ x) = scan lineComments '\\' (front ++ y) := by
  have hname : startsName ('\\' :: (front ++ x)) = startsName ('\\' :: (front ++ y)) :=
    startsName_barrier hx hy ('\\' :: front)
  rw [scan_backslash] at h ⊢
  rw [scan_backslash, hname]
  split
  · rename_i hstarts
    rw [if_pos hstarts] at h
    exact scanIdentLike_barrier hx hy ('\\' :: front) h
  · rfl

/-- A token that ends before a barrier is the same before every barrier. -/
theorem scan_barrier (hx : IsBarrier x) (hy : IsBarrier y) (lineComments : Bool) (c : Char)
    {front : Text} (h : (scan lineComments c (front ++ y)).length ≤ front.length + 1) :
    scan lineComments c (front ++ x) = scan lineComments c (front ++ y) := by
  have hnumeral : ∀ {z}, IsBarrier z →
      startsNumeral (c :: (front ++ z)) = startsNumeral (c :: front) :=
    fun hz => startsNumeral_barrier hz (c :: front)
  cases hchar : ofChar? c with
  | some token => rw [scan_of_ofChar? _ hchar, scan_of_ofChar? _ hchar]
  | none =>
  by_cases hblank : isBlank c = true
  · rw [scan_of_isBlank _ hblank, scan_of_isBlank _ hblank, blanksLength_barrier hx,
      blanksLength_barrier hy]
  by_cases hnum : startsNumeral (c :: front) = true
  · rw [scan_numeral _ ((hnumeral hy).trans hnum)] at h ⊢
    rw [scan_numeral _ ((hnumeral hx).trans hnum)]
    exact scanNumeric_barrier hx hy (c :: front) h
  by_cases hstart : isNameStart c = true
  · rw [scan_of_isNameStart _ hstart] at h ⊢
    rw [scan_of_isNameStart _ hstart]
    exact scanIdentLike_barrier hx hy (c :: front) h
  by_cases hslash : c = '/'
  · subst hslash
    exact scan_slash_barrier hx hy lineComments h
  by_cases hquote : ∃ quote : Quote, c = quote.toChar
  · obtain ⟨quote, rfl⟩ := hquote
    rw [scan_quote] at h ⊢
    rw [scan_quote, scanString_barrier quote hx hy h]
  by_cases hhash : c = '#'
  · subst hhash
    exact scan_hash_barrier hx hy lineComments h
  by_cases hat : c = '@'
  · subst hat
    exact scan_at_barrier hx hy lineComments h
  by_cases hless : c = '<'
  · subst hless
    exact scan_less_barrier hx hy lineComments front
  rw [Bool.not_eq_true] at hnum
  by_cases hhyphen : c = '-'
  · subst hhyphen
    exact scan_hyphen_barrier hx hy lineComments hnum h
  by_cases hbackslash : c = '\\'
  · subst hbackslash
    exact scan_backslash_barrier hx hy lineComments h
  by_cases hsign : c = '+' ∨ c = '.'
  · rw [scan_sign _ hsign ((hnumeral hx).trans hnum), scan_sign _ hsign ((hnumeral hy).trans hnum)]
  have hdigit : c.isDigit = false := by
    cases hdigit : c.isDigit with
    | false => rfl
    | true => rw [startsNumeral_of_isDigit hdigit front] at hnum; contradiction
  have hother : startsToken c = false := by
    have hdouble : c ≠ '"' := fun hc => hquote ⟨.double, hc⟩
    have hsingle : c ≠ '\'' := fun hc => hquote ⟨.single, hc⟩
    obtain ⟨hplus, hpoint⟩ := not_or.1 hsign
    simp [startsToken, *]
  rw [scan_of_not_startsToken _ hother, scan_of_not_startsToken _ hother]

end Token

/-! ### Texts that end in a closing curly bracket -/

namespace Reading

theorem first_closing {lineComments : Bool} {offset : Nat} {c : Char} {cs : Text}
    {bracket : Bracket} (h : (first lineComments offset c cs).lexeme.token = .closing bracket) :
    (Token.scan lineComments c cs).length = 1 := by
  have hscan : (Token.scan lineComments c cs).token = .closing bracket := h
  rw [Token.scan_of_ofChar? _ (Token.ofChar?_of_closes? lineComments (by rw [hscan]; rfl))]

theorem all_closing (lineComments : Bool) (offset : Nat) (rest : Text) :
    all lineComments offset ('}' :: rest) =
      first lineComments offset '}' [] :: all lineComments (offset + 1) rest := by
  rw [all_cons]
  rfl

theorem first_closing_char {lineComments : Bool} {offset : Nat} {c : Char} {cs : Text}
    (h : (first lineComments offset c cs).lexeme.token = .closing .curly) : c = '}' := by
  have hscan : (Token.scan lineComments c cs).token = .closing .curly := h
  have hchar : Token.ofChar? c = some (.closing .curly) :=
    Token.ofChar?_of_closes? lineComments (by rw [hscan]; rfl)
  unfold Token.ofChar? at hchar
  split at hchar <;> first | rfl | simp at hchar

/-- A text whose last token is a closing curly bracket ends in that character. -/
theorem exists_front {lineComments : Bool} {offset : Nat} {text : Text}
    {readings : List Reading} {last : Reading}
    (hlast : all lineComments offset text = readings ++ [last])
    (hclosing : last.lexeme.token = .closing .curly) : ∃ front, text = front ++ ['}'] := by
  fun_induction all lineComments offset text generalizing readings with
  | case1 => simp at hlast
  | case2 offset c cs reading =>
    rename_i ih
    cases readings with
    | nil =>
      obtain ⟨rfl, hnil⟩ := List.cons.inj hlast
      rw [first_closing hclosing] at hnil
      obtain rfl : cs = [] := by
        cases cs with
        | nil => rfl
        | cons d cs => exact absurd hnil (all_ne_nil _ _ (List.cons_ne_nil d cs))
      rw [first_closing_char hclosing]
      exact ⟨[], rfl⟩
    | cons head readings =>
      obtain ⟨front, hfront⟩ := ih (List.cons.inj hlast).2
      refine ⟨(c :: cs).take (Token.scan lineComments c cs).length ++ front, ?_⟩
      rw [List.append_assoc, ← hfront, List.take_append_drop]

/-- A text whose last token is a closing curly bracket is cut into its tokens whatever follows. -/
theorem all_barrier (lineComments : Bool) (offset : Nat) (front rest : Text)
    {readings : List Reading} {last : Reading}
    (hlast : all lineComments offset (front ++ ['}']) = readings ++ [last])
    (hclosing : last.lexeme.token = .closing .curly) :
    all lineComments offset (front ++ '}' :: rest) =
      all lineComments offset (front ++ ['}']) ++
        all lineComments (offset + Text.byteLength (front ++ ['}'])) rest := by
  induction hlength : front.length using Nat.strongRecOn generalizing offset front readings with
  | ind length ih =>
    cases front with
    | nil =>
      rw [List.nil_append, List.nil_append, all_closing, all_closing _ _ [], all,
        List.singleton_append]
      rfl
    | cons c front =>
      have hbounds := Token.scan_length lineComments c (front ++ ['}'])
      rw [List.cons_append, all_cons] at hlast
      have hshort : (Token.scan lineComments c (front ++ ['}'])).length ≤ front.length + 1 := by
        by_cases hall : (Token.scan lineComments c (front ++ ['}'])).length = front.length + 2
        · have hend : (c :: (front ++ ['}'])).drop
              (Token.scan lineComments c (front ++ ['}'])).length = [] :=
            List.drop_eq_nil_of_le (by simp [hall])
          rw [hend, all] at hlast
          -- the one token of the text would be a bracket, but a bracket has one character
          obtain rfl : first lineComments offset c (front ++ ['}']) = last := by
            have := congrArg List.getLast? hlast
            simpa using this
          have := first_closing hclosing
          omega
        · simp only [List.length_append, List.length_singleton] at hbounds
          omega
      have hsame := Token.scan_barrier (.curly rest) (.curly []) lineComments c hshort
      have htake : ∀ tail, (c :: (front ++ '}' :: tail)).take
          (Token.scan lineComments c (front ++ ['}'])).length =
            (c :: front).take (Token.scan lineComments c (front ++ ['}'])).length := by
        intro tail
        rw [← List.cons_append]
        exact List.take_append_of_le_length hshort
      have hdrop : ∀ tail, (c :: (front ++ '}' :: tail)).drop
          (Token.scan lineComments c (front ++ ['}'])).length =
            (c :: front).drop (Token.scan lineComments c (front ++ ['}'])).length ++
              '}' :: tail := by
        intro tail
        rw [← List.cons_append]
        exact List.drop_append_of_le_length hshort
      have hfirst : first lineComments offset c (front ++ '}' :: rest) =
          first lineComments offset c (front ++ ['}']) := by
        simp only [first, hsame, htake]
      rw [htake, hdrop] at hlast
      rw [List.cons_append, List.cons_append, all_cons, all_cons, hsame, hfirst, htake, htake,
        hdrop, hdrop]
      cases readings with
      | nil =>
        have hnil := (List.cons.inj hlast).2
        exact absurd hnil (all_ne_nil _ _ (by simp))
      | cons reading readings =>
        have hrest := (List.cons.inj hlast).2
        have hbytes := Text.byteLength_append
          ((c :: front).take (Token.scan lineComments c (front ++ ['}'])).length)
          ((c :: front).drop (Token.scan lineComments c (front ++ ['}'])).length)
        rw [List.take_append_drop] at hbytes
        have hless : ((c :: front).drop
            (Token.scan lineComments c (front ++ ['}'])).length).length < length := by
          rw [List.length_drop, List.length_cons] at *
          omega
        rw [ih _ hless _ _ hrest rfl, List.cons_append,
          show c :: (front ++ ['}']) = (c :: front) ++ ['}'] from rfl,
          Text.byteLength_append _ ['}'], Text.byteLength_append _ ['}'], hbytes]
        simp only [Nat.add_assoc]

end Reading

end Css
