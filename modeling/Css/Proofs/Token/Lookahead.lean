import Css.Proofs.Token.Scanning

/-!
# What follows a lexical form

A lexical form that ends inside a text is measured by a few characters of what stands behind that
text. Where those are replaced, the length stays if the new ones do not go on with the form.
-/

namespace Css

/-! ### Runs of characters -/

theorem take_takeWhile_congr {p : Char → Bool} (front : Text) {x y : Text} (n : Nat)
    (hy : ∀ c, y.head? = some c → p c = true → ∃ d, x.head? = some d ∧ p d = true)
    (h : (((front ++ x).take n).takeWhile p).length ≤ front.length) :
    ((front ++ y).take n).takeWhile p = ((front ++ x).take n).takeWhile p := by
  induction front generalizing n with
  | nil =>
    cases n with
    | zero => rfl
    | succ n =>
      have hx : (x.take (n + 1)).takeWhile p = [] := List.length_eq_zero_iff.1 (Nat.le_zero.1 h)
      rw [List.nil_append, List.nil_append, hx]
      cases y with
      | nil => rfl
      | cons c y =>
        cases hp : p c with
        | false => simp [hp]
        | true =>
          obtain ⟨d, hd, hpd⟩ := hy c rfl hp
          obtain ⟨tail, rfl⟩ := List.head?_eq_some_iff.1 hd
          simp [hpd] at hx
  | cons c front ih =>
    cases n with
    | zero => rfl
    | succ n =>
      simp only [List.cons_append, List.take_succ_cons, List.takeWhile_cons] at h ⊢
      cases hp : p c with
      | false => rfl
      | true =>
        simp only [hp, if_true, List.length_cons, Nat.add_le_add_iff_right] at h ⊢
        rw [ih n h]

theorem takeWhile_congr {p : Char → Bool} (front : Text) {x y : Text}
    (hy : ∀ c, y.head? = some c → p c = true → ∃ d, x.head? = some d ∧ p d = true)
    (h : ((front ++ x).takeWhile p).length ≤ front.length) :
    (front ++ y).takeWhile p = (front ++ x).takeWhile p := by
  have hx := List.take_of_length_le (Nat.le_max_left (front ++ x).length (front ++ y).length)
  have hy' := List.take_of_length_le (Nat.le_max_right (front ++ x).length (front ++ y).length)
  have hsame := take_takeWhile_congr front
    (max (front ++ x).length (front ++ y).length) hy (by rw [hx]; exact h)
  rwa [hx, hy'] at hsame

/-! ### Escapes and chains -/

/-- Whether a text goes on with a name, or with an escape at the end of one, only as another
does. -/
def FollowsAs (x y : Text) : Prop :=
  ∀ c, y.head? = some c → isHexDigit c = true ∨ isBlank c = true → x.head? = some c

theorem blankLength_congr (front : Text) {x y : Text} (hy : FollowsAs x y)
    (h : blankLength (front ++ x) ≤ front.length) :
    blankLength (front ++ y) = blankLength (front ++ x) := by
  have hone : ∀ {c : Char} {tail : Text}, (c = '\r' → tail.head? ≠ some '\n') →
      blankLength (c :: tail) = if isBlank c then 1 else 0 := by
    intro c tail hne
    unfold blankLength
    split
    · rename_i heq
      obtain ⟨rfl, rfl⟩ := List.cons.inj heq
      exact absurd rfl (hne rfl)
    · rename_i heq
      obtain ⟨rfl, rfl⟩ := List.cons.inj heq
      rfl
    · contradiction
  rcases front with _ | ⟨c, _ | ⟨d, front⟩⟩
  · have hx : blankLength x = 0 := Nat.le_zero.1 h
    rw [List.nil_append, List.nil_append, hx]
    cases y with
    | nil => rfl
    | cons c y =>
      cases hblank : isBlank c with
      | false => rw [hone (by rintro rfl; exact absurd hblank (by decide)), hblank]; rfl
      | true =>
        obtain ⟨tail, rfl⟩ := List.head?_eq_some_iff.1 (hy c rfl (.inr hblank))
        exfalso
        unfold blankLength at hx
        split at hx
        · contradiction
        · rename_i heq
          obtain ⟨rfl, rfl⟩ := List.cons.inj heq
          simp [hblank] at hx
        · contradiction
  · have hne : c = '\r' → x.head? ≠ some '\n' := by
      rintro rfl hhead
      obtain ⟨tail, rfl⟩ := List.head?_eq_some_iff.1 hhead
      exact absurd h (by simp [blankLength])
    have hne' : c = '\r' → y.head? ≠ some '\n' := fun hc hhead =>
      hne hc (hy '\n' hhead (.inr rfl))
    exact (hone hne').trans (hone hne).symm
  · by_cases hc : c = '\r' ∧ d = '\n'
    · obtain ⟨rfl, rfl⟩ := hc
      rfl
    · have hne : ∀ tail : Text, c = '\r' → (d :: tail).head? ≠ some '\n' := by
        rintro tail rfl hhead
        exact hc ⟨rfl, Option.some.inj hhead⟩
      exact (hone (hne _)).trans (hone (hne _)).symm

theorem escapeLength_congr (front : Text) {x y : Text} (hy : FollowsAs x y)
    (hpos : 0 < escapeLength (front ++ x)) (h : escapeLength (front ++ x) ≤ front.length) :
    escapeLength (front ++ y) = escapeLength (front ++ x) := by
  have hshort : ∀ {c : Char} {tail : Text}, c ≠ '\\' → escapeLength (c :: tail) = 0 := by
    intro c tail hc
    simp [escapeLength, hc]
  rcases front with _ | ⟨c, _ | ⟨d, front⟩⟩
  · exact absurd h (Nat.not_le.2 hpos)
  · -- A backslash alone is no escape, and with what follows it is longer than that.
    exfalso
    by_cases hc : c = '\\'
    · subst hc
      rcases x with _ | ⟨d, x⟩
      · exact absurd hpos (by decide)
      · simp only [List.singleton_append, escapeLength, List.length_singleton] at h hpos
        split at h
        · simp_all
        · split at h
          · rename_i hhex
            have : 0 < (((d :: x).take 6).takeWhile isHexDigit).length := by simp [hhex]
            omega
          · omega
    · rw [List.singleton_append, hshort hc] at hpos
      exact absurd hpos (by decide)
  · by_cases hc : c = '\\'
    · subst hc
      simp only [List.cons_append, escapeLength] at h hpos ⊢
      split at h
      · simp_all
      rename_i hnewline
      rw [if_neg hnewline, if_neg hnewline]
      split at h
      · rename_i hhex
        rw [if_pos hhex, if_pos hhex]
        rw [← List.cons_append, ← List.cons_append] at *
        simp only [List.length_cons] at h
        have hhexes : ∀ c, y.head? = some c → isHexDigit c = true →
            ∃ e, x.head? = some e ∧ isHexDigit e = true :=
          fun c hc hp => ⟨c, hy c hc (.inl hp), hp⟩
        have hdigits := take_takeWhile_congr (d :: front) 6 hhexes
          (by simp only [List.length_cons]; omega)
        rw [hdigits]
        generalize hm : (((d :: front ++ x).take 6).takeWhile isHexDigit).length = m at h ⊢
        have hle : m ≤ (d :: front).length := by
          simp only [List.length_cons]
          omega
        rw [List.drop_append_of_le_length hle] at h ⊢
        rw [List.drop_append_of_le_length hle, blankLength_congr _ hy]
        simp only [List.length_drop, List.length_cons]
        omega
      · rename_i hhex
        rw [if_neg hhex, if_neg hhex]
    · rw [List.cons_append, List.cons_append, hshort hc, List.cons_append, List.cons_append,
        hshort hc]

theorem two_le_escapeLength {cs : Text} (h : 0 < escapeLength ('\\' :: cs)) :
    2 ≤ escapeLength ('\\' :: cs) := by
  cases cs with
  | nil => contradiction
  | cons c cs =>
    simp only [escapeLength] at h ⊢
    split at h
    · contradiction
    rename_i hnewline
    rw [if_neg hnewline]
    split
    · rename_i hhex
      rw [List.take_succ_cons, List.takeWhile_cons, if_pos hhex, List.length_cons]
      omega
    · exact Nat.le_refl 2

theorem chainLength_of_pos {unit : Text → Nat} {front follow : Text}
    (hpos : 0 < unit (front ++ follow)) (hle : unit (front ++ follow) ≤ front.length) :
    chainLength unit (front ++ follow) =
      unit (front ++ follow) +
        chainLength unit (front.drop (unit (front ++ follow)) ++ follow) := by
  cases front with
  | nil => exact absurd hle (Nat.not_le.2 hpos)
  | cons c front =>
    rw [List.cons_append] at hpos hle ⊢
    cases hn : unit (c :: (front ++ follow)) with
    | zero => omega
    | succ n =>
      rw [hn, List.length_cons] at hle
      rw [chainLength, hn]
      simp only [List.drop_succ_cons]
      rw [List.drop_append_of_le_length (by omega)]

/-- What holds at the end of a chain that ends with a text, and before each of its units if it
holds behind it, holds of that text. -/
theorem chain_induction {unit : Text → Nat} {follow : Text} {motive : Text → Prop}
    (nil : motive [])
    (step : ∀ front : Text, 0 < unit (front ++ follow) → unit (front ++ follow) ≤ front.length →
      motive (front.drop (unit (front ++ follow))) → motive front)
    {front : Text} (h : chainLength unit (front ++ follow) = front.length) : motive front := by
  induction hlength : front.length using Nat.strongRecOn generalizing front with
  | ind length ih =>
    by_cases hne : front = []
    · rw [hne]
      exact nil
    have hunit : 0 < unit (front ++ follow) ∧ unit (front ++ follow) ≤ front.length := by
      obtain ⟨c, front, rfl⟩ := List.exists_cons_of_ne_nil hne
      rw [List.cons_append, chainLength] at h
      rw [List.cons_append]
      split at h <;> simp only [List.length_cons] at h ⊢ <;> omega
    obtain ⟨hpos, hle⟩ := hunit
    rw [chainLength_of_pos hpos hle] at h
    have hdrop := List.length_drop (i := unit (front ++ follow)) (l := front)
    exact step front hpos hle (ih _ (by omega) (by omega) rfl)

/-- A chain of units that are the same in front of another text ends where that text begins. -/
theorem chainLength_transfer {unit unit' : Text → Nat} {x y : Text} {motive : Text → Prop}
    (hunit : ∀ front, motive front → 0 < unit (front ++ x) → unit (front ++ x) ≤ front.length →
      unit' (front ++ y) = unit (front ++ x) ∧ motive (front.drop (unit (front ++ x))))
    (hend : unit' y = 0) {front : Text} (h : chainLength unit (front ++ x) = front.length)
    (hmotive : motive front) : chainLength unit' (front ++ y) = front.length := by
  refine chain_induction (motive := fun front =>
    motive front → chainLength unit' (front ++ y) = front.length) (fun _ => ?_) ?_ h hmotive
  · cases y with
    | nil => simp [chainLength]
    | cons c y => simp [chainLength, hend]
  · intro front hpos hle ih hmotive
    obtain ⟨hsame, hrest⟩ := hunit front hmotive hpos hle
    rw [← hsame] at hpos hle hrest ih
    rw [chainLength_of_pos hpos hle, ih hrest, List.length_drop]
    omega

/-- A chain that ends with a text ends there too where something else follows, if what follows
does not go on with it. -/
theorem chainLength_congr {unit : Text → Nat} {x y : Text}
    (hunit : ∀ front : Text, 0 < unit (front ++ x) → unit (front ++ x) ≤ front.length →
      unit (front ++ y) = unit (front ++ x))
    (hend : unit y = 0) {front : Text} (h : chainLength unit (front ++ x) = front.length) :
    chainLength unit (front ++ y) = front.length :=
  chainLength_transfer (motive := fun _ => True)
    (fun front _ hpos hle => ⟨hunit front hpos hle, trivial⟩) hend h trivial

/-- A chain takes all units of one character up to where no unit starts. -/
theorem chainLength_of_forall {unit : Text → Nat} {front follow : Text}
    (hfront : ∀ c ∈ front, ∀ rest, unit (c :: rest) = 1) (hend : unit follow = 0) :
    chainLength unit (front ++ follow) = front.length := by
  induction front with
  | nil =>
    cases follow with
    | nil => simp [chainLength]
    | cons c follow => simp [chainLength, hend]
  | cons c front ih =>
    obtain ⟨hc, hfront⟩ := List.forall_mem_cons.1 hfront
    rw [List.cons_append, chainLength, hc]
    simp only [List.drop_zero, List.length_cons, ih hfront]
    omega

/-- Where no unit is longer than a character, all characters of a chain are units. -/
theorem forall_of_chainLength {unit : Text → Nat} {front follow : Text}
    (hunit : ∀ c ∈ front, ∀ rest, unit (c :: rest) ≤ 1)
    (h : chainLength unit (front ++ follow) = front.length) :
    ∀ c ∈ front, ∃ rest, unit (c :: rest) = 1 := by
  induction front with
  | nil => exact List.forall_mem_nil _
  | cons c front ih =>
    obtain ⟨hc, hunit⟩ := List.forall_mem_cons.1 hunit
    have hone := hc (front ++ follow)
    rw [List.cons_append, chainLength] at h
    split at h
    · simp at h
    · rename_i n hn
      obtain rfl : n = 0 := by omega
      rw [List.drop_zero, List.length_cons] at h
      exact List.forall_mem_cons.2 ⟨⟨front ++ follow, hn⟩, ih hunit (by omega)⟩

/-! ### Names -/

def NameEnds (name follow : Text) : Prop := nameLength (name ++ follow) = name.length

theorem isNameChar_of_isHexDigit {c : Char} (h : isHexDigit c = true) : isNameChar c = true := by
  simp only [isHexDigit, Bool.or_eq_true, Bool.and_eq_true, decide_eq_true_eq] at h
  obtain (h | ⟨hlow, hhigh⟩) | ⟨hlow, hhigh⟩ := h
  · simp [isNameChar, h]
  · have halpha : c.isAlpha = true := isAlpha_iff.2 (.inr ⟨hlow, Nat.le_trans hhigh (by decide)⟩)
    simp [isNameChar, isNameStart, halpha]
  · have halpha : c.isAlpha = true := isAlpha_iff.2 (.inl ⟨hlow, Nat.le_trans hhigh (by decide)⟩)
    simp [isNameChar, isNameStart, halpha]

theorem followsAs_of_nameUnit {x y : Text} (hunit : nameUnit y = 0)
    (hblank : ∀ c, y.head? = some c → isBlank c = true → x.head? = some c) : FollowsAs x y := by
  rintro c hc (hhex | hblank')
  · obtain ⟨tail, rfl⟩ := List.head?_eq_some_iff.1 hc
    simp [nameUnit, isNameChar_of_isHexDigit hhex] at hunit
  · exact hblank c hc hblank'

theorem nameUnit_congr {front x y : Text} (hy : FollowsAs x y) (hpos : 0 < nameUnit (front ++ x))
    (h : nameUnit (front ++ x) ≤ front.length) :
    nameUnit (front ++ y) = nameUnit (front ++ x) := by
  cases front with
  | nil => exact absurd h (Nat.not_le.2 hpos)
  | cons c front =>
    simp only [List.cons_append, nameUnit] at hpos h ⊢
    split
    · rfl
    · rename_i hc
      rw [if_neg hc] at hpos h
      exact escapeLength_congr (c :: front) hy hpos h

theorem two_le_nameLength {cs : Text} (h : 0 < escapeLength ('\\' :: cs)) :
    2 ≤ nameLength ('\\' :: cs) := by
  have hescape := two_le_escapeLength h
  have hunit : nameUnit ('\\' :: cs) = escapeLength ('\\' :: cs) := rfl
  rw [nameLength, chainLength, hunit]
  split <;> omega

/-- A name ends before any text that does not go on with it; a blank behind an escape does. -/
theorem NameEnds.congr {name x y : Text} (h : NameEnds name x) (hunit : nameUnit y = 0)
    (hblank : ∀ c, y.head? = some c → isBlank c = true → x.head? = some c) : NameEnds name y :=
  chainLength_congr (fun _ => nameUnit_congr (followsAs_of_nameUnit hunit hblank)) hunit h

/-- A name without escapes ends before any text that does not go on with it. -/
theorem nameEnds_of_plain {name follow : Text} (hplain : ∀ c ∈ name, isNameChar c = true)
    (hunit : nameUnit follow = 0) : NameEnds name follow :=
  chainLength_of_forall (fun c hc rest => by rw [nameUnit, if_pos (hplain c hc)]) hunit

theorem NameEnds.nameUnit_eq_zero {name follow : Text} (h : NameEnds name follow) :
    nameUnit follow = 0 := by
  induction hlength : name.length using Nat.strongRecOn generalizing name with
  | ind length ih =>
    cases name with
    | nil =>
      have hzero : nameLength follow = 0 := h
      cases follow with
      | nil => rfl
      | cons c follow =>
        rw [nameLength, chainLength] at hzero
        split at hzero
        · assumption
        · simp at hzero
    | cons c name =>
      rw [NameEnds, List.cons_append, nameLength, chainLength] at h
      split at h
      · simp at h
      rename_i n hn
      have hle : n ≤ name.length := by
        simp only [List.length_cons] at h
        omega
      rw [List.drop_append_of_le_length hle] at h
      refine @ih (name.drop n).length ?_ (name.drop n) ?_ rfl
      · simp only [List.length_drop, List.length_cons] at hlength ⊢
        omega
      · simp only [NameEnds, nameLength, List.length_drop, List.length_cons] at h ⊢
        omega

theorem NameEnds.ne_nil {name follow : Text} (h : NameEnds name follow)
    (hstarts : startsName (name ++ follow) = true) : name ≠ [] := by
  rintro rfl
  have := nameLength_pos hstarts
  rw [show nameLength ([] ++ follow) = 0 from h] at this
  contradiction

theorem NameEnds.nameUnit_pos {c : Char} {name follow : Text}
    (h : NameEnds (c :: name) follow) : 0 < nameUnit (c :: (name ++ follow)) := by
  rw [NameEnds, List.cons_append, nameLength, chainLength] at h
  split at h
  · simp at h
  · omega

theorem NameEnds.tail {c : Char} {name follow : Text} (h : NameEnds (c :: name) follow)
    (hc : isNameChar c = true) : NameEnds name follow := by
  have hunit : nameUnit (c :: (name ++ follow)) = 1 := by rw [nameUnit, if_pos hc]
  rw [NameEnds, List.cons_append, nameLength, chainLength, hunit] at h
  simp only [List.drop_zero, List.length_cons] at h
  rw [NameEnds, nameLength]
  omega

theorem NameEnds.startsPlainName_eq {c : Char} {name follow : Text}
    (h : NameEnds (c :: name) follow) :
    startsPlainName (c :: (name ++ follow)) = (isNameStart c || !isNameChar c) := by
  have hpos := h.nameUnit_pos
  cases hchar : isNameChar c with
  | false =>
    rw [nameUnit, hchar, if_neg (by decide)] at hpos
    simp [startsPlainName, Nat.pos_iff_ne_zero.1 hpos]
  | true =>
    have hne : c ≠ '\\' := by rintro rfl; exact absurd hchar (by decide)
    simp [startsPlainName, escapeLength, hne]

theorem startsName_of_ne_hyphen {c : Char} (h : c ≠ '-') (cs : Text) :
    startsName (c :: cs) = startsPlainName (c :: cs) := by
  simp [startsName, h]

theorem startsName_hyphen {c : Char} (h : c ≠ '-') (cs : Text) :
    startsName ('-' :: c :: cs) = startsPlainName (c :: cs) := by
  simp [startsName, h]

/-- Whether a text starts a name is settled inside the name. -/
theorem NameEnds.startsName_congr {name x y : Text} (hx : NameEnds name x) (hy : NameEnds name y)
    (hne : name ≠ []) : startsName (name ++ y) = startsName (name ++ x) := by
  have halone : ∀ {follow : Text}, NameEnds ['-'] follow →
      startsName ('-' :: follow) = false := by
    intro follow h
    have hunit := h.nameUnit_eq_zero
    cases follow with
    | nil => rfl
    | cons c follow =>
      have hchar : isNameChar c = false := by
        cases hchar : isNameChar c with
        | false => rfl
        | true => simp [nameUnit, hchar] at hunit
      rw [nameUnit, hchar, if_neg (by decide)] at hunit
      have hstart : isNameStart c = false := by
        simp only [isNameChar, Bool.or_eq_false_iff] at hchar
        exact hchar.1.1
      rw [startsName_hyphen (by rintro rfl; exact absurd hchar (by decide)), startsPlainName,
        hstart, hunit]
      rfl
  rcases name with _ | ⟨c, _ | ⟨d, name⟩⟩
  · exact absurd rfl hne
  · by_cases hc : c = '-'
    · subst hc
      exact (halone hy).trans (halone hx).symm
    · rw [List.singleton_append, List.singleton_append, startsName_of_ne_hyphen hc,
        startsName_of_ne_hyphen hc]
      exact hy.startsPlainName_eq.trans hx.startsPlainName_eq.symm
  · by_cases hc : c = '-'
    · subst hc
      by_cases hd : d = '-'
      · subst hd
        rfl
      · simp only [List.cons_append]
        rw [startsName_hyphen hd, startsName_hyphen hd]
        exact (hy.tail (by decide)).startsPlainName_eq.trans
          (hx.tail (by decide)).startsPlainName_eq.symm
    · simp only [List.cons_append]
      rw [startsName_of_ne_hyphen hc, startsName_of_ne_hyphen hc]
      exact hy.startsPlainName_eq.trans hx.startsPlainName_eq.symm

/-! ### Numerals -/

def NumeralEnds (numeral follow : Text) : Prop := numeralLength (numeral ++ follow) = numeral.length

def startsDigit (text : Text) : Bool := (text.head?.map Char.isDigit).getD false

/-- What starts a name goes on with no digits of a numeral. -/
theorem no_fraction_of_startsName {text : Text} (h : startsName text = true) :
    startsDigit text = false ∧ fractionLength text = 0 := by
  rcases text with _ | ⟨c, cs⟩
  · contradiction
  have hc : c = '-' ∨ c = '\\' ∨ isNameStart c = true := by
    refine Decidable.byContradiction fun hne => ?_
    simp only [not_or, Bool.not_eq_true] at hne
    obtain ⟨hhyphen, hbackslash, hstart⟩ := hne
    rw [startsName_of_ne_hyphen hhyphen] at h
    simp [startsPlainName, escapeLength, hbackslash, hstart] at h
  obtain rfl | rfl | hc := hc
  · exact ⟨rfl, rfl⟩
  · exact ⟨rfl, rfl⟩
  · have hpoint : c ≠ '.' := by
      rintro rfl
      contradiction
    exact ⟨Token.isDigit_eq_false_of_isNameStart hc, by simp [fractionLength, hpoint]⟩

structure NumeralFollowsAs (x y : Text) : Prop where
  digit : startsDigit y = true → startsDigit x = true
  fraction : fractionLength y ≠ 0 → fractionLength x ≠ 0
  exponent : exponentLength y ≠ 0 → exponentLength x ≠ 0

theorem digitsLength_congr (front : Text) {x y : Text}
    (hy : startsDigit y = true → startsDigit x = true)
    (h : digitsLength (front ++ x) ≤ front.length) :
    digitsLength (front ++ y) = digitsLength (front ++ x) := by
  refine congrArg List.length (takeWhile_congr front ?_ h)
  intro c hc hdigit
  have hx := hy (by simp [startsDigit, hc, hdigit])
  cases x with
  | nil => contradiction
  | cons d x => exact ⟨d, rfl, hx⟩

theorem digitsLength_eq_zero {text : Text} : digitsLength text = 0 ↔ startsDigit text = false := by
  cases text with
  | nil => exact ⟨fun _ => rfl, fun _ => rfl⟩
  | cons c text => cases hdigit : c.isDigit <;> simp [digitsLength, startsDigit, hdigit]

theorem startsDigit_of_digitsLength {text : Text} (h : digitsLength text ≠ 0) :
    startsDigit text = true := by
  rwa [Ne, digitsLength_eq_zero, Bool.not_eq_false] at h

theorem fractionLength_congr {front x y : Text} (hy : NumeralFollowsAs x y)
    (h : fractionLength (front ++ x) ≤ front.length) :
    fractionLength (front ++ y) = fractionLength (front ++ x) := by
  cases front with
  | nil =>
    have hx : fractionLength x = 0 := Nat.le_zero.1 h
    have hy' : fractionLength y = 0 := Decidable.byContradiction fun hne => hy.fraction hne hx
    exact hy'.trans hx.symm
  | cons c front =>
    by_cases hc : c = '.'
    · subst hc
      simp only [List.cons_append, fractionLength, List.length_cons] at h ⊢
      have hdigits := digitsLength_congr front hy.digit
        (by split at h <;> omega)
      rw [hdigits]
    · simp [fractionLength, hc]

theorem signLength_append {front : Text} (h : front ≠ []) (x : Text) :
    signLength (front ++ x) = signLength front := by
  cases front with
  | nil => exact absurd rfl h
  | cons c front =>
    by_cases hplus : c = '+'
    · subst hplus; rfl
    · by_cases hminus : c = '-'
      · subst hminus; rfl
      · simp [signLength, hplus, hminus]

theorem exponentLength_congr {front x y : Text} (hy : NumeralFollowsAs x y)
    (h : exponentLength (front ++ x) = front.length) :
    exponentLength (front ++ y) = front.length := by
  cases front with
  | nil => exact Decidable.byContradiction fun hne => hy.exponent hne h
  | cons c front =>
    simp only [List.cons_append, exponentLength, List.length_cons] at h ⊢
    split at h
    · rename_i hexponent
      simp only [Bool.and_eq_true, bne_iff_ne, ne_eq] at hexponent
      have hne : front ≠ [] := by
        rintro rfl
        simp only [List.nil_append, List.length_nil] at h hexponent
        omega
      rw [signLength_append hne] at h hexponent
      rw [signLength_append hne]
      have hsign := signLength_le front
      rw [List.drop_append_of_le_length hsign] at h hexponent
      rw [List.drop_append_of_le_length hsign]
      have hdigits := digitsLength_congr (front.drop (signLength front)) hy.digit
        (by rw [List.length_drop]; omega)
      rw [hdigits, if_pos (by simpa using hexponent)]
      exact h
    · omega

theorem NumeralEnds.numeralParts_congr {numeral x y : Text} (hy : NumeralFollowsAs x y)
    (hne : numeral ≠ []) (h : NumeralEnds numeral x) :
    numeralParts (numeral ++ y) = numeralParts (numeral ++ x) := by
  simp only [NumeralEnds, numeralLength, numeralParts] at h ⊢
  rw [signLength_append hne] at h ⊢
  rw [signLength_append hne]
  have hsign := signLength_le numeral
  rw [List.drop_append_of_le_length hsign] at h ⊢
  rw [List.drop_append_of_le_length hsign]
  rw [digitsLength_congr _ hy.digit (by rw [List.length_drop]; omega)]
  generalize hwhole : signLength numeral + digitsLength (numeral.drop (signLength numeral) ++ x) =
    whole at h ⊢
  rw [List.drop_append_of_le_length (show whole ≤ numeral.length by omega)] at h ⊢
  rw [List.drop_append_of_le_length (show whole ≤ numeral.length by omega),
    fractionLength_congr hy (by rw [List.length_drop]; omega)]
  generalize fractionLength (numeral.drop whole ++ x) = fraction at h ⊢
  have hle : whole + fraction ≤ numeral.length := by omega
  rw [List.drop_append_of_le_length hle] at h ⊢
  rw [List.drop_append_of_le_length hle]
  have hexponent : exponentLength (numeral.drop (whole + fraction) ++ x) =
      (numeral.drop (whole + fraction)).length := by
    rw [List.length_drop]
    omega
  rw [exponentLength_congr hy hexponent, hexponent]

theorem NumeralEnds.congr {numeral x y : Text} (hy : NumeralFollowsAs x y)
    (hne : numeral ≠ []) (h : NumeralEnds numeral x) : NumeralEnds numeral y := by
  rw [NumeralEnds, numeralLength, h.numeralParts_congr hy hne]
  exact h

theorem NumeralEnds.numeralParts_eq {numeral x : Text} (hne : numeral ≠ [])
    (h : NumeralEnds numeral x) : numeralParts (numeral ++ x) = numeralParts numeral := by
  have hsame := h.numeralParts_congr (y := [])
    ⟨by simp [startsDigit], by simp [fractionLength], by simp [exponentLength]⟩ hne
  rw [List.append_nil] at hsame
  exact hsame.symm

/-- A numeral is one without what follows it. -/
theorem NumeralEnds.startsNumeral {numeral follow : Text} (h : NumeralEnds numeral follow)
    (hstarts : startsNumeral (numeral ++ follow) = true) : startsNumeral numeral = true := by
  have hne : numeral ≠ [] := by
    rintro rfl
    have := numeralLength_pos hstarts
    rw [show numeralLength ([] ++ follow) = 0 from h] at this
    contradiction
  have hsign := signLength_le numeral
  have htail : signLength numeral + (numeral.drop (signLength numeral)).length =
      numeral.length := by
    rw [List.length_drop]
    omega
  simp only [NumeralEnds, numeralLength, numeralParts, signLength_append hne] at h
  unfold Css.startsNumeral at hstarts ⊢
  rw [signLength_append hne] at hstarts
  have hdrop : (numeral ++ follow).drop (signLength numeral) =
      numeral.drop (signLength numeral) ++ follow := List.drop_append_of_le_length hsign
  rw [hdrop] at h hstarts
  generalize hrest : numeral.drop (signLength numeral) = tail at *
  rcases tail with _ | ⟨c, _ | ⟨d, tail⟩⟩
  · exfalso
    have hdigits : digitsLength follow = 0 := by
      simp only [List.nil_append, List.length_nil] at h htail
      omega
    simp only [List.nil_append, List.length_nil, hdigits, Nat.add_zero] at h htail hdrop hstarts
    rw [hdrop] at h
    split at hstarts
    · rename_i e rest
      have hzero : fractionLength ('.' :: e :: rest) = 0 := by omega
      simp [fractionLength, digitsLength, hstarts] at hzero
    · simp [digitsLength, hstarts] at hdigits
    · contradiction
  · by_cases hc : c = '.'
    · exfalso
      subst hc
      have hdigits : digitsLength ('.' :: follow) = 0 := rfl
      simp only [List.singleton_append, List.length_singleton, hdigits, Nat.add_zero]
        at h htail hdrop
      rw [hdrop] at h
      rcases follow with _ | ⟨e, follow⟩
      · contradiction
      · have hpos : 2 ≤ fractionLength ('.' :: e :: follow) := by
          have he : e.isDigit = true := hstarts
          simp [fractionLength, digitsLength, he]
          omega
        omega
    · simpa [hc] using hstarts
  · by_cases hc : c = '.'
    · subst hc
      exact hstarts
    · simpa [hc] using hstarts

theorem startsNumeral_append {numeral : Text} (h : startsNumeral numeral = true) (follow : Text) :
    startsNumeral (numeral ++ follow) = true := by
  have hne : numeral ≠ [] := by rintro rfl; contradiction
  unfold startsNumeral at h ⊢
  rw [signLength_append hne, List.drop_append_of_le_length (signLength_le numeral)]
  split at h
  · rename_i heq
    rw [heq]
    exact h
  · rename_i d rest hpoint heq
    rw [heq]
    have hd : d ≠ '.' := by rintro rfl; exact absurd h (by decide)
    simp [hd, h]
  · contradiction

/-! ### Strings and urls -/

theorem isQuote_toChar (quote : Quote) : isQuote quote.toChar = true := by
  cases quote <;> rfl

theorem stringUnit_of_ne {quote : Quote} {c : Char} (h : c ≠ '\\') (text : Text) :
    stringUnit quote (c :: text) = if c == quote.toChar || isNewline c then 0 else 1 := by
  simp [stringUnit, h]

theorem stringUnit_toChar (quote : Quote) (follow : Text) :
    stringUnit quote (quote.toChar :: follow) = 0 := by
  cases quote <;> simp [stringUnit, Quote.toChar]

/-- Neither a name nor an escape goes on with a quote. -/
theorem followsAs_toChar (x : Text) (quote : Quote) (y : Text) :
    FollowsAs x (quote.toChar :: y) := by
  rintro c hc hgoes
  obtain rfl := Option.some.inj hc
  cases quote <;> exact absurd hgoes (by decide)

/-- A step inside a string is one in other quotes too, unless it is the quote that would end it. -/
theorem stringUnit_requote {quote quote' : Quote} (x y : Text) {front : Text}
    (hfirst : front.head? ≠ some quote'.toChar)
    (hpos : 0 < stringUnit quote (front ++ quote.toChar :: x))
    (h : stringUnit quote (front ++ quote.toChar :: x) ≤ front.length) :
    stringUnit quote' (front ++ quote'.toChar :: y) =
      stringUnit quote (front ++ quote.toChar :: x) := by
  have hfollows := followsAs_toChar (quote.toChar :: x) quote' y
  have hplain : ∀ {c : Char} {rest rest' : Text}, c ≠ '\\' → c ≠ quote'.toChar →
      0 < stringUnit quote (c :: rest) →
      stringUnit quote' (c :: rest') = stringUnit quote (c :: rest) := by
    intro c rest rest' hc hquote hpos
    rw [stringUnit_of_ne hc] at hpos
    rw [stringUnit_of_ne hc, stringUnit_of_ne hc]
    split at hpos
    · contradiction
    · rename_i hstays
      simp only [Bool.or_eq_true, beq_iff_eq, not_or] at hstays
      rw [if_neg (by simp [hquote, hstays.2]), if_neg (by simp [hstays])]
  rcases front with _ | ⟨c, _ | ⟨d, front⟩⟩
  · exact absurd h (Nat.not_le.2 hpos)
  · by_cases hc : c = '\\'
    · subst hc
      -- The backslash would escape the quote.
      cases quote <;> exact absurd h (by simp [stringUnit, Quote.toChar, isNewline, escapeLength,
        isHexDigit])
    · exact hplain hc (fun heq => hfirst (congrArg some heq)) hpos
  · by_cases hc : c = '\\'
    · subst hc
      simp only [List.cons_append, stringUnit] at h hpos ⊢
      split at h
      · rename_i hnewline
        rw [if_pos hnewline, if_pos hnewline]
        have hblank := blankLength_congr (d :: front) hfollows
          (by simp only [List.cons_append, List.length_cons] at h ⊢; omega)
        rw [List.cons_append, List.cons_append] at hblank
        rw [hblank]
      · rename_i hnewline
        rw [if_neg hnewline] at hpos
        rw [if_neg hnewline, if_neg hnewline]
        exact escapeLength_congr ('\\' :: d :: front) hfollows hpos h
    · exact hplain hc (fun heq => hfirst (congrArg some heq)) hpos

theorem stringUnit_congr (quote : Quote) (x y : Text) {front : Text}
    (hpos : 0 < stringUnit quote (front ++ quote.toChar :: x))
    (h : stringUnit quote (front ++ quote.toChar :: x) ≤ front.length) :
    stringUnit quote (front ++ quote.toChar :: y) =
      stringUnit quote (front ++ quote.toChar :: x) := by
  refine stringUnit_requote x y (fun hfirst => ?_) hpos h
  obtain ⟨rest, rfl⟩ := List.head?_eq_some_iff.1 hfirst
  rw [List.cons_append, stringUnit_toChar] at hpos
  exact absurd hpos (Nat.lt_irrefl 0)

/-- Where a string ends does not depend on what follows it. -/
theorem string_congr {quote : Quote} {content x : Text}
    (h : chainLength (stringUnit quote) (content ++ quote.toChar :: x) = content.length)
    (y : Text) :
    chainLength (stringUnit quote) (content ++ quote.toChar :: y) = content.length :=
  chainLength_congr (fun _ => stringUnit_congr quote x y) (stringUnit_toChar quote y) h

end Css
