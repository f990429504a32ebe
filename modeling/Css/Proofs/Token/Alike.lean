import Css.Proofs.Token.Grammar

/-!
# Replacing what follows a token

A token stays the token it is where the text behind it is replaced by one that goes on with no token
the old one did not go on with. Such is a text that starts with a separator, also behind a common
front, and a url in place of a url.
-/

namespace Css

def isSeparator (c : Char) : Bool :=
  isBlank c || [')', ']', '}', '{', ';', ',', ':', '"', '\''].contains c

def Separates (text : Text) : Prop := ∀ c, text.head? = some c → isSeparator c = true

structure Alike (x y : Text) : Prop where
  head : ∀ c ∈ ['(', '%', '>', '*', '/'], y.head? = some c → x.head? = some c
  digit : startsDigit y = true → startsDigit x = true
  fraction : fractionLength y ≠ 0 → fractionLength x ≠ 0
  signed : ∀ rest, y = '+' :: rest → startsDigit rest = true →
    ∃ rest', x = '+' :: rest' ∧ startsDigit rest' = true
  unit : nameUnit y ≠ 0 → nameUnit x ≠ 0
  name : startsName y = true → startsName x = true
  hyphen : startsName ('-' :: y) = true → startsName ('-' :: x) = true
  markup : y.take 3 = ['!', '-', '-'] → x.take 3 = ['!', '-', '-']

/-! ### Separators -/

theorem Separates.append {x y : Text} (hx : Separates x) (hy : Separates y) :
    Separates (x ++ y) := by
  cases x with
  | nil => exact hy
  | cons c x => exact hx

theorem separates_cons {c : Char} (h : isSeparator c = true) (text : Text) :
    Separates (c :: text) := by
  intro d hd
  obtain rfl := Option.some.inj hd
  exact h

theorem isNameChar_of_isSeparator {c : Char} (h : isSeparator c = true) :
    isNameChar c = false ∧ c.isDigit = false ∧
      c ∉ ['(', '%', '>', '*', '/', '.', '+', '-', '!', '\\'] := by
  simp only [isSeparator, isBlank, isNewline, Bool.or_eq_true, beq_iff_eq, List.contains_eq_mem,
    decide_eq_true_eq, List.mem_cons, List.not_mem_nil, or_false] at h
  obtain ((((rfl | rfl) | rfl) | rfl) | rfl) |
    rfl | rfl | rfl | rfl | rfl | rfl | rfl | rfl | rfl := h <;> decide

theorem nameUnit_of_separates {text : Text} (h : Separates text) : nameUnit text = 0 := by
  cases text with
  | nil => rfl
  | cons c text =>
    obtain ⟨hchar, -, hother⟩ := isNameChar_of_isSeparator (h c rfl)
    have hne : c ≠ '\\' := by rintro rfl; exact hother (by decide)
    simp [nameUnit, hchar, escapeLength, hne]

theorem startsPlainName_eq_false {text : Text} (h : nameUnit text = 0) :
    startsPlainName text = false := by
  cases text with
  | nil => rfl
  | cons c text =>
    cases hchar : isNameChar c with
    | true => simp [nameUnit, hchar] at h
    | false =>
      have hstart : isNameStart c = false := by
        simp only [isNameChar, Bool.or_eq_false_iff] at hchar
        exact hchar.1.1
      simp only [nameUnit, hchar, Bool.false_eq_true, if_false] at h
      simp [startsPlainName, hstart, h]

theorem startsName_eq_false {text : Text} (h : nameUnit text = 0) : startsName text = false := by
  rcases text with _ | ⟨c, cs⟩
  · rfl
  by_cases hc : c = '-'
  · subst hc
    exact absurd h (by simp [nameUnit, isNameChar])
  · rw [startsName_of_ne_hyphen hc]
    exact startsPlainName_eq_false h

theorem startsName_hyphen_eq_false {text : Text} (h : nameUnit text = 0) :
    startsName ('-' :: text) = false := by
  rcases text with _ | ⟨c, cs⟩
  · rfl
  have hc : c ≠ '-' := by
    rintro rfl
    exact absurd h (by simp [nameUnit, isNameChar])
  rw [startsName_hyphen hc]
  exact startsPlainName_eq_false h

/-- A separator goes on with no token at all. -/
theorem Alike.of_separates {y : Text} (h : Separates y) (x : Text) : Alike x y := by
  have hunit := nameUnit_of_separates h
  have hhead : ∀ c, y.head? = some c →
      c.isDigit = false ∧ c ∉ ['(', '%', '>', '*', '/', '.', '+', '-', '!', '\\'] :=
    fun c hc => (isNameChar_of_isSeparator (h c hc)).2
  refine ⟨?_, ?_, ?_, ?_, ?_, ?_, ?_, ?_⟩
  · intro c hmem hc
    refine absurd ?_ (hhead c hc).2
    simp only [List.mem_cons, List.not_mem_nil, or_false] at hmem ⊢
    obtain rfl | rfl | rfl | rfl | rfl := hmem <;> simp
  · intro hdigit
    cases y with
    | nil => exact absurd hdigit Bool.false_ne_true
    | cons c y => exact absurd hdigit (by simp [startsDigit, (hhead c rfl).1])
  · intro hfraction
    cases y with
    | nil => exact absurd rfl hfraction
    | cons c y =>
      have hc : c ≠ '.' := by rintro rfl; exact (hhead _ rfl).2 (by decide)
      simp [fractionLength, hc] at hfraction
  · rintro rest rfl
    exact absurd (by decide) (hhead _ rfl).2
  · exact fun hne => absurd hunit hne
  · intro hname
    rw [startsName_eq_false hunit] at hname
    contradiction
  · intro hname
    rw [startsName_hyphen_eq_false hunit] at hname
    contradiction
  · intro htake
    cases y with
    | nil => exact absurd htake (List.cons_ne_nil _ _).symm
    | cons c y =>
      obtain rfl : c = '!' := (List.cons.inj htake).1
      exact absurd (by decide) (hhead _ rfl).2

/-! ### Common fronts -/

def StartsUrl (text : Text) : Prop := text.head? = some 'u' ∨ text.head? = some 'U'

/-- Whether a text goes on with no token at all: it is empty, or starts with a separator or like
`!important`. -/
def StandsApart (text : Text) : Prop := Separates text ∨ ∃ rest, text = '!' :: 'i' :: rest

theorem Alike.of_standsApart {y : Text} (h : StandsApart y) (x : Text) : Alike x y := by
  obtain h | ⟨rest, rfl⟩ := h
  · exact .of_separates h x
  · have hunit : nameUnit ('!' :: 'i' :: rest) = 0 := rfl
    have hname := startsName_eq_false hunit
    have hhyphen := startsName_hyphen_eq_false hunit
    refine ⟨?_, ?_, ?_, ?_, ?_, ?_, ?_, ?_⟩
    · intro c hmem hc
      obtain rfl := Option.some.inj hc
      exact absurd hmem (by decide)
    · exact fun h => absurd h (Bool.false_ne_true)
    · exact fun h => absurd rfl h
    · intro _ h
      exact absurd (List.cons.inj h).1 (by decide)
    · exact fun h => absurd hunit h
    · exact fun h => absurd (h.symm.trans hname) Bool.noConfusion
    · exact fun h => absurd (h.symm.trans hhyphen) Bool.noConfusion
    · intro h
      simp at h

/-- Whether two texts part here: the new one goes on with no token, or both with a url. -/
def Diverges (x y : Text) : Prop := StandsApart y ∨ (StartsUrl x ∧ StartsUrl y)

theorem startsUrl_cons {text : Text} (h : StartsUrl text) :
    ∃ c rest, text = c :: rest ∧ isNameStart c = true ∧ c.isDigit = false ∧
      c ∉ ['(', '%', '>', '*', '/', '.', '+', '-', '!'] := by
  obtain h | h := h <;>
    (obtain ⟨rest, rfl⟩ := List.head?_eq_some_iff.1 h
     exact ⟨_, rest, rfl, by decide, by decide, by decide⟩)

theorem Alike.of_url {x y : Text} (hx : StartsUrl x) (hy : StartsUrl y) : Alike x y := by
  obtain ⟨c, x, rfl, hstart, -, hother⟩ := startsUrl_cons hx
  obtain ⟨d, y, rfl, -, hdigit, hother'⟩ := startsUrl_cons hy
  refine ⟨?_, ?_, ?_, ?_, ?_, ?_, ?_, ?_⟩
  · rintro e hmem hd
    obtain rfl : d = e := Option.some.inj hd
    refine absurd ?_ hother'
    simp only [List.mem_cons, List.not_mem_nil, or_false] at hmem ⊢
    obtain rfl | rfl | rfl | rfl | rfl := hmem <;> simp
  · intro hd
    rw [startsDigit, List.head?_cons, Option.map_some, Option.getD_some, hdigit] at hd
    contradiction
  · intro hfraction
    have hd : d ≠ '.' := by rintro rfl; exact hother' (by decide)
    simp [fractionLength, hd] at hfraction
  · rintro rest hrest
    obtain ⟨rfl, -⟩ := List.cons.inj hrest
    exact absurd (by decide) hother'
  · intro
    simp [nameUnit, isNameChar, hstart]
  · exact fun _ => startsName_of_isNameStart hstart x
  · intro
    have hc : c ≠ '-' := by rintro rfl; exact hother (by decide)
    simp [startsName_hyphen hc, startsPlainName, hstart]
  · intro htake
    obtain rfl : d = '!' := (List.cons.inj htake).1
    exact absurd (by decide) hother'

theorem Diverges.alike {x y : Text} (h : Diverges x y) : Alike x y :=
  h.elim (fun hy => .of_standsApart hy x) fun h => .of_url h.1 h.2

theorem Diverges.startsDigit_eq {x y : Text} (h : Diverges x y) : startsDigit y = false := by
  cases y with
  | nil => rfl
  | cons c y =>
    obtain (h | ⟨rest, h⟩) | ⟨-, h⟩ := h
    · exact (isNameChar_of_isSeparator (h c rfl)).2.1
    · obtain ⟨rfl, rfl⟩ := List.cons.inj h
      rfl
    · obtain ⟨d, rest, heq, -, hdigit, -⟩ := startsUrl_cons h
      obtain ⟨rfl, rfl⟩ := List.cons.inj heq
      exact hdigit

theorem Diverges.head?_ne {x y : Text} (h : Diverges x y) : y.head? ≠ some '-' := by
  intro hhead
  obtain (h | ⟨rest, rfl⟩) | ⟨-, h⟩ := h
  · exact absurd (h '-' hhead) (by decide)
  · exact absurd hhead (by simp)
  · obtain ⟨d, rest, rfl, -, -, hother⟩ := startsUrl_cons h
    obtain rfl := Option.some.inj hhead
    exact hother (by decide)

theorem escapeLength_cons_ne_zero (c d : Char) (rest : Text) :
    escapeLength (c :: d :: rest) ≠ 0 ↔ c = '\\' ∧ isNewline d = false := by
  by_cases hc : c = '\\'
  · subst hc
    simp only [escapeLength, true_and]
    cases hnewline : isNewline d with
    | true => simp
    | false =>
      simp only [Bool.false_eq_true, if_false]
      split <;> simp
  · simp [escapeLength, hc]

/-- Whether a character in front of two texts starts an escape with both or with neither, as an
escape is settled by two characters. -/
def SettlesEscape (c : Char) (x y : Text) : Prop :=
  c ≠ '\\' ∨ ∃ d p q, x = d :: p ∧ y = d :: q

section SettlesEscape

variable {c : Char} {x y : Text} (h : SettlesEscape c x y)
include h

theorem escapeLength_ne_zero_congr : escapeLength (c :: y) ≠ 0 ↔ escapeLength (c :: x) ≠ 0 := by
  obtain hc | ⟨d, p, q, rfl, rfl⟩ := h
  · have hzero : ∀ rest, escapeLength (c :: rest) = 0 := fun rest => by simp [escapeLength, hc]
    rw [hzero, hzero]
  · rw [escapeLength_cons_ne_zero, escapeLength_cons_ne_zero]

theorem nameUnit_ne_zero_congr : nameUnit (c :: y) ≠ 0 ↔ nameUnit (c :: x) ≠ 0 := by
  cases hchar : isNameChar c with
  | true => simp [nameUnit, hchar]
  | false =>
    simp only [nameUnit, hchar, Bool.false_eq_true, if_false]
    exact escapeLength_ne_zero_congr h

theorem startsPlainName_congr : startsPlainName (c :: y) = startsPlainName (c :: x) := by
  have hescape : (escapeLength (c :: y) != 0) = (escapeLength (c :: x) != 0) := by
    rw [Bool.eq_iff_iff, bne_iff_ne, bne_iff_ne]
    exact escapeLength_ne_zero_congr h
  rw [startsPlainName, startsPlainName, hescape]

theorem startsName_congr_of_ne_hyphen (hc : c ≠ '-') :
    startsName (c :: y) = startsName (c :: x) := by
  rw [startsName_of_ne_hyphen hc, startsName_of_ne_hyphen hc, startsPlainName_congr h]

theorem startsName_hyphen_congr : startsName ('-' :: c :: y) = startsName ('-' :: c :: x) := by
  by_cases hc : c = '-'
  · subst hc
    rfl
  · rw [startsName_hyphen hc, startsName_hyphen hc, startsPlainName_congr h]

end SettlesEscape

theorem startsName_cons_imp {x y : Text} {a : Char} (ha : a ≠ '\\')
    (h : a = '-' → startsName ('-' :: y) = true → startsName ('-' :: x) = true)
    (hname : startsName (a :: y) = true) : startsName (a :: x) = true := by
  by_cases hc : a = '-'
  · subst hc
    exact h rfl hname
  · exact (startsName_congr_of_ne_hyphen (.inl ha) hc).symm.trans hname

/-- Whether a text starts a name is settled by two characters, unless the second is a backslash. -/
theorem startsName_cons_cons_congr {x y : Text} {a b : Char} {front : Text}
    (h : a :: b :: front ≠ ['-', '\\']) :
    startsName (a :: b :: (front ++ y)) = startsName (a :: b :: (front ++ x)) := by
  by_cases ha : a = '-'
  · subst ha
    refine startsName_hyphen_congr ?_
    cases front with
    | nil => exact .inl fun hb => h (by rw [hb])
    | cons d front => exact .inr ⟨d, _, _, rfl, rfl⟩
  · exact startsName_congr_of_ne_hyphen (.inr ⟨b, _, _, rfl, rfl⟩) ha

theorem Diverges.alike_cons {x y : Text} (h : Diverges x y) {a : Char} (ha : a ≠ '\\') :
    Alike (a :: x) (a :: y) where
  head := fun _ _ hc => hc
  digit := fun hd => hd
  fraction := by
    intro hfraction
    have hzero : digitsLength y = 0 := Decidable.byContradiction fun hne =>
      absurd (startsDigit_of_digitsLength hne) (by rw [h.startsDigit_eq]; exact Bool.false_ne_true)
    by_cases hpoint : a = '.'
    · subst hpoint
      simp [fractionLength, hzero] at hfraction
    · simp [fractionLength, hpoint] at hfraction
  signed := by
    rintro rest hrest hd
    obtain ⟨-, rfl⟩ := List.cons.inj hrest
    exact absurd hd (Bool.eq_false_iff.1 h.startsDigit_eq)
  unit := (nameUnit_ne_zero_congr (.inl ha)).1
  name := startsName_cons_imp ha fun _ => h.alike.hyphen
  hyphen := fun hname => (startsName_hyphen_congr (.inl ha)).symm.trans hname
  markup := by
    intro htake
    refine absurd ?_ h.head?_ne
    cases y with
    | nil => simp at htake
    | cons c y =>
      simp at htake
      rw [htake.2.1]
      rfl

theorem Diverges.alike_cons_cons {x y : Text} (h : Diverges x y) {a b : Char} {front : Text}
    (htwo : a :: b :: front ≠ ['-', '\\']) :
    Alike (a :: b :: (front ++ x)) (a :: b :: (front ++ y)) where
  head := fun _ _ hc => hc
  digit := fun hd => hd
  fraction := by
    intro hfraction
    by_cases hpoint : a = '.'
    · subst hpoint
      cases hb : b.isDigit with
      | true => simp [fractionLength, digitsLength, hb]
      | false => simp [fractionLength, digitsLength, hb] at hfraction
    · simp [fractionLength, hpoint] at hfraction
  signed := by
    rintro rest hrest hd
    obtain ⟨rfl, rfl⟩ := List.cons.inj hrest
    exact ⟨b :: (front ++ x), rfl, hd⟩
  unit := (nameUnit_ne_zero_congr (.inr ⟨b, _, _, rfl, rfl⟩)).1
  name := fun hname => (startsName_cons_cons_congr htwo).symm.trans hname
  hyphen := fun hname =>
    (startsName_hyphen_congr (.inr ⟨b, _, _, rfl, rfl⟩)).symm.trans hname
  markup := by
    intro htake
    cases front with
    | nil =>
      refine absurd ?_ h.head?_ne
      cases y with
      | nil => simp at htake
      | cons c y =>
        simp at htake
        rw [htake.2.2]
        rfl
    | cons d front => exact htake

/-- Texts with a common front are alike if they part behind a whole character, escapes included. -/
theorem Diverges.append {x y : Text} (h : Diverges x y) {front : Text} (hone : front ≠ ['\\'])
    (htwo : front ≠ ['-', '\\']) : Alike (front ++ x) (front ++ y) := by
  rcases front with _ | ⟨a, _ | ⟨b, front⟩⟩
  · exact h.alike
  · exact h.alike_cons fun ha => hone (by rw [ha])
  · exact h.alike_cons_cons htwo

/-! ### Tokens -/

namespace Token

def endName? : Token → Option Text
  | ident name => some name
  | atKeyword name => some name
  | hash name _ => some name
  | dimension _ unit => some unit
  | _ => none

def IsPlain : Token → Prop
  | whitespace => False
  | url _ => False
  | function name => name.isKeyword "url" = false
  | _ => True

theorem startsName_of_exponentLength {text : Text} (h : exponentLength text ≠ 0) :
    startsName text = true := by
  cases text with
  | nil => exact absurd rfl h
  | cons c text =>
    have hc : c = 'e' ∨ c = 'E' := by
      refine Decidable.byContradiction fun hne => h ?_
      obtain ⟨hlow, hup⟩ := not_or.1 hne
      simp [exponentLength, hlow, hup]
    refine startsName_of_isNameStart ?_ text
    obtain rfl | rfl := hc <;> decide

theorem startsNumeral_congr {x y : Text} (hdigit : startsDigit y = true → startsDigit x = true)
    (hfraction : fractionLength y ≠ 0 → fractionLength x ≠ 0) {c : Char} (hc : c = '+' ∨ c = '-')
    (hx : startsNumeral (c :: x) = false) : startsNumeral (c :: y) = false := by
  have hiff : ∀ text : Text, startsNumeral (c :: text) = true ↔
      startsDigit text = true ∨ fractionLength text ≠ 0 := by
    intro text
    have hsign : signLength (c :: text) = 1 := by obtain rfl | rfl := hc <;> rfl
    rw [startsNumeral, hsign, List.drop_succ_cons, List.drop_zero]
    rcases text with _ | ⟨d, _ | ⟨e, text⟩⟩
    · simp [startsDigit, fractionLength]
    · by_cases hd : d = '.'
      · subst hd
        decide
      · simp [startsDigit, fractionLength, hd]
    · by_cases hd : d = '.'
      · subst hd
        cases he : e.isDigit <;> simp [startsDigit, fractionLength, digitsLength, he]
      · simp [startsDigit, fractionLength, hd]
  rw [Bool.eq_false_iff, Ne, hiff] at hx ⊢
  exact fun hy => hx (hy.imp hdigit hfraction)

theorem startsNumeral_point (text : Text) : startsNumeral ('.' :: text) = startsDigit text := by
  cases text <;> rfl

theorem DelimEnds.congr {lineComments : Bool} {c : Char} {x y : Text} (h : Alike x y)
    (hx : DelimEnds lineComments x c) : DelimEnds lineComments y c := by
  unfold DelimEnds at hx ⊢
  split at hx
  · exact ⟨fun hy => hx.1 (h.head '*' (by decide) hy),
      hx.2.imp_left fun hne hy => hne (h.head '/' (by decide) hy)⟩
  · have hunit := (show NameEnds [] x from hx).nameUnit_eq_zero
    have hzero : nameUnit y = 0 := Decidable.byContradiction fun hne => h.unit hne hunit
    cases y with
    | nil => simp [nameLength, chainLength]
    | cons c y => simp [nameLength, chainLength, hzero]
  · exact Bool.eq_false_iff.2 fun hy => Bool.eq_false_iff.1 hx (h.name hy)
  · exact fun hy => hx (h.markup hy)
  · exact ⟨startsNumeral_congr h.digit h.fraction (.inr rfl) hx.1,
      Bool.eq_false_iff.2 fun hy => Bool.eq_false_iff.1 hx.2 (h.hyphen hy)⟩
  · exact startsNumeral_congr h.digit h.fraction (.inl rfl) hx
  · rw [startsNumeral_point] at hx ⊢
    exact Bool.eq_false_iff.2 fun hy => Bool.eq_false_iff.1 hx (h.digit hy)
  · exact hx

theorem digitsLength_append_le {front x : Text} (hx : startsDigit x = false) :
    digitsLength (front ++ x) ≤ front.length := by
  induction front with
  | nil =>
    refine Nat.le_of_eq (Decidable.byContradiction fun hne => ?_)
    rw [List.nil_append] at hne
    rw [startsDigit_of_digitsLength hne] at hx
    contradiction
  | cons c front ih =>
    simp only [digitsLength, List.cons_append, List.takeWhile_cons, List.length_cons] at ih ⊢
    split
    · simpa using ih
    · simp

theorem startsDigit_of_nameUnit {text : Text} (h : nameUnit text = 0) :
    startsDigit text = false := by
  cases text with
  | nil => rfl
  | cons c text =>
    cases hdigit : c.isDigit with
    | false => exact hdigit
    | true => simp [nameUnit, isNameChar, hdigit] at h

/-- A unit reads as an exponent only where it did. -/
theorem exponentLength_congr_unit {unit x y : Text}
    (hdigit : startsDigit y = true → startsDigit x = true)
    (hsigned : ∀ rest, y = '+' :: rest → startsDigit rest = true →
      ∃ rest', x = '+' :: rest' ∧ startsDigit rest' = true)
    (hne : unit ≠ []) (hx : NameEnds unit x) (hy : NameEnds unit y)
    (hexponent : exponentLength (unit ++ y) ≠ 0) : exponentLength (unit ++ x) ≠ 0 := by
  obtain ⟨c, unit, rfl⟩ := List.exists_cons_of_ne_nil hne
  simp only [List.cons_append, exponentLength] at hexponent ⊢
  split at hexponent
  case isFalse => contradiction
  rename_i hboth
  simp only [Bool.and_eq_true, bne_iff_ne, ne_eq] at hboth
  obtain ⟨hletter, hdigits⟩ := hboth
  have hxdigit := startsDigit_of_nameUnit hx.nameUnit_eq_zero
  have hydigit := startsDigit_of_nameUnit hy.nameUnit_eq_zero
  have hgoal : digitsLength ((unit ++ x).drop (signLength (unit ++ x))) ≠ 0 := by
    by_cases hunit : unit = []
    · subst hunit
      simp only [List.nil_append] at hdigits ⊢
      have hstart := startsDigit_of_digitsLength hdigits
      by_cases hplus : y.head? = some '+'
      · obtain ⟨rest, rfl⟩ := List.head?_eq_some_iff.1 hplus
        obtain ⟨rest', rfl, hrest'⟩ := hsigned rest rfl hstart
        rcases rest' with _ | ⟨d, rest'⟩
        · contradiction
        · have hd : d.isDigit = true := hrest'
          simp [signLength, digitsLength, hd]
      · exfalso
        have hminus : y.head? ≠ some '-' := by
          intro hhead
          obtain ⟨rest, rfl⟩ := List.head?_eq_some_iff.1 hhead
          exact absurd hy.nameUnit_eq_zero (by simp [nameUnit, isNameChar])
        have hsign : signLength y = 0 := by
          unfold signLength
          split
          · exact absurd rfl hplus
          · exact absurd rfl hminus
          · rfl
        rw [hsign, List.drop_zero, hydigit] at hstart
        contradiction
    · have hsign := signLength_le unit
      rw [signLength_append hunit, List.drop_append_of_le_length hsign] at hdigits ⊢
      rwa [← digitsLength_congr _ hdigit (digitsLength_append_le hxdigit)]
  rw [if_pos (by rw [hletter, Bool.true_and, bne_iff_ne]; exact hgoal)]
  omega

theorem Spells.congr {lineComments : Bool} {x y raw : Text} {token : Token}
    (h : Spells lineComments x token raw) (hplain : token.IsPlain) (halike : Alike x y)
    (hname : ∀ name, token.endName? = some name → NameEnds name y) :
    Spells lineComments y token raw := by
  have hnumeral : ∀ {numeral : Text} {p q : Text}, startsNumeral (numeral ++ p) = true →
      NumeralEnds numeral p → NumeralFollowsAs p q →
      startsNumeral (numeral ++ q) = true ∧ NumeralEnds numeral q := by
    intro numeral p q hstarts hends hfollows
    have hself := hends.startsNumeral hstarts
    have hne : numeral ≠ [] := by rintro rfl; contradiction
    exact ⟨startsNumeral_append hself q, hends.congr hfollows hne⟩
  cases h with
  | single hchar => exact .single hchar
  | whitespace => exact hplain.elim
  | number hstarts hends hstart hpercent =>
    have hstart' : startsName y = false :=
      Bool.eq_false_iff.2 fun hy => Bool.eq_false_iff.1 hstart (halike.name hy)
    obtain ⟨hstarts, hends⟩ := hnumeral hstarts hends
      ⟨halike.digit, halike.fraction, fun hne =>
        absurd (startsName_of_exponentLength hne) (Bool.eq_false_iff.1 hstart')⟩
    exact .number hstarts hends hstart' fun hy => hpercent (halike.head '%' (by decide) hy)
  | percentage hstarts hends =>
    obtain ⟨hstarts, hends⟩ := hnumeral (q := '%' :: y) hstarts hends ⟨id, id, id⟩
    exact .percentage hstarts hends
  | @dimension numeral unit hstarts hends hstart hunit =>
    have hunit' := hname unit rfl
    have hne := hunit.ne_nil hstart
    have hstart' := (hunit.startsName_congr hunit' hne).trans hstart
    have hfollows : NumeralFollowsAs (unit ++ x) (unit ++ y) := by
      refine ⟨?_, ?_,
        exponentLength_congr_unit halike.digit halike.signed hne hunit hunit'⟩
      · obtain ⟨c, unit, rfl⟩ := List.exists_cons_of_ne_nil hne
        exact id
      · obtain ⟨c, unit, rfl⟩ := List.exists_cons_of_ne_nil hne
        have hc : c ≠ '.' := by
          rintro rfl
          exact absurd hstart (by simp [startsName, startsPlainName, isNameStart, escapeLength])
        simp [fractionLength, hc]
    obtain ⟨hstarts, hends⟩ := hnumeral hstarts hends hfollows
    exact .dimension hstarts hends hstart' hunit'
  | string hcontent => exact .string (string_congr hcontent y)
  | hash hne hends =>
    have hends' := hname _ rfl
    rw [← hends.startsName_congr hends' hne]
    exact .hash hne hends'
  | atKeyword hstarts hends =>
    have hends' := hname _ rfl
    exact .atKeyword ((hends.startsName_congr hends' (hends.ne_nil hstarts)).trans hstarts) hends'
  | cdo => exact .cdo
  | cdc => exact .cdc
  | ident hstarts hends hbracket hcdc =>
    have hends' := hname _ rfl
    exact .ident ((hends.startsName_congr hends' (hends.ne_nil hstarts)).trans hstarts) hends'
      (fun hy => hbracket (halike.head '(' (by decide) hy))
      fun heq hy => hcdc heq (halike.head '>' (by decide) hy)
  | @function name hstarts hends hurl =>
    have hends' : NameEnds name ('(' :: y) :=
      hends.congr rfl fun c hc hblank => hc
    exact .function ((hends.startsName_congr hends' (hends.ne_nil hstarts)).trans hstarts) hends'
      hurl
  | quotedUrl hurl =>
    rw [IsPlain, hurl] at hplain
    contradiction
  | url => exact hplain.elim
  | openUrl => exact hplain.elim
  | delim hends => exact .delim (hends.congr halike)

end Token

end Css
