import Css.Text
import Css.Number

/-!
# Decimal texts of numbers

Reading takes the number nearest to a decimal text, an infinite one where the text is past all
finite numbers. Writing takes the fewest digits that read back, the nearest of those to the value,
and never uses an exponent; what no digits stand for is written as a word.
-/

namespace Css

/-- The value `digits * 10 ^ exponent`. -/
structure Decimal where
  digits : Nat
  exponent : Int
  deriving DecidableEq

namespace Decimal

/-! ### Reading -/

def ofParts (whole fraction : Text) (exponent : Int) : Decimal where
  digits := Nat.ofDigitChars 10 (whole ++ fraction) 0
  exponent := exponent - fraction.length

def readDigits? (text : Text) : Option Nat :=
  if !text.isEmpty && text.all Char.isDigit then some (Nat.ofDigitChars 10 text 0) else none

def readExponent? : Text → Option Int
  | [] => some 0
  | c :: cs =>
    if c == 'e' || c == 'E' then
      match cs with
      | '-' :: ds => (readDigits? ds).map fun n => -n
      | '+' :: ds => (readDigits? ds).map Int.ofNat
      | ds => (readDigits? ds).map Int.ofNat
    else none

def read? (text : Text) : Option Decimal :=
  let (whole, rest) := text.span Char.isDigit
  let (fraction, rest) := match rest with
    | '.' :: rest => rest.span Char.isDigit
    | rest => ([], rest)
  if whole.isEmpty && fraction.isEmpty then none
  else (readExponent? rest).map (ofParts whole fraction)

/-! ### Writing -/

def dropTrailingZeros (digits : Text) : Text := (digits.reverse.dropWhile (· == '0')).reverse

/-- Positional digits: whole ones as they are, a fraction after a point and without zeros at its
end, at least one digit before the point. -/
def toText (d : Decimal) : Text :=
  let digits := Nat.toDigits 10 d.digits
  match d.exponent with
  | .ofNat zeros => if d.digits = 0 then ['0'] else digits ++ List.replicate zeros '0'
  | .negSucc places =>
    let padded := List.replicate (places + 2 - digits.length) '0' ++ digits
    let point := padded.length - (places + 1)
    let fraction := dropTrailingZeros (padded.drop point)
    if fraction.isEmpty then padded.take point else padded.take point ++ '.' :: fraction

/-! ### Rounding -/

/-- The rank of the magnitude nearest to a decimal; where it is too large for a finite one, the
infinite rank or one past it. Powers of ten that decide the answer on their own are not computed. -/
def nearestRank (d : Decimal) : Nat :=
  if d.digits = 0 then 0
  else match d.exponent with
    | .ofNat e =>
      if 309 ≤ e then Magnitude.count
      else Magnitude.nearestRank (d.digits * Nat.pow 10 e * Number.unitsPerOne) 1
    | .negSucc e =>
      if d.digits.log2 + 1076 ≤ 3 * (e + 1) then 0
      else Magnitude.nearestRank (d.digits * Number.unitsPerOne) (Nat.pow 10 (e + 1))

end Decimal

namespace Number

def ofDecimal (negative : Bool) (d : Decimal) : Number := ofRank negative d.nearestRank

def splitSign : Text → Bool × Text
  | '-' :: text => (true, text)
  | '+' :: text => (false, text)
  | text => (false, text)

def read? (text : Text) : Option Number :=
  let (negative, magnitude) := splitSign text
  (Decimal.read? magnitude).map (ofDecimal negative)

/-- The magnitude as a decimal, exactly: to halve is to take five tenths. -/
def exactDecimal (x : Number) : Decimal :=
  let doublings := Magnitude.doublings x.rank
  let halvings := 1074 - doublings
  ⟨(Magnitude.significand x.rank * Nat.pow 5 halvings) <<< (doublings - 1074), -halvings⟩

/-- The two decimals around a magnitude that leave out `dropped` of its exact digits, the nearer
one first; of two equally near the greater one. -/
def candidates (x : Number) (dropped : Nat) : List Decimal :=
  let exact := x.exactDecimal
  let unit := Nat.pow 10 dropped
  let low := exact.digits / unit
  let exponent := exact.exponent + dropped
  if unit ≤ 2 * (exact.digits % unit) then [⟨low + 1, exponent⟩, ⟨low, exponent⟩]
  else [⟨low, exponent⟩, ⟨low + 1, exponent⟩]

def readsBack (x : Number) (d : Decimal) : Bool := d.nearestRank == x.rank

/-- The decimal with the fewest digits that reads back; seventeen are enough. -/
def shortestDecimal (x : Number) : Decimal :=
  let length := (Nat.toDigits 10 x.exactDecimal.digits).length
  let shortened := (List.range 17).findSome? fun n =>
    (x.candidates (length - (n + 1))).find? x.readsBack
  shortened.getD x.exactDecimal

/-- The text of a number: a sign if it is negative, zero included, then its digits, or a word if
it is infinite. -/
def toText (x : Number) : Text :=
  let magnitude := if x.isFinite then x.shortestDecimal.toText else "inf".toList
  if x.negative then '-' :: magnitude else magnitude

end Number

/-- A binary64 value: a number, or `none` for the value that is not a number. -/
abbrev Binary64 := Option Number

namespace Binary64

/-- The value of a decimal text or of a word in any letter case, which may start with a sign. -/
def read? (text : Text) : Option Binary64 :=
  let (negative, word) := Number.splitSign text
  if word.isKeyword "nan" then some none
  else if word.isOneOf ["inf", "infinity"] then some (some (Number.infinity negative))
  else (Number.read? text).map some

/-- The text of a value; a value that is not a number has no sign. -/
def toText : Binary64 → Text
  | none => "NaN".toList
  | some x => x.toText

end Binary64

end Css
