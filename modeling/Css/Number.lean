/-!
# Numbers

A number is a binary64 value, finite or infinite. Magnitudes are counted in units of 2^-1074, the
smallest positive one, and in order: `rank` is the place of a magnitude among all of them, the
infinite one last, so every value has one form, except that zero keeps its sign. Results that are
no such value are rounded to the nearest one, a tie to the even rank. The infinite rank takes the
place of 2^1024, the first power of two past the finite ones: what rounds to there is infinite.
-/

namespace Css

namespace Magnitude

/-- The ranks that share a step, 2^52 of them. -/
def blockSize : Nat := 1 <<< 52

def count : Nat := 2047 * blockSize

/-- How often the step has doubled at a rank: not in the first two blocks, where a rank is its own
magnitude, and once more in each block from there on. -/
def doublings (rank : Nat) : Nat := rank / blockSize - 1

def significand (rank : Nat) : Nat := rank - doublings rank * blockSize

def units (rank : Nat) : Nat := significand rank <<< doublings rank

/-- The rank of the greatest magnitude that is at most `n` units. -/
def floorRank (n : Nat) : Nat :=
  (n.log2 - 52) * blockSize + n >>> (n.log2 - 52)

/-- The rank nearest to `num / den` units; of two equally near the even one. -/
def nearestRank (num den : Nat) : Nat :=
  let low := floorRank (num / den)
  match compare (2 * num) ((units low + units (low + 1)) * den) with
  | .lt => low
  | .gt => low + 1
  | .eq => if low % 2 = 0 then low else low + 1

end Magnitude

/-- A binary64 number: its sign and the rank of its magnitude. -/
structure Number where
  negative : Bool
  rank : Nat
  rank_le : rank ≤ Magnitude.count
  deriving DecidableEq

namespace Number

def unitsPerOne : Nat := 1 <<< 1074

/-- The magnitude, in units; the infinite one counts as 2^1024. -/
def units (x : Number) : Nat := Magnitude.units x.rank

def scaled (x : Number) : Int := if x.negative then -(x.units : Int) else x.units

def sameValue (x y : Number) : Bool := x.scaled == y.scaled

/-- The number of a sign and a rank, infinite where the rank is past all finite ones. -/
def ofRank (negative : Bool) (rank : Nat) : Number where
  negative := negative
  rank := min rank Magnitude.count
  rank_le := Nat.min_le_right ..

def zero : Number := ofRank false 0

instance : Inhabited Number := ⟨zero⟩

def infinity (negative : Bool) : Number := ofRank negative Magnitude.count

def isFinite (x : Number) : Bool := x.rank < Magnitude.count

def finite? (x : Number) : Option Number := if x.isFinite then some x else none

/-- The nearest finite number: for an infinite one the greatest of its sign. -/
def nearestFinite (x : Number) : Number := ofRank x.negative (min x.rank (Magnitude.count - 1))

theorem isFinite_nearestFinite (x : Number) : x.nearestFinite.isFinite = true := by
  have : 0 < Magnitude.count := by decide
  exact decide_eq_true
    (show min (min x.rank (Magnitude.count - 1)) Magnitude.count < Magnitude.count by omega)

theorem nearestFinite_eq_self {x : Number} (h : x.isFinite = true) : x.nearestFinite = x := by
  have hlt : x.rank < Magnitude.count := of_decide_eq_true h
  have hrank : min (min x.rank (Magnitude.count - 1)) Magnitude.count = x.rank := by omega
  cases x
  simp_all [nearestFinite, ofRank]

/-- The number nearest to `num / den` units. -/
def round (num : Int) (den : Nat) : Number :=
  ofRank (decide (num < 0)) (Magnitude.nearestRank num.natAbs den)

def ofNat (n : Nat) : Number := round (n * unitsPerOne : Nat) 1

/-! ### Arithmetic

Each operation on finite numbers is the exact result, rounded once. A zero result is not negative.
-/

instance : Add Number := ⟨fun x y => round (x.scaled + y.scaled) 1⟩

instance : Sub Number := ⟨fun x y => round (x.scaled - y.scaled) 1⟩

instance : Mul Number := ⟨fun x y => round (x.scaled * y.scaled) unitsPerOne⟩

instance : Div Number :=
  ⟨fun x y => round (x.scaled * y.scaled.sign * unitsPerOne) y.scaled.natAbs⟩

/-- The remainder from zero on, below the magnitude of `y`, then rounded. -/
instance : Mod Number := ⟨fun x y => round (x.scaled % y.scaled) 1⟩

def mul? (x y : Number) : Option Number :=
  if x.isFinite && y.isFinite then (x * y).finite? else none

instance : LT Number := ⟨fun x y => x.scaled < y.scaled⟩

instance : LE Number := ⟨fun x y => x.scaled ≤ y.scaled⟩

instance (x y : Number) : Decidable (x < y) := inferInstanceAs (Decidable (x.scaled < y.scaled))

instance (x y : Number) : Decidable (x ≤ y) := inferInstanceAs (Decidable (x.scaled ≤ y.scaled))

def clamp (x low high : Number) : Number := if x < low then low else if high < x then high else x

/-- The nearest whole number from 0 to 255; a half goes up. -/
def toByte (x : Number) : UInt8 :=
  if x.negative then 0 else UInt8.ofNat (min 255 ((2 * x.units + unitsPerOne) / (2 * unitsPerOne)))

end Number

end Css
