import Css.Color.Names
import Css.Text

/-!
# Colours

A colour is four bytes. It has a hexadecimal form, sometimes two, and sometimes names; the shortest
of these forms is the one that minified output uses.
-/

namespace Css

/-- Red, green, blue and alpha; an alpha of 255 is opaque. -/
structure Rgba where
  red : UInt8
  green : UInt8
  blue : UInt8
  alpha : UInt8
  deriving DecidableEq

namespace Rgba

def transparent : Rgba := ⟨0, 0, 0, 0⟩

def ofRgb24 (n : Nat) : Rgba :=
  ⟨UInt8.ofNat (n / 0x10000), UInt8.ofNat (n / 0x100), UInt8.ofNat n, 255⟩

def isOpaque (rgba : Rgba) : Bool := rgba.alpha == 255

/-! ### Hexadecimal forms -/

/-- The colour of three, four, six or eight hexadecimal digits; a digit of the short forms stands
for two. -/
def ofHex? (digits : Text) : Option Rgba :=
  let pair (high low : Nat) : UInt8 := UInt8.ofNat (16 * high + low)
  match digits.mapM hexDigitValue? with
  | some [r, g, b] => some ⟨pair r r, pair g g, pair b b, 255⟩
  | some [r, g, b, a] => some ⟨pair r r, pair g g, pair b b, pair a a⟩
  | some [r, r', g, g', b, b'] => some ⟨pair r r', pair g g', pair b b', 255⟩
  | some [r, r', g, g', b, b', a, a'] => some ⟨pair r r', pair g g', pair b b', pair a a'⟩
  | _ => none

/-- The channels that are written: alpha only where it is not opaque. -/
def channels (rgba : Rgba) : List UInt8 :=
  if rgba.isOpaque then [rgba.red, rgba.green, rgba.blue]
  else [rgba.red, rgba.green, rgba.blue, rgba.alpha]

def fullHex (rgba : Rgba) : Text :=
  '#' :: rgba.channels.flatMap fun v =>
    [Nat.digitChar (v.toNat / 16), Nat.digitChar (v.toNat % 16)]

def isDoubled (v : UInt8) : Bool := v.toNat / 16 == v.toNat % 16

/-- Three or four hexadecimal digits after a `#` where they are enough. -/
def shortestHex (rgba : Rgba) : Text :=
  if rgba.channels.all isDoubled then
    '#' :: rgba.channels.map fun v => Nat.digitChar (v.toNat % 16)
  else rgba.fullHex

/-! ### Names -/

def ofName? (name : Text) : Option Rgba :=
  if name.isKeyword "transparent" then some transparent
  else (Color.table.find? fun entry => name.isKeyword entry.1).map fun entry => ofRgb24 entry.2

def names (rgba : Rgba) : List String :=
  if rgba = transparent then ["transparent"]
  else (Color.table.filter fun entry => ofRgb24 entry.2 = rgba).map (·.1)

/-- The shortest name of a colour; of several the first. -/
def name? (rgba : Rgba) : Option String :=
  match rgba.names with
  | [] => none
  | name :: names =>
    some (names.foldl (fun best name => if name.length < best.length then name else best) name)

/-- The shorter one of the shortest name and the shortest hexadecimal form; of two equally short
the name. -/
def shortestForm (rgba : Rgba) : Text :=
  match rgba.name? with
  | some name => if name.length ≤ rgba.shortestHex.length then name.toList else rgba.shortestHex
  | none => rgba.shortestHex

end Rgba

end Css
