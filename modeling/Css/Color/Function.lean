import Css.Number.Decimal
import Css.Value

/-!
# Colour functions

The colours that `rgb()`, `rgba()`, `hsl()` and `hsla()` denote when their arguments are literals,
either three or four arguments or one that lists them, with a slash before alpha. The computation
is in binary64, one rounding for each operation.
-/

namespace Css.ColorFunction

private instance (n : Nat) : OfNat Number n := ⟨Number.ofNat n⟩

def isName (name : Text) : Bool := name.isOneOf ["rgb", "rgba", "hsl", "hsla"]

structure Channels where
  first : Value
  second : Value
  third : Value
  alpha : Option Value

def channels? : List Value → Option Channels
  | [x, y, z] => some ⟨x, y, z, none⟩
  | [x, y, z, alpha] => some ⟨x, y, z, some alpha⟩
  | [.list .space [x, y, z]] => some ⟨x, y, z, none⟩
  | [.list .space [x, y, z, .delimiter .slash, alpha]] => some ⟨x, y, z, some alpha⟩
  | _ => none

/-! ### Channels -/

def fractionByte (x : Number) : UInt8 := (x * 255).toByte

def rgbByte? : Value → Option UInt8
  | .number x => some x.toByte
  | .percentage x => some (fractionByte (x / 100))
  | _ => none

def alphaByte? : Value → Option UInt8
  | .number x => some (fractionByte (x.clamp 0 1))
  | .percentage x => some (fractionByte ((x / 100).clamp 0 1))
  | _ => none

/-- A part of one, from a percentage; its sign can be left out. -/
def fraction? : Value → Option Number
  | .number x => some ((x / 100).clamp 0 1)
  | .percentage x => some ((x / 100).clamp 0 1)
  | _ => none

/-! ### Hues -/

/-- The degrees in one unit of an angle; one degree is `none`, as it changes nothing. -/
def degreesPer? (unit : Text) : Option (Option Number) :=
  if unit.isKeyword "deg" then some none
  else if unit.isKeyword "grad" then some (some (Number.ofDecimal false ⟨9, -1⟩))
  else if unit.isKeyword "rad" then
    some (some (180 / Number.ofDecimal false ⟨3141592653589793, -15⟩))
  else if unit.isKeyword "turn" then some (some 360)
  else none

/-- An angle in degrees, `none` where it is infinite and so points nowhere. -/
abbrev Hue := Option Number

def hue? : Value → Option Hue
  | .number x => some x.finite?
  | .dimension x unit => (degreesPer? unit).map fun
    | none => x.finite?
    | some factor => x.mul? factor
  | _ => none

def turn (hue : Hue) : Option Number := hue.map fun degrees => degrees % 360 / 360

/-- One channel of a hue, between its least value `low` and its greatest `high`. Without a turn
it is the least one. -/
def hueChannel (low high : Number) : Option Number → Number
  | none => low
  | some turn =>
    let turn := if turn < 0 then turn + 1 else if 1 < turn then turn - 1 else turn
    if turn * 6 < 1 then low + (high - low) * turn * 6
    else if turn * 2 < 1 then high
    else if turn * 3 < 2 then low + (high - low) * (2 / 3 - turn) * 6
    else low

/-- Red, green and blue of a hue, a saturation and a lightness, as parts of one. -/
def hslToRgb (hue : Hue) (saturation lightness : Number) : Number × Number × Number :=
  if saturation.units = 0 then (lightness, lightness, lightness)
  else
    let high :=
      if lightness ≤ Number.ofDecimal false ⟨5, -1⟩ then lightness * (saturation + 1)
      else lightness + saturation - lightness * saturation
    let low := lightness * 2 - high
    let turn := turn hue
    (hueChannel low high (turn.map (· + 1 / 3)), hueChannel low high turn,
      hueChannel low high (turn.map (· - 1 / 3)))

/-! ### Resolution -/

def resolve? (name : Text) (arguments : List Value) : Option Rgba := do
  let channels ← channels? arguments
  let alpha ← match channels.alpha with
    | none => some 255
    | some alpha => alphaByte? alpha
  if name.isOneOf ["rgb", "rgba"] then
    return ⟨← rgbByte? channels.first, ← rgbByte? channels.second, ← rgbByte? channels.third, alpha⟩
  else if name.isOneOf ["hsl", "hsla"] then
    let hue ← hue? channels.first
    let saturation ← fraction? channels.second
    let lightness ← fraction? channels.third
    let (red, green, blue) := hslToRgb hue saturation lightness
    return ⟨fractionByte red, fractionByte green, fractionByte blue, alpha⟩
  else none

end Css.ColorFunction
