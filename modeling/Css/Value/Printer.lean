import Css.Style
import Css.Value

/-!
# Writing values

The text of a value. Names, strings and raw text are written as they are; minified output writes
colours in their shortest form and leaves out space that no reader needs.
-/

namespace Css

/-- A colour: as written, and in its shortest form in minified output. Names are kept. -/
def Color.toText (style : Style) : Color → Text
  | hex digits rgba => if style.minify then rgba.shortestForm else '#' :: digits
  | named name _ => name
  | computed rgba => if style.minify then rgba.shortestForm else rgba.fullHex

/-- Whether a colour is opaque or wholly transparent, so that a short form shows it exactly. -/
def Rgba.isPlain (rgba : Rgba) : Bool := rgba.alpha == 255 || rgba.alpha == 0

namespace Value

def isTight : Value → Bool
  | delimiter sign => sign.isTight
  | _ => false

def spaceBetween (style : Style) (left right : Value) : Text :=
  if style.minify && (left.isTight || right.isTight) then [] else [' ']

mutual

def toText (style : Style) : Value → Text
  | number x => style.number x
  | percentage x => style.number x ++ ['%']
  | dimension x unit => style.number x ++ unit
  | color c => c.toText style
  | colorFunction name arguments rgba =>
    match rgba with
    | some rgba =>
      if style.minify && rgba.isPlain then rgba.shortestForm
      else name ++ '(' :: commaText style arguments ++ [')']
    | none => name ++ '(' :: commaText style arguments ++ [')']
  | keyword word => (Keyword.spelling word).toList
  | ident name => name
  | string content quote => quote.enclose content
  | url target => Url.toText target
  | function name arguments => name ++ '(' :: commaText style arguments ++ [')']
  | var name fallback => "var(".toList ++ name ++ fallbackText style fallback ++ [')']
  | delimiter sign => [sign.toChar]
  | list .comma items => commaText style items
  | list .space items => spaceText style items
  | raw text => text

def commaText (style : Style) : List Value → Text
  | [] => []
  | [value] => value.toText style
  | value :: next :: values =>
    value.toText style ++ style.delim ',' ++ commaText style (next :: values)

def spaceText (style : Style) : List Value → Text
  | [] => []
  | [value] => value.toText style
  | value :: next :: values =>
    value.toText style ++ spaceBetween style value next ++ spaceText style (next :: values)

def fallbackText (style : Style) : Option Value → Text
  | none => []
  | some (raw []) => [',']
  | some value => style.delim ',' ++ value.toText style

end

end Value

end Css
