import Css.Number.Decimal
import Css.Token

/-!
# Output styles

A style says how a style sheet is written: laid out to be read, or in as few characters as
possible. A layout is a style at some indentation, where lines start.
-/

namespace Css

structure Style where
  minify : Bool
  /-- The spaces that one level of nesting adds. -/
  indentWidth : Nat
  deriving DecidableEq

namespace Style

def pretty : Style := ⟨false, 2⟩

def minified : Style := ⟨true, 2⟩

def space (style : Style) : Text := if style.minify then [] else [' ']

def delim (style : Style) (c : Char) : Text := c :: style.space

def separated (separator : Text) (items : List Text) : Text :=
  (items.intersperse separator).flatten

def dropLeadingZero : Text → Text
  | '0' :: '.' :: fraction => '.' :: fraction
  | '-' :: '0' :: '.' :: fraction => '-' :: '.' :: fraction
  | text => text

def number (style : Style) (x : Number) : Text :=
  let text := if x.units = 0 then ['0'] else x.toText
  if style.minify then dropLeadingZero text else text

def binary64 (style : Style) : Binary64 → Text
  | none => Binary64.toText none
  | some x => style.number x

end Style

def Text.enclosed (mark : Char) (content : Text) : Text := mark :: content ++ [mark]

def Quote.enclose (quote : Quote) (content : Text) : Text := Text.enclosed quote.toChar content

namespace Url

def isBare (target : Text) : Bool :=
  !target.isEmpty && target.all fun c =>
    !(isBlank c || isQuote c || c == '(' || c == ')' || isNonPrintable c)

def hasUnescaped (sought : Char) : Text → Bool
  | [] => false
  | ['\\'] => false
  | '\\' :: _ :: cs => hasUnescaped sought cs
  | c :: cs => c == sought || hasUnescaped sought cs

/-- A url without quotes where it can be, else in double quotes, or in single ones where a double
quote in it is not escaped. -/
def toText (target : Text) : Text :=
  let argument :=
    if isBare target then target
    else if hasUnescaped '"' target then Quote.single.enclose target
    else Quote.double.enclose target
  "url(".toList ++ argument ++ [')']

end Url

structure Layout where
  style : Style
  indent : Nat
  deriving DecidableEq

namespace Layout

def ofStyle (style : Style) : Layout := ⟨style, 0⟩

def deeper (layout : Layout) : Layout :=
  { layout with indent := layout.indent + layout.style.indentWidth }

def shallower (layout : Layout) : Layout :=
  { layout with indent := layout.indent - layout.style.indentWidth }

def newline (layout : Layout) : Text :=
  if layout.style.minify then [] else '\n' :: List.replicate layout.indent ' '

def blankLine (layout : Layout) : Text := if layout.style.minify then [] else ['\n']

end Layout

end Css
