import Css.Color
import Css.Keyword
import Css.Token

/-!
# Values

What a declaration assigns: numbers, names, strings, colours, functions and lists of these. Names
and digits are kept as written.
-/

namespace Css

inductive WideKeyword where
  | initial
  | inherit
  | unset
  | revert
  | revertLayer
  deriving DecidableEq, Repr

instance : Keyword WideKeyword where
  all := [.initial, .inherit, .unset, .revert, .revertLayer]
  spelling
    | .initial => "initial"
    | .inherit => "inherit"
    | .unset => "unset"
    | .revert => "revert"
    | .revertLayer => "revert-layer"

inductive Color where
  /-- `#` and hexadecimal digits. -/
  | hex (digits : Text) (rgba : Rgba)
  | named (name : Text) (rgba : Rgba)
  /-- Written in its shortest form, whatever it was before. -/
  | computed (rgba : Rgba)
  deriving DecidableEq

def Color.rgba : Color → Rgba
  | hex _ rgba => rgba
  | named _ rgba => rgba
  | computed rgba => rgba

inductive Delimiter where
  | slash
  | plus
  | minus
  | star
  deriving DecidableEq, Repr

namespace Delimiter

def toChar : Delimiter → Char
  | slash => '/'
  | plus => '+'
  | minus => '-'
  | star => '*'

def ofChar? : Char → Option Delimiter
  | '/' => some slash
  | '+' => some plus
  | '-' => some minus
  | '*' => some star
  | _ => none

def isTight : Delimiter → Bool
  | slash => true
  | star => true
  | _ => false

end Delimiter

inductive Separator where
  | space
  | comma
  deriving DecidableEq, Repr

/-- The value of a declaration, or a part of one. -/
inductive Value where
  | number (x : Number)
  | percentage (x : Number)
  | dimension (x : Number) (unit : Text)
  | color (color : Color)
  /-- A colour function, with the colour it denotes if all its arguments are literals. -/
  | colorFunction (name : Text) (arguments : List Value) (rgba : Option Rgba)
  | keyword (word : WideKeyword)
  | ident (name : Text)
  | string (content : Text) (quote : Quote)
  /-- A url, whether it was written with quotes or without. -/
  | url (target : Text)
  | function (name : Text) (arguments : List Value)
  /-- `var()` of a custom property, with what stands in for it. -/
  | var (name : Text) (fallback : Option Value)
  | delimiter (sign : Delimiter)
  | list (separator : Separator) (items : List Value)
  /-- Source text without a structure of its own. -/
  | raw (text : Text)

namespace Value

instance : Inhabited Value := ⟨raw []⟩

def ofSpelling (spelling : String) : Value := ident spelling.toList

def ofMember {α : Type} [Keyword α] (member : α) : Value := ofSpelling (Keyword.spelling member)

def ident? : Value → Option Text
  | ident name => some name
  | _ => none

def isRaw : Value → Bool
  | raw _ => true
  | _ => false

def isIdent (value : Value) (keyword : String) : Bool :=
  match value with
  | ident name => name.isKeyword keyword
  | _ => false

def spaceItems : Value → List Value
  | list .space items => items
  | value => [value]

def spaceList : List Value → Value
  | [item] => item
  | items => list .space items

mutual

def same : Value → Value → Bool
  | number x, number y => x.sameValue y
  | percentage x, percentage y => x.sameValue y
  | dimension x unit, dimension y unit' => x.sameValue y && unit == unit'
  | color c, color c' => c == c'
  | colorFunction name arguments rgba, colorFunction name' arguments' rgba' =>
    name == name' && sameAll arguments arguments' && rgba == rgba'
  | keyword word, keyword word' => word == word'
  | ident name, ident name' => name == name'
  | string content quote, string content' quote' => content == content' && quote == quote'
  | url target, url target' => target == target'
  | function name arguments, function name' arguments' =>
    name == name' && sameAll arguments arguments'
  | var name fallback, var name' fallback' => name == name' && sameOption fallback fallback'
  | delimiter sign, delimiter sign' => sign == sign'
  | list separator items, list separator' items' => separator == separator' && sameAll items items'
  | raw text, raw text' => text == text'
  | _, _ => false

def sameAll : List Value → List Value → Bool
  | [], [] => true
  | value :: values, value' :: values' => same value value' && sameAll values values'
  | _, _ => false

def sameOption : Option Value → Option Value → Bool
  | none, none => true
  | some value, some value' => same value value'
  | _, _ => false

end

end Value

end Css
