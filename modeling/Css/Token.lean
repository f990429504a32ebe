import Css.Diagnostic
import Css.Number

/-!
# Tokens

The kinds of token of a style sheet, names and contents as written. A lexeme is a token at its
place in a source.
-/

namespace Css

inductive Quote where
  | double
  | single
  deriving DecidableEq, Repr

def Quote.toChar : Quote → Char
  | double => '"'
  | single => '\''

inductive Bracket where
  | round
  | square
  | curly
  deriving DecidableEq, Repr

def Bracket.opening : Bracket → Char
  | round => '('
  | square => '['
  | curly => '{'

def Bracket.closing : Bracket → Char
  | round => ')'
  | square => ']'
  | curly => '}'

/-- A number as written: its value, whether it has neither fraction nor exponent, its text. -/
structure Numeric where
  value : Number
  isInteger : Bool
  text : Text
  deriving DecidableEq

/-- A token. A function carries its name and opens a round bracket; strings and urls carry what
stands between their delimiters, with escapes as written. -/
inductive Token where
  | ident (name : Text)
  | function (name : Text)
  | atKeyword (name : Text)
  | hash (name : Text) (isId : Bool)
  | string (content : Text) (quote : Quote)
  | badString
  | url (target : Text)
  | badUrl
  | number (numeric : Numeric)
  | percentage (numeric : Numeric)
  | dimension (numeric : Numeric) (unit : Text)
  | delim (c : Char)
  | whitespace
  | comment (content : Text)
  | colon
  | semicolon
  | comma
  | opening (bracket : Bracket)
  | closing (bracket : Bracket)
  | cdo
  | cdc
  | eof
  deriving DecidableEq

namespace Token

def isTrivia : Token → Bool
  | whitespace => true
  | comment _ => true
  | _ => false

def opens? : Token → Option Bracket
  | function _ => some .round
  | opening bracket => some bracket
  | _ => none

def closes? : Token → Option Bracket
  | closing bracket => some bracket
  | _ => none

def isIdent (token : Token) (keyword : String) : Bool :=
  match token with
  | ident name => name.isKeyword keyword
  | _ => false

/-- Whether a token is what is left of a string or url that was cut short. -/
def isBad : Token → Bool
  | badString => true
  | badUrl => true
  | _ => false

end Token

/-- A token at its place in a source. -/
structure Lexeme where
  token : Token
  span : Span
  raw : Text
  deriving DecidableEq

end Css
