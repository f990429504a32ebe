import Css.Style
import Css.Token.Block

/-!
# Token runs

What a style sheet holds where its structure is not modelled, such as the preludes of most
at-rules: the tokens as written, with one whitespace for all trivia between two of them.
-/

namespace Css

abbrev TokenRun := List Token

/-! ### Writing tokens -/

/-- A numeric token: as written, or in fewest digits. A plus sign is kept, since it separates the
terms of `2n+1`. -/
def Numeric.toText (style : Style) (numeric : Numeric) : Text :=
  if style.minify then
    (if numeric.text.head? = some '+' then ['+'] else []) ++ style.number numeric.value
  else numeric.text

/-- A token on its own. Comments and what is left of cut strings and urls are not written. -/
def Token.toText (style : Style) : Token → Text
  | ident name => name
  | function name => name ++ ['(']
  | atKeyword name => '@' :: name
  | hash name _ => '#' :: name
  | string content quote => quote.enclose content
  | url target => Url.toText target
  | number numeric => numeric.toText style
  | percentage numeric => numeric.toText style ++ ['%']
  | dimension numeric unit => numeric.toText style ++ unit
  | delim c => [c]
  | whitespace => [' ']
  | colon => [':']
  | semicolon => [';']
  | comma => [',']
  | opening bracket => [bracket.opening]
  | closing bracket => [bracket.closing]
  | cdo => "<!--".toList
  | cdc => "-->".toList
  | comment _ => []
  | badString => []
  | badUrl => []
  | eof => []

namespace TokenRun

/-! ### Collapsing trivia -/

/-- Tokens with one whitespace for the trivia before each of them; `gap` says whether there was
some before the first. -/
def collapse : (gap : Bool) → List Token → TokenRun
  | _, [] => []
  | gap, token :: tokens =>
    if token.isTrivia then collapse true tokens
    else if gap then .whitespace :: token :: collapse false tokens
    else token :: collapse false tokens

def isKept (token : Token) : Bool := !token.isBad && token != .eof

/-- The run of some lexemes: trivia at both ends and tokens that were cut short are left out. -/
def ofLexemes (lexemes : List Lexeme) : TokenRun :=
  collapse false (((Lexeme.tokens lexemes).filter isKept).dropWhile Token.isTrivia)

/-! ### Writing runs -/

def absorbsAfter : Token → Bool
  | .opening .round => true
  | .function _ => true
  | .opening .square => true
  | .comma => true
  | .colon => true
  | _ => false

def absorbsBefore : Token → Bool
  | .closing .round => true
  | .closing .square => true
  | .comma => true
  | _ => false

/-- The tokens of a run without the whitespace that a neighbour absorbs; `after` says whether the
token before the first absorbs it. -/
def squeeze : (after : Bool) → TokenRun → TokenRun
  | _, [] => []
  | after, token :: tokens =>
    if token = .whitespace ∧ (after ∨ (tokens.head?.map absorbsBefore).getD false) then
      squeeze false tokens
    else token :: squeeze (absorbsAfter token) tokens

def toText (style : Style) (run : TokenRun) : Text :=
  (if style.minify then squeeze false run else run).flatMap (Token.toText style)

end TokenRun

end Css
