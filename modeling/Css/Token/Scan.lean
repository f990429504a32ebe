import Css.Number.Decimal
import Css.Token

/-!
# Scanning one token

Each lexical form has a function for the length of the longest one at the front of a text, counted
in characters. `Token.scan` gives the token that a text starts with, its length, which is never
zero, and what is wrong with it.
-/

namespace Css

/-! ### Lengths of lexical forms -/

/-- The length of the longest chain of units at the front; `unit` gives the length of the unit
that a text starts with, `0` if there is none. -/
def chainLength (unit : Text → Nat) : Text → Nat
  | [] => 0
  | c :: cs =>
    match unit (c :: cs) with
    | 0 => 0
    | n + 1 => n + 1 + chainLength unit (cs.drop n)
termination_by text => text.length
decreasing_by simp only [List.length_drop, List.length_cons]; omega

def blanksLength (text : Text) : Nat := (text.takeWhile isBlank).length

/-- The length of one blank, where a carriage return and a line feed make one. -/
def blankLength : Text → Nat
  | '\r' :: '\n' :: _ => 2
  | c :: _ => if isBlank c then 1 else 0
  | [] => 0

/-- The length of an escape: a backslash, then up to six hexadecimal digits and one blank, or any
one character that is no newline. -/
def escapeLength : Text → Nat
  | '\\' :: c :: cs =>
    if isNewline c then 0
    else if isHexDigit c then
      let digits := (((c :: cs).take 6).takeWhile isHexDigit).length
      1 + digits + blankLength ((c :: cs).drop digits)
    else 2
  | _ => 0

def nameUnit : Text → Nat
  | [] => 0
  | c :: cs => if isNameChar c then 1 else escapeLength (c :: cs)

def nameLength : Text → Nat := chainLength nameUnit

def startsPlainName : Text → Bool
  | [] => false
  | c :: cs => isNameStart c || escapeLength (c :: cs) != 0

def startsName : Text → Bool
  | '-' :: '-' :: _ => true
  | '-' :: cs => startsPlainName cs
  | cs => startsPlainName cs

/-! ### Numerals -/

def digitsLength (text : Text) : Nat := (text.takeWhile Char.isDigit).length

def signLength : Text → Nat
  | '+' :: _ => 1
  | '-' :: _ => 1
  | _ => 0

def fractionLength : Text → Nat
  | '.' :: cs => if digitsLength cs = 0 then 0 else 1 + digitsLength cs
  | _ => 0

def exponentLength : Text → Nat
  | c :: cs =>
    let digits := digitsLength (cs.drop (signLength cs))
    if (c == 'e' || c == 'E') && digits != 0 then 1 + signLength cs + digits else 0
  | [] => 0

/-- The lengths of the parts of a numeral: sign and whole digits, fraction, exponent. -/
def numeralParts (text : Text) : Nat × Nat × Nat :=
  let whole := signLength text + digitsLength (text.drop (signLength text))
  let fraction := fractionLength (text.drop whole)
  (whole, fraction, exponentLength (text.drop (whole + fraction)))

def numeralLength (text : Text) : Nat :=
  (numeralParts text).1 + (numeralParts text).2.1 + (numeralParts text).2.2

/-- Whether a text starts with a numeral: after a sign or none, a digit, or a point and a digit. -/
def startsNumeral (text : Text) : Bool :=
  match text.drop (signLength text) with
  | '.' :: d :: _ => d.isDigit
  | d :: _ => d.isDigit
  | [] => false

/-! ### Strings, comments and urls -/

/-- One step inside a string: a backslash with the newline after it, an escape, or a character.
A lone backslash at the end of the text is a step of its own. -/
def stringUnit (quote : Quote) : Text → Nat
  | [] => 0
  | ['\\'] => 1
  | '\\' :: c :: cs =>
    if isNewline c then 1 + blankLength (c :: cs) else escapeLength ('\\' :: c :: cs)
  | c :: _ => if c == quote.toChar || isNewline c then 0 else 1

def commentLength : Text → Nat
  | [] => 0
  | '*' :: '/' :: _ => 0
  | _ :: cs => commentLength cs + 1

def urlUnit : Text → Nat
  | [] => 0
  | c :: cs =>
    if isBlank c || isQuote c || isNonPrintable c || c == '(' || c == ')' then 0
    else if c == '\\' then escapeLength (c :: cs)
    else 1

def badUrlUnit : Text → Nat
  | [] => 0
  | c :: cs => if c == ')' then 0 else max 1 (escapeLength (c :: cs))

/-! ### Tokens -/

structure Scan where
  token : Token
  length : Nat
  problem : Option Problem := none

namespace Token

def scanNumeric (text : Text) : Scan :=
  let length := numeralLength text
  let numeric : Numeric :=
    { value := ((Number.read? (text.take length)).getD Number.zero).nearestFinite
      isInteger := (numeralParts text).2.1 == 0 && (numeralParts text).2.2 == 0
      text := text.take length }
  let rest := text.drop length
  if startsName rest then
    { token := dimension numeric (rest.take (nameLength rest)), length := length + nameLength rest }
  else match rest with
    | '%' :: _ => { token := percentage numeric, length := length + 1 }
    | _ => { token := number numeric, length := length }

def scanString (quote : Quote) (text : Text) : Scan :=
  let length := chainLength (stringUnit quote) text
  let token := string (text.take length) quote
  match text.drop length with
  | [] => { token, length := 1 + length, problem := some (.lex .unterminatedString) }
  | c :: _ =>
    if c == quote.toChar then { token, length := 1 + length + 1 }
    else { token := badString, length := 1 + length, problem := some (.lex .badString) }

def scanComment (text : Text) : Scan :=
  let length := commentLength text
  let token := comment (text.take length)
  if (text.drop length).isEmpty then
    { token, length := 2 + length, problem := some (.lex .unterminatedComment) }
  else { token, length := 2 + length + 2 }

def scanLineComment (text : Text) : Scan :=
  let content := text.takeWhile fun c => !isNewline c
  { token := comment content, length := 2 + content.length }

/-- What is left of a cut url when `passed` characters lie before `text`: up to and with its
closing bracket. -/
def scanBadUrl (passed : Nat) (text : Text) : Scan :=
  let length := chainLength badUrlUnit text
  { token := badUrl
    length := passed + length + ((text.drop length).take 1).length
    problem := some (.lex .badUrl) }

/-- An unquoted url, where `passed` characters lie before `text`, its first character. -/
def scanUrl (passed : Nat) (text : Text) : Scan :=
  let length := chainLength urlUnit text
  let token := url (text.take length)
  match text.drop length with
  | [] => { token, length := passed + length, problem := some (.unbalancedBlock ')') }
  | rest =>
    let blanks := blanksLength rest
    match rest.drop blanks with
    | [] => { token, length := passed + length + blanks }
    | ')' :: _ => { token, length := passed + length + blanks + 1 }
    | rest => scanBadUrl (passed + length + blanks) rest

/-- An identifier, a function or a url. A quoted url is a function; before its string at most one
blank is left. -/
def scanIdentLike (text : Text) : Scan :=
  let length := nameLength text
  let name : Text := text.take length
  match text.drop length with
  | '(' :: inner =>
    if name.isKeyword "url" then
      let blanks := blanksLength inner
      if ((inner.drop blanks).head?.map isQuote).getD false then
        { token := function name, length := length + 1 + (blanks - 1) }
      else scanUrl (length + 1 + blanks) (inner.drop blanks)
    else { token := function name, length := length + 1 }
  | _ => { token := ident name, length := length }

def ofChar? : Char → Option Token
  | '(' => some (opening .round)
  | ')' => some (closing .round)
  | '[' => some (opening .square)
  | ']' => some (closing .square)
  | '{' => some (opening .curly)
  | '}' => some (closing .curly)
  | ',' => some comma
  | ':' => some colon
  | ';' => some semicolon
  | _ => none

/-- The token at the front of the text `c :: cs`. -/
def scan (lineComments : Bool) (c : Char) (cs : Text) : Scan :=
  let single : Scan := { token := delim c, length := 1 }
  if let some token := ofChar? c then { token, length := 1 }
  else if isBlank c then { token := whitespace, length := 1 + blanksLength cs }
  else if startsNumeral (c :: cs) then scanNumeric (c :: cs)
  else match c with
    | '/' =>
      match cs with
      | '*' :: cs => scanComment cs
      | '/' :: cs => if lineComments then scanLineComment cs else single
      | _ => single
    | '"' => scanString .double cs
    | '\'' => scanString .single cs
    | '#' =>
      if nameLength cs = 0 then single
      else { token := hash (cs.take (nameLength cs)) (startsName cs), length := 1 + nameLength cs }
    | '@' =>
      if startsName cs then
        { token := atKeyword (cs.take (nameLength cs)), length := 1 + nameLength cs }
      else single
    | '<' =>
      match cs with
      | '!' :: '-' :: '-' :: _ => { token := cdo, length := 4 }
      | _ => single
    | '-' =>
      match cs with
      | '-' :: '>' :: _ => { token := cdc, length := 3 }
      | _ => if startsName (c :: cs) then scanIdentLike (c :: cs) else single
    | '\\' =>
      if startsName (c :: cs) then scanIdentLike (c :: cs)
      else { single with problem := some (.lex .badEscape) }
    | c => if isNameStart c then scanIdentLike (c :: cs) else single

end Token

end Css
