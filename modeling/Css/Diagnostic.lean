import Css.Text

/-!
# Diagnostics

A diagnostic says what is wrong in a span of the source. Reading goes on after it, except that a
fatal one leaves nothing to print.
-/

namespace Css

/-- A byte place, kept in a word of 32 bits. -/
abbrev Pos := UInt32

/-- The word of a place. Past the greatest word the places start again at zero. -/
def Pos.ofPlace (place : Nat) : Pos := UInt32.ofNat place

/-- The greatest length of a source, in bytes: the greatest place that a word keeps. -/
def maxInputLength : Nat := 0xFFFFFFFF

instance : Coe Nat Pos := ⟨Pos.ofPlace⟩

instance : Coe Pos Nat := ⟨UInt32.toNat⟩

structure Span where
  start : Pos
  stop : Pos
  deriving DecidableEq, Repr

namespace Span

def length (span : Span) : Pos := span.stop - span.start

def isEmpty (span : Span) : Bool := span.start == span.stop

def join (left right : Span) : Span where
  start := min left.start right.start
  stop := max left.stop right.stop

def point (place : Pos) : Span := ⟨place, place⟩

end Span

inductive LexError where
  | badString
  | unterminatedString
  | badUrl
  | badEscape
  | unterminatedComment
  | invalidUtf8
  deriving DecidableEq, Repr

def LexError.message : LexError → String
  | .badString => "Unexpected newline inside a string"
  | .unterminatedString => "Unterminated string at end of input"
  | .badUrl => "Invalid character in unquoted 'url(...)'"
  | .badEscape => "Invalid escape sequence"
  | .unterminatedComment => "Unterminated comment"
  | .invalidUtf8 => "Input is not valid UTF-8"

inductive Problem where
  | lex (error : LexError)
  | unbalancedBlock (expected : Char)
  | invalidDeclaration (reason : String)
  | invalidSelector (reason : String)
  | depthExceeded (limit : Nat)
  deriving DecidableEq, Repr

namespace Problem

def message : Problem → String
  | lex error => error.message
  | unbalancedBlock expected => "Unbalanced block, expected '" ++ String.singleton expected ++ "'"
  | invalidDeclaration reason => "Invalid declaration: " ++ reason
  | invalidSelector reason => "Invalid selector: " ++ reason
  | depthExceeded limit => "Maximum nesting depth of " ++ toString limit ++ " exceeded"

/-- Whether nothing sensible can be printed: the nesting is too deep, or a string never ends. -/
def isFatal : Problem → Bool
  | depthExceeded _ => true
  | lex .unterminatedString => true
  | _ => false

end Problem

/-- A line and a column, both counted from one in 32 bits; a column is one character wide. -/
structure Location where
  line : UInt32
  column : UInt32
  deriving DecidableEq, Repr

namespace Location

/-- Where the character after `c` stands. Only a line feed starts a line. -/
def after (location : Location) (c : Char) : Location :=
  if c = '\n' then ⟨location.line + 1, 1⟩ else ⟨location.line, location.column + 1⟩

/-- The location of a byte place in a text that starts at `location`. -/
def ofPlaceFrom (location : Location) : Text → Nat → Location
  | [], _ => location
  | c :: cs, place =>
    if place = 0 then location else ofPlaceFrom (location.after c) cs (place - c.utf8Size)

/-- The location of a byte place; past the end of the text it is the end. -/
def ofPlace (source : Text) (place : Pos) : Location :=
  ofPlaceFrom ⟨1, 1⟩ source place.toNat

end Location

/-- A problem and where it is. -/
structure Diagnostic where
  span : Span
  problem : Problem
  deriving DecidableEq, Repr

namespace Diagnostic

def message (diagnostic : Diagnostic) : String := diagnostic.problem.message

def isFatal (diagnostic : Diagnostic) : Bool := diagnostic.problem.isFatal

def location (diagnostic : Diagnostic) (source : Text) : Location :=
  Location.ofPlace source diagnostic.span.start

def located (diagnostic : Diagnostic) (filename : String) (source : Text) : String :=
  let location := diagnostic.location source
  String.intercalate ":" [filename, toString location.line, toString location.column] ++ ": " ++
    diagnostic.message

/-- Diagnostics in the order of their starts; those that start together keep their order. -/
def sort (diagnostics : List Diagnostic) : List Diagnostic :=
  diagnostics.mergeSort fun left right => left.span.start ≤ right.span.start

end Diagnostic

end Css
