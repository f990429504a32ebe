import Css.Token.Block

/-!
# Segments

A segment is a run of lexemes still being collected: a selector, the prelude of an at-rule, or a
declaration. It keeps the brackets that are open, and the first one that was not closed in order.
-/

namespace Css

structure Segment where
  lexemes : Array Lexeme
  /-- The open brackets, innermost first. -/
  stack : List Bracket
  /-- The first bracket that was closed too late, or closed without being open. -/
  unmatched : Option Bracket

namespace Segment

def empty : Segment := ⟨#[], [], none⟩

def noteUnmatched (segment : Segment) (bracket : Option Bracket) : Segment :=
  { segment with unmatched := segment.unmatched.or bracket }

/-- Closes a bracket: the innermost one, or one further out together with those in it. -/
def close (segment : Segment) (bracket : Bracket) : Segment :=
  if segment.stack.head? = some bracket then { segment with stack := segment.stack.tail }
  else if bracket ∈ segment.stack then
    { segment.noteUnmatched segment.stack.head? with
      stack := (segment.stack.dropWhile (· != bracket)).tail }
  else segment.noteUnmatched bracket

def push (segment : Segment) (lexeme : Lexeme) : Segment :=
  let segment := { segment with lexemes := segment.lexemes.push lexeme }
  match lexeme.token.opens?, lexeme.token.closes? with
  | some bracket, _ => { segment with stack := bracket :: segment.stack }
  | none, some bracket => segment.close bracket
  | none, none => segment

/-- Ends a segment: what is still open was not closed in order. -/
def finish (segment : Segment) : Segment := segment.noteUnmatched segment.stack.head?

/-- Whether a segment is inside curly brackets, where nothing but a closing one can end it. -/
def inCurly (segment : Segment) : Bool := segment.stack.contains .curly

/-- From the first lexeme to the last, or some other span where there is none. -/
def span (segment : Segment) (fallback : Span) : Span :=
  match segment.lexemes[0]?, segment.lexemes.back? with
  | some first, some last => first.span.join last.span
  | _, _ => fallback

end Segment

end Css
