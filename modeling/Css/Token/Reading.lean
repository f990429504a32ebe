import Css.Token.ScanLength

/-!
# Reading a text token by token

`Reading.all` cuts a text into its lexemes, each with what is wrong with it. The end of the text is
a lexeme too, `Lexeme.atEnd`, but not a member of that list.
-/

namespace Css

def Lexeme.atEnd (place : Nat) : Lexeme := ⟨.eof, .point (.ofPlace place), []⟩

structure Reading where
  lexeme : Lexeme
  problem : Option Problem
  deriving DecidableEq

namespace Reading

/-- The reading at the front of the text `c :: cs`, whose first byte is at `offset`. -/
def first (lineComments : Bool) (offset : Nat) (c : Char) (cs : Text) : Reading :=
  let scan := Token.scan lineComments c cs
  let raw := (c :: cs).take scan.length
  { lexeme := ⟨scan.token, ⟨.ofPlace offset, .ofPlace (offset + Text.byteLength raw)⟩, raw⟩
    problem := scan.problem }

def all (lineComments : Bool) (offset : Nat) : Text → List Reading
  | [] => []
  | c :: cs =>
    let reading := first lineComments offset c cs
    reading :: all lineComments (offset + Text.byteLength reading.lexeme.raw)
      ((c :: cs).drop (Token.scan lineComments c cs).length)
termination_by text => text.length
decreasing_by
  have := (Token.scan_length lineComments c cs).1
  simp only [List.length_drop, List.length_cons]
  omega

def diagnostic? (reading : Reading) : Option Diagnostic :=
  reading.problem.map (⟨reading.lexeme.span, ·⟩)

end Reading

def Lexeme.ofText (text : Text) : List Lexeme := (Reading.all true 0 text).map (·.lexeme)

end Css
