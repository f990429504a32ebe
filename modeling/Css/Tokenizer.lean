import Css.Cursor
import Css.Token.Reading

/-!
# Tokenizers

A tokenizer gives the lexemes of a text one at a time, its end last and once, and keeps the
diagnostics they raise until they are taken. It can be set back to any place.
-/

namespace Css

structure Tokenizer where
  /-- Whether `//` starts a comment up to the end of the line. -/
  lineComments : Bool
  cursor : Cursor
  /-- The diagnostics raised and not yet taken. -/
  diagnostics : List Diagnostic
  /-- Whether the end of the text has been given. -/
  finished : Bool
  deriving DecidableEq

namespace Tokenizer

def ofText (lineComments : Bool) (text : Text) : Tokenizer where
  lineComments := lineComments
  cursor := Cursor.ofText text
  diagnostics := []
  finished := false

def position (tokenizer : Tokenizer) : Pos := tokenizer.cursor.lookOffset 0

/-- The next lexeme, the end of the text as often as it is asked for. -/
def read (tokenizer : Tokenizer) : Lexeme × Tokenizer :=
  match tokenizer.cursor.rest with
  | [] => (Lexeme.atEnd tokenizer.cursor.offset, tokenizer)
  | c :: cs =>
    let reading := Reading.first tokenizer.lineComments tokenizer.cursor.offset c cs
    (reading.lexeme,
      { tokenizer with
        cursor := tokenizer.cursor.advanceBy reading.lexeme.raw.length
        diagnostics := tokenizer.diagnostics ++ reading.diagnostic?.toList })

def next? (tokenizer : Tokenizer) : Option Lexeme × Tokenizer :=
  if tokenizer.finished then (none, tokenizer)
  else
    let (lexeme, tokenizer) := tokenizer.read
    (some lexeme, { tokenizer with finished := lexeme.token == .eof })

def rest (tokenizer : Tokenizer) : List Lexeme × Tokenizer :=
  if tokenizer.finished then ([], tokenizer)
  else
    let readings :=
      Reading.all tokenizer.lineComments tokenizer.cursor.offset tokenizer.cursor.rest
    let cursor := tokenizer.cursor.advanceBy tokenizer.cursor.rest.length
    (readings.map (·.lexeme) ++ [Lexeme.atEnd cursor.offset],
      { tokenizer with
        cursor
        diagnostics := tokenizer.diagnostics ++ readings.filterMap Reading.diagnostic?
        finished := true })

/-- Goes to the first place between characters at or after a byte offset. -/
def reset (tokenizer : Tokenizer) (offset : Pos) : Tokenizer :=
  { tokenizer with cursor := Cursor.seek tokenizer.cursor.source offset, finished := false }

def takeDiagnostics (tokenizer : Tokenizer) : List Diagnostic × Tokenizer :=
  (tokenizer.diagnostics, { tokenizer with diagnostics := [] })

end Tokenizer

end Css
