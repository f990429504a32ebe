import Css.Stylesheet.Minify
import Css.Stylesheet.Parser
import Css.Stylesheet.Printer
import Css.Text.Utf8

/-!
# Transforming style sheets

From the bytes of a style sheet to its text, read, minified if that is asked for, and written again.
Only a source that cannot be read at all gives no text.
-/

namespace Css

structure TransformOptions where
  minify : Bool := false
  parsing : ParseOptions := {}

structure TransformOutput where
  code : Text
  diagnostics : List Diagnostic
  deriving DecidableEq

inductive TransformError where
  | depthExceeded (limit : Nat) (diagnostics : List Diagnostic)
  | unterminatedString (offset : Pos) (diagnostics : List Diagnostic)
  | inputTooLarge (length : Nat)
  | serialization
  deriving DecidableEq

namespace TransformError

def message : TransformError → String
  | depthExceeded limit _ => (Problem.depthExceeded limit).message
  | unterminatedString offset _ => "Unterminated string starting at offset " ++ toString offset
  | inputTooLarge length =>
    "Input of " ++ toString length ++ " bytes exceeds the maximum of " ++
      toString maxInputLength ++ " bytes"
  | serialization =>
    "Failed to serialize stylesheet: an error occurred when formatting an argument"

def diagnostics : TransformError → List Diagnostic
  | depthExceeded _ diagnostics => diagnostics
  | unterminatedString _ diagnostics => diagnostics
  | _ => []

/-- The failure that some diagnostics, in the order of the source, call for: that of the first
fatal one. -/
def ofDiagnostics? (diagnostics : List Diagnostic) : Option TransformError :=
  (diagnostics.find? Diagnostic.isFatal).map fun fatal =>
    match fatal.problem with
    | .depthExceeded limit => depthExceeded limit diagnostics
    | _ => unterminatedString fatal.span.start diagnostics

end TransformError

def invalidUtf8? (bytes : List UInt8) : Option Diagnostic :=
  (Utf8.firstInvalid? bytes).map fun place =>
    ⟨⟨.ofPlace place, .ofPlace place + 1⟩, .lex .invalidUtf8⟩

def serializeCss (style : Style) (text : Text) : TransformOutput :=
  let result := Stylesheet.parse {} text
  { code := result.sheet.serialize style, diagnostics := result.diagnostics }

/-- Reads and writes the text of some bytes. -/
def transform (options : TransformOptions) (bytes : List UInt8) :
    Except TransformError TransformOutput :=
  if maxInputLength < bytes.length then .error (.inputTooLarge bytes.length)
  else
    let result := Stylesheet.parse options.parsing (Utf8.decodeLossy bytes)
    let diagnostics := Diagnostic.sort ((invalidUtf8? bytes).toList ++ result.diagnostics)
    match TransformError.ofDiagnostics? diagnostics with
    | some error => .error error
    | none =>
      let style := if options.minify then Style.minified else Style.pretty
      let sheet := if options.minify then Stylesheet.minify result.sheet else result.sheet
      .ok { code := Stylesheet.serialize style sheet, diagnostics }

end Css
