import Css.Property
import Css.Stylesheet
import Css.Value.Parser

/-!
# Reading declarations

A declaration is a property name, a colon, a value and perhaps `!important`. Values of properties
that are not known, and values without a structure of their own, are kept as source text.
-/

namespace Css

inductive DeclarationError where
  | missingName
  | missingColon
  | unbalanced
  | badToken
  | empty
  | atRule
  deriving DecidableEq, Repr

def DeclarationError.message : DeclarationError → String
  | missingName => "expected a property name"
  | missingColon => "expected ':' after the property name"
  | unbalanced => "unbalanced parentheses or brackets in value"
  | badToken => "invalid string or url in value"
  | empty => "empty value"
  | atRule => "at-rules are not allowed in a declaration block"

namespace Declaration

def cutImportant (value : List Lexeme) : List Lexeme × Bool :=
  match Lexeme.next? value.reverse with
  | some (word, before) =>
    match Lexeme.next? before with
    | some (.delim '!', before) =>
      if word.isIdent "important" then (before.reverse, true) else (value, false)
    | _ => (value, false)
  | none => (value, false)

def readValue (name : Text) (value : List Lexeme) : Value :=
  if Property.isKnown name then
    match Value.parse value with
    | .ok value => value
    | .error _ => .raw (Lexeme.rawText value)
  else .raw (Lexeme.rawText value)

def cutName (lexemes : List Lexeme) : Except DeclarationError (Text × List Lexeme) :=
  match Lexeme.next? lexemes with
  | some (.ident name, rest) =>
    match Lexeme.next? rest with
    | some (.colon, value) => .ok (name, value)
    | _ => .error .missingColon
  | _ => .error .missingName

/-- The declaration that some lexemes make. `isClosed` says whether every bracket in them was
closed in order. -/
def parse (isClosed : Bool) (lexemes : List Lexeme) : Except DeclarationError Declaration := do
  let (name, value) ← cutName lexemes
  if !isClosed || !Lexeme.isBalanced value then .error .unbalanced
  else if value.any fun lexeme => lexeme.token.isBad then .error .badToken
  else
    let (value, important) := cutImportant value
    if Lexeme.isVoid value && !Property.isCustom name then .error .empty
    else return { name, value := readValue name value, important }

end Declaration

end Css
