import Css.Color.Function
import Css.Token.Block
import Css.Value

/-!
# Reading values

A value is a list of groups between commas, a group a list of components, and a component one token
or a function with its arguments. What `var()` falls back on is kept as source text where it is no
value.
-/

namespace Css

inductive ValueError where
  | unbalanced
  | empty
  | unsupported
  deriving DecidableEq, Repr

def ValueError.message : ValueError → String
  | unbalanced => "unbalanced parentheses or brackets"
  | empty => "empty value"
  | unsupported => "unsupported value syntax"

namespace Value

def ofName (name : Text) : Value :=
  match Keyword.ofName? name, Rgba.ofName? name with
  | some word, _ => keyword word
  | none, some rgba => color (.named name rgba)
  | none, none => ident name

def ofToken : Token → Except ValueError Value
  | .number numeric => .ok (number numeric.value)
  | .percentage numeric => .ok (percentage numeric.value)
  | .dimension numeric unit => .ok (dimension numeric.value unit)
  | .ident name => .ok (ofName name)
  | .hash digits _ =>
    match Rgba.ofHex? digits with
    | some rgba => .ok (color (.hex digits rgba))
    | none => .error .unsupported
  | .string content quote => .ok (string content quote)
  | .url target => .ok (url target)
  | .delim c =>
    match Delimiter.ofChar? c with
    | some sign => .ok (delimiter sign)
    | none => .error .unsupported
  | _ => .error .unsupported

def call (name : Text) (arguments : List Value) : Value :=
  if ColorFunction.isName name then
    colorFunction name arguments (ColorFunction.resolve? name arguments)
  else function name arguments

def parseQuotedUrl (inner : List Lexeme) : Except ValueError Value :=
  match Lexeme.next? inner with
  | some (.string content _, rest) =>
    if Lexeme.isVoid rest then .ok (url content) else .error .unsupported
  | _ => .error .unsupported

/-- What `var(` holds: the name of a custom property, and what follows a comma if there is one. -/
def cutVariable (inner : List Lexeme) : Except ValueError (Text × Option (List Lexeme)) :=
  match Lexeme.next? inner with
  | none => .error .empty
  | some (.ident ('-' :: '-' :: name), rest) =>
    match Lexeme.next? rest with
    | none => .ok ('-' :: '-' :: name, none)
    | some (.comma, fallback) => .ok ('-' :: '-' :: name, some fallback)
    | some _ => .error .unsupported
  | some _ => .error .unsupported

theorem length_of_cutVariable {inner : List Lexeme} {name : Text} {fallback : List Lexeme}
    (h : cutVariable inner = .ok (name, some fallback)) :
    fallback.length + 2 ≤ inner.length := by
  unfold cutVariable at h
  split at h
  · simp at h
  · rename_i name' rest hrest
    split at h
    · simp at h
    · rename_i fallback' hfallback
      simp only [Except.ok.injEq, Prod.mk.injEq, Option.some.injEq] at h
      obtain ⟨-, rfl⟩ := h
      have := Lexeme.length_of_next? hrest
      have := Lexeme.length_of_next? hfallback
      omega
    · simp at h
  · simp at h

def ofGroups : List Value → Value
  | [value] => value
  | values => list .comma values

mutual

def parseItems : List Lexeme → Except ValueError (List Value)
  | [] => .ok []
  | lexeme :: lexemes =>
    if lexeme.isTrivia then parseItems lexemes
    else match lexeme.token with
      | .function name =>
        match h : Lexeme.cutBlock? lexemes with
        | none => .error .unbalanced
        | some block =>
          have := Lexeme.length_of_cutBlock? h
          do return (← parseCall name block.inner) :: (← parseItems block.rest)
      | token => do return (← ofToken token) :: (← parseItems lexemes)
termination_by lexemes => 2 * lexemes.length
decreasing_by all_goals (simp only [List.length_cons]; omega)

def parseGroups : List (List Lexeme) → Except ValueError (List Value)
  | [] => .ok []
  | group :: groups => do
    let items ← parseItems group
    if items.isEmpty then .error .empty
    else return spaceList items :: (← parseGroups groups)
termination_by groups => 2 * Lexeme.totalLength groups
decreasing_by all_goals (simp only [Lexeme.totalLength]; omega)

def parseCall (name : Text) (inner : List Lexeme) : Except ValueError Value :=
  if name.isKeyword "url" then parseQuotedUrl inner
  else if name.isKeyword "var" then
    match h : cutVariable inner with
    | .error error => .error error
    | .ok (name, none) => .ok (var name none)
    | .ok (name, some fallback) =>
      have := length_of_cutVariable h
      if Lexeme.isVoid fallback then .ok (var name (some (raw [])))
      else match parseGroups (Lexeme.splitCommas fallback).toList with
        | .ok values => .ok (var name (some (ofGroups values)))
        | .error _ => .ok (var name (some (raw (Lexeme.rawText fallback))))
  else if Lexeme.isVoid inner then .ok (call name [])
  else do return call name (← parseGroups (Lexeme.splitCommas inner).toList)
termination_by 2 * inner.length + 3
decreasing_by
  all_goals
    rw [Lexeme.totalLength_splitCommas]
    omega

end

/-- The value that some lexemes make; trivia around them does not matter. -/
def parse (lexemes : List Lexeme) : Except ValueError Value :=
  if Lexeme.isBalanced lexemes then
    (parseGroups (Lexeme.splitCommas lexemes).toList).map ofGroups
  else .error .unbalanced

end Value

end Css
