/-!
# Text

A text is a list of characters. Places in it are counted in bytes of its UTF-8 form, which
`byteLength` measures; `slice?` cuts between two such places and refuses a place inside a
character. Character classes follow the CSS Syntax definitions, where U+0000 is read as U+FFFD
and so belongs to the names.
-/

namespace Css

/-- Characters of a style sheet, or of a part of one, in order. -/
abbrev Text := List Char

namespace Text

/-! ### Bytes and places -/

def byteLength : Text → Nat
  | [] => 0
  | c :: cs => c.utf8Size + byteLength cs

@[simp]
theorem byteLength_nil : byteLength [] = 0 := rfl

@[simp]
theorem byteLength_cons (c : Char) (cs : Text) :
    byteLength (c :: cs) = c.utf8Size + byteLength cs := rfl

@[simp]
theorem byteLength_append (xs ys : Text) :
    byteLength (xs ++ ys) = byteLength xs + byteLength ys := by
  induction xs with
  | nil => simp
  | cons c cs ih => simp [ih, Nat.add_assoc]

theorem byteLength_replicate (n : Nat) (c : Char) :
    byteLength (List.replicate n c) = n * c.utf8Size := by
  induction n with
  | zero => simp
  | succ n ih => rw [List.replicate_succ, byteLength_cons, ih, Nat.succ_mul, Nat.add_comm]

theorem length_le_byteLength (text : Text) : text.length ≤ text.byteLength := by
  induction text with
  | nil => exact Nat.le_refl _
  | cons c text ih =>
    have hsize := c.utf8Size_pos
    rw [List.length_cons, byteLength_cons]
    omega

/-- The text from byte `place` on, if `place` lies between two characters. -/
def dropBytes? : Text → Nat → Option Text
  | [], place => if place = 0 then some [] else none
  | c :: cs, place =>
    if place = 0 then some (c :: cs)
    else if c.utf8Size ≤ place then dropBytes? cs (place - c.utf8Size)
    else none

theorem dropBytes?_byteLength_take (text : Text) (n : Nat) :
    dropBytes? text (byteLength (text.take n)) = some (text.drop n) := by
  induction text generalizing n with
  | nil => simp [dropBytes?]
  | cons c cs ih =>
    cases n with
    | zero => simp [dropBytes?]
    | succ n =>
      have := c.utf8Size_pos
      rw [List.take_succ_cons, List.drop_succ_cons, byteLength_cons, dropBytes?,
        if_neg (by omega), if_pos (by omega), Nat.add_sub_cancel_left, ih]

/-- From a place between two characters one comes to another by passing whole characters. -/
theorem dropBytes?_add {text rest : Text} {place : Nat} (h : dropBytes? text place = some rest)
    (n : Nat) : dropBytes? text (place + byteLength (rest.take n)) = some (rest.drop n) := by
  induction text generalizing place with
  | nil =>
    rw [dropBytes?] at h
    split at h
    · obtain rfl := Option.some.inj h
      simp [dropBytes?, *]
    · exact absurd h (by simp)
  | cons c cs ih =>
    rw [dropBytes?] at h
    split at h
    · obtain rfl := Option.some.inj h
      rw [‹place = 0›, Nat.zero_add]
      exact dropBytes?_byteLength_take _ n
    · split at h
      · rw [dropBytes?, if_neg (by omega), if_pos (by omega), Nat.sub_add_comm ‹_›]
        exact ih h
      · exact absurd h (by simp)

def takeBytes? : Text → Nat → Option Text
  | [], place => if place = 0 then some [] else none
  | c :: cs, place =>
    if place = 0 then some []
    else if c.utf8Size ≤ place then (takeBytes? cs (place - c.utf8Size)).map (c :: ·)
    else none

def slice? (text : Text) (start stop : Nat) : Option Text :=
  if start ≤ stop then (dropBytes? text start).bind (takeBytes? · (stop - start)) else none

/-! ### Letter case -/

/-- ASCII letters in lower case; every other character is kept. -/
def lower (text : Text) : Text := text.map Char.toLower

def isKeyword (text : Text) (keyword : String) : Bool := text.lower == keyword.toList

def isOneOf (text : Text) (keywords : List String) : Bool := keywords.any text.isKeyword

def sameKeyword (left right : Text) : Bool := left.lower == right.lower

end Text

/-! ### Character classes -/

def isNewline (c : Char) : Bool := c == '\n' || c == '\r' || c == '\x0c'

def isBlank (c : Char) : Bool := isNewline c || c == '\t' || c == ' '

def isQuote (c : Char) : Bool := c == '"' || c == '\''

def isHexDigit (c : Char) : Bool :=
  c.isDigit || ('a' ≤ c && c ≤ 'f') || ('A' ≤ c && c ≤ 'F')

/-- A letter, `_`, or a character outside ASCII; U+0000 stands for U+FFFD. -/
def isNameStart (c : Char) : Bool := c == '_' || c.isAlpha || '\u0080' ≤ c || c == '\x00'

def isNameChar (c : Char) : Bool := isNameStart c || c.isDigit || c == '-'

/-- A control character that an unquoted url may not hold; U+0000 is read as U+FFFD. -/
def isNonPrintable (c : Char) : Bool :=
  ('\x01' ≤ c && c ≤ '\x08') || c == '\x0b' || ('\x0e' ≤ c && c ≤ '\x1f') || c == '\x7f'

def hexDigitValue? (c : Char) : Option Nat :=
  if c.isDigit then some (c.toNat - '0'.toNat)
  else if 'a' ≤ c && c ≤ 'f' then some (c.toNat - 'a'.toNat + 10)
  else if 'A' ≤ c && c ≤ 'F' then some (c.toNat - 'A'.toNat + 10)
  else none

end Css
