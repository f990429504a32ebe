import Css.Diagnostic

/-!
# Cursors

A cursor stands between two characters of a text. It shows the characters ahead, with U+FFFD in
place of U+0000, and their byte offsets. It keeps count of all bytes it has passed, but the offsets
it shows are words of 32 bits. What it passes is kept as characters: places in words never decide
on the content of a token.
-/

namespace Css

/-- A place in a text: the bytes passed and the characters ahead. -/
structure Cursor where
  source : Text
  offset : Nat
  rest : Text
  dropBytes?_source : Text.dropBytes? source offset = some rest
  deriving DecidableEq

namespace Cursor

def ofText (source : Text) : Cursor where
  source := source
  offset := 0
  rest := source
  dropBytes?_source := Text.dropBytes?_byteLength_take source 0

/-- Moves past `n` characters, or to the end if there are fewer. -/
def advanceBy (cursor : Cursor) (n : Nat) : Cursor where
  source := cursor.source
  offset := cursor.offset + Text.byteLength (cursor.rest.take n)
  rest := cursor.rest.drop n
  dropBytes?_source := Text.dropBytes?_add cursor.dropBytes?_source n

def advance (cursor : Cursor) : Cursor := cursor.advanceBy 1

def charsBefore : Text → Nat → Nat
  | [], _ => 0
  | c :: cs, place => if place = 0 then 0 else charsBefore cs (place - c.utf8Size) + 1

/-- The first place between two characters at or after byte `place`, or the end. -/
def seek (source : Text) (place : Pos) : Cursor :=
  (ofText source).advanceBy (charsBefore source place.toNat)

def look (cursor : Cursor) (n : Nat) : Option Char :=
  cursor.rest[n]?.map fun c => if c = '\x00' then '\ufffd' else c

def lookOffset (cursor : Cursor) (n : Nat) : Pos :=
  .ofPlace (cursor.offset + Text.byteLength (cursor.rest.take n))

def isAtEnd (cursor : Cursor) : Bool := cursor.rest.isEmpty

def skipBlanks (cursor : Cursor) : Cursor :=
  cursor.advanceBy (cursor.rest.takeWhile isBlank).length

def skipNewline (cursor : Cursor) : Cursor :=
  match cursor.rest with
  | '\r' :: '\n' :: _ => cursor.advanceBy 2
  | _ => cursor.advance

def slice? (cursor : Cursor) (start stop : Pos) : Option Text :=
  Text.slice? cursor.source start.toNat stop.toNat

end Cursor

end Css
