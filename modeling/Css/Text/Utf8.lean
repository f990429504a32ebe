import Css.Text

/-!
# UTF-8

Bytes are cut into pieces, each a character or a longest run of bytes that begins one without
finishing it. `decodeLossy` writes U+FFFD for a piece of the second kind, and `firstInvalid?`
gives the place of the first such piece. `encode` goes the other way.
-/

namespace Css.Utf8

/-! ### Encoding -/

def encode (text : Text) : List UInt8 := text.flatMap String.utf8EncodeChar

theorem length_encode (text : Text) : (encode text).length = text.byteLength := by
  induction text with
  | nil => rfl
  | cons c cs ih =>
    rw [encode] at ih
    rw [encode, List.flatMap_cons, List.length_append, String.length_utf8EncodeChar, ih,
      Text.byteLength_cons]

/-! ### Decoding -/

/-- What a lead byte announces: its own bits, how many bytes follow, and the range of the first. -/
structure Lead where
  bits : Nat
  count : Nat
  low : Nat := 0x80
  high : Nat := 0xBF

/-- The lead bytes; the narrower ranges leave out overlong forms, surrogates and what is past
U+10FFFF. -/
def lead? (byte : Nat) : Option Lead :=
  if byte < 0x80 then some { bits := byte, count := 0 }
  else if byte < 0xC2 then none
  else if byte < 0xE0 then some { bits := byte % 0x20, count := 1 }
  else if byte = 0xE0 then some { bits := 0, count := 2, low := 0xA0 }
  else if byte = 0xED then some { bits := 0xD, count := 2, high := 0x9F }
  else if byte < 0xF0 then some { bits := byte % 0x10, count := 2 }
  else if byte = 0xF0 then some { bits := 0, count := 3, low := 0x90 }
  else if byte < 0xF4 then some { bits := byte % 0x8, count := 3 }
  else if byte = 0xF4 then some { bits := 4, count := 3, high := 0x8F }
  else none

/-- Reads `count` bytes that continue a character, the first of them from `low` to `high`. The
code point is missing where one does not continue it; that byte stays in the rest. -/
def continuation : (count bits low high : Nat) → List UInt8 → Option Nat × List UInt8
  | 0, bits, _, _, bytes => (some bits, bytes)
  | _ + 1, _, _, _, [] => (none, [])
  | count + 1, bits, low, high, byte :: bytes =>
    if low ≤ byte.toNat ∧ byte.toNat ≤ high then
      continuation count (bits * 0x40 + byte.toNat % 0x40) 0x80 0xBF bytes
    else (none, byte :: bytes)

theorem length_continuation_le (count bits low high : Nat) (bytes : List UInt8) :
    (continuation count bits low high bytes).2.length ≤ bytes.length := by
  induction count generalizing bits low high bytes with
  | zero => simp [continuation]
  | succ count ih =>
    cases bytes with
    | nil => simp [continuation]
    | cons byte bytes =>
      simp only [continuation]
      split
      · exact Nat.le_succ_of_le (ih ..)
      · exact Nat.le_refl _

/-- The piece that starts with a given byte, `none` if it is no character, and the rest. -/
def piece (byte : UInt8) (bytes : List UInt8) : Option Char × List UInt8 :=
  match lead? byte.toNat with
  | none => (none, bytes)
  | some lead =>
    let (code, rest) := continuation lead.count lead.bits lead.low lead.high bytes
    (code.map Char.ofNat, rest)

theorem length_piece_le (byte : UInt8) (bytes : List UInt8) :
    (piece byte bytes).2.length ≤ bytes.length := by
  unfold piece
  split
  · exact Nat.le_refl _
  · exact length_continuation_le ..

def pieces : List UInt8 → List (Option Char)
  | [] => []
  | byte :: bytes => (piece byte bytes).1 :: pieces (piece byte bytes).2
termination_by bytes => bytes.length
decreasing_by exact Nat.lt_succ_of_le (length_piece_le byte bytes)

/-- The text of a byte sequence, with U+FFFD for each piece that is no character. -/
def decodeLossy (bytes : List UInt8) : Text :=
  (pieces bytes).map (·.getD '\ufffd')

def firstInvalid? (bytes : List UInt8) : Option Nat :=
  if (pieces bytes).all Option.isSome then none
  else some (Text.byteLength ((pieces bytes).takeWhile Option.isSome).reduceOption)

end Css.Utf8
