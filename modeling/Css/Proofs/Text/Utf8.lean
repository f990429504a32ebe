import Css.Text.Utf8
import Mathlib.Data.List.ReduceOption

/-!
# Decoding undoes encoding

The piece at the front of the bytes of a character is that character (`piece_encode`), and a piece
that is a character is made of its bytes (`eq_encode_of_piece`). So the bytes of a text are the ones
in which every piece is a character, and otherwise whole characters stand before the first place
where none does.
-/

namespace Css.Utf8

/-! ### Code points -/

theorem toNat_val_lt (c : Char) : c.val.toNat < 0x110000 := by
  have := c.valid
  simp only [UInt32.isValidChar, Nat.isValidChar] at this
  omega

theorem not_surrogate (c : Char) : c.val.toNat < 0xD800 ∨ 0xDFFF < c.val.toNat := by
  have := c.valid
  simp only [UInt32.isValidChar, Nat.isValidChar] at this
  omega

theorem ofNat_toNat_val (c : Char) : Char.ofNat c.val.toNat = c := Char.ofNat_toNat c

theorem toNat_val_ofNat {code : Nat} (h : code < 0x110000) (h' : code < 0xD800 ∨ 0xDFFF < code) :
    (Char.ofNat code).val.toNat = code := by
  have hvalid : code.isValidChar := by
    simp only [Nat.isValidChar]
    omega
  rw [Char.ofNat, dif_pos hvalid]
  rfl

theorem continuation_cons {count bits low high : Nat} {byte : UInt8} (bytes : List UInt8)
    (hlow : low ≤ byte.toNat) (hhigh : byte.toNat ≤ high) :
    continuation (count + 1) bits low high (byte :: bytes) =
      continuation count (bits * 0x40 + byte.toNat % 0x40) 0x80 0xBF bytes := by
  rw [continuation, if_pos ⟨hlow, hhigh⟩]

/-- A code point is missing where no byte continues it. -/
theorem exists_of_continuation {count bits low high code : Nat} {bytes rest : List UInt8}
    (h : continuation (count + 1) bits low high bytes = (some code, rest)) :
    ∃ byte tail, bytes = byte :: tail ∧ low ≤ byte.toNat ∧ byte.toNat ≤ high ∧
      continuation count (bits * 0x40 + byte.toNat % 0x40) 0x80 0xBF tail = (some code, rest) := by
  cases bytes with
  | nil => simp [continuation] at h
  | cons byte tail =>
    rw [continuation] at h
    split at h
    · exact ⟨byte, tail, rfl, ‹_ ∧ _›.1, ‹_ ∧ _›.2, h⟩
    · simp at h

/-! ### Lead bytes -/

theorem lead?_one {byte : Nat} (h : byte < 0x80) :
    lead? byte = some { bits := byte, count := 0 } := by
  rw [lead?, if_pos h]

theorem lead?_two {byte : Nat} (h : 0xC2 ≤ byte) (h' : byte < 0xE0) :
    lead? byte = some { bits := byte % 0x20, count := 1 } := by
  rw [lead?, if_neg (by omega), if_neg (by omega), if_pos h']

theorem lead?_three {byte : Nat} (h : 0xE0 ≤ byte) (h' : byte < 0xF0) :
    lead? byte = some
      { bits := byte % 0x10
        count := 2
        low := if byte = 0xE0 then 0xA0 else 0x80
        high := if byte = 0xED then 0x9F else 0xBF } := by
  rw [lead?, if_neg (by omega), if_neg (by omega), if_neg (by omega), if_pos h']
  split
  · subst byte
    rfl
  · split <;> simp [*]

theorem lead?_four {byte : Nat} (h : 0xF0 ≤ byte) (h' : byte < 0xF5) :
    lead? byte = some
      { bits := byte % 0x8
        count := 3
        low := if byte = 0xF0 then 0x90 else 0x80
        high := if byte = 0xF4 then 0x8F else 0xBF } := by
  rw [lead?, if_neg (by omega), if_neg (by omega), if_neg (by omega), if_neg (by omega),
    if_neg (by omega), if_neg (by omega)]
  split
  · subst byte
    rfl
  · split
    · rw [if_neg (show byte ≠ 0xF4 by omega)]
    · obtain rfl : byte = 0xF4 := by omega
      rfl

/-- The lead bytes, by the number of bytes that they start. -/
theorem lead?_eq_some {byte : Nat} {lead : Lead} (h : lead? byte = some lead) :
    byte < 0x80 ∨ (0xC2 ≤ byte ∧ byte < 0xE0) ∨ (0xE0 ≤ byte ∧ byte < 0xF0) ∨
      (0xF0 ≤ byte ∧ byte < 0xF5) := by
  refine Decidable.byContradiction fun hother => ?_
  have hlead : lead? byte = none := by
    by_cases hlow : byte < 0xC2
    · rw [lead?, if_neg (by omega), if_pos hlow]
    · rw [lead?, if_neg (by omega), if_neg hlow, if_neg (by omega), if_neg (by omega),
        if_neg (by omega), if_neg (by omega), if_neg (by omega), if_neg (by omega),
        if_neg (by omega)]
  rw [hlead] at h
  contradiction

/-! ### Pieces -/

theorem piece_of_lead? {byte : UInt8} {lead : Lead} (h : lead? byte.toNat = some lead)
    (bytes : List UInt8) :
    piece byte bytes =
      ((continuation lead.count lead.bits lead.low lead.high bytes).1.map Char.ofNat,
        (continuation lead.count lead.bits lead.low lead.high bytes).2) := by
  rw [piece, h]

variable {b₁ b₂ b₃ b₄ : UInt8} (rest : List UInt8)

theorem piece_one (h₁ : b₁.toNat < 0x80) :
    piece b₁ rest = (some (Char.ofNat b₁.toNat), rest) := by
  rw [piece_of_lead? (lead?_one h₁)]
  rfl

theorem piece_two (h₁ : 0xC2 ≤ b₁.toNat ∧ b₁.toNat < 0xE0)
    (h₂ : 0x80 ≤ b₂.toNat ∧ b₂.toNat ≤ 0xBF) :
    piece b₁ (b₂ :: rest) =
      (some (Char.ofNat (b₁.toNat % 0x20 * 0x40 + b₂.toNat % 0x40)), rest) := by
  rw [piece_of_lead? (lead?_two h₁.1 h₁.2), continuation_cons _ h₂.1 h₂.2]
  rfl

theorem piece_three (h₁ : 0xE0 ≤ b₁.toNat ∧ b₁.toNat < 0xF0)
    (h₂ : (if b₁.toNat = 0xE0 then 0xA0 else 0x80) ≤ b₂.toNat ∧
      b₂.toNat ≤ if b₁.toNat = 0xED then 0x9F else 0xBF)
    (h₃ : 0x80 ≤ b₃.toNat ∧ b₃.toNat ≤ 0xBF) :
    piece b₁ (b₂ :: b₃ :: rest) =
      (some (Char.ofNat
        ((b₁.toNat % 0x10 * 0x40 + b₂.toNat % 0x40) * 0x40 + b₃.toNat % 0x40)), rest) := by
  rw [piece_of_lead? (lead?_three h₁.1 h₁.2), continuation_cons _ h₂.1 h₂.2,
    continuation_cons _ h₃.1 h₃.2]
  rfl

theorem piece_four (h₁ : 0xF0 ≤ b₁.toNat ∧ b₁.toNat < 0xF5)
    (h₂ : (if b₁.toNat = 0xF0 then 0x90 else 0x80) ≤ b₂.toNat ∧
      b₂.toNat ≤ if b₁.toNat = 0xF4 then 0x8F else 0xBF)
    (h₃ : 0x80 ≤ b₃.toNat ∧ b₃.toNat ≤ 0xBF) (h₄ : 0x80 ≤ b₄.toNat ∧ b₄.toNat ≤ 0xBF) :
    piece b₁ (b₂ :: b₃ :: b₄ :: rest) =
      (some (Char.ofNat (((b₁.toNat % 0x8 * 0x40 + b₂.toNat % 0x40) * 0x40 +
        b₃.toNat % 0x40) * 0x40 + b₄.toNat % 0x40)), rest) := by
  rw [piece_of_lead? (lead?_four h₁.1 h₁.2), continuation_cons _ h₂.1 h₂.2,
    continuation_cons _ h₃.1 h₃.2, continuation_cons _ h₄.1 h₄.2]
  rfl

theorem toNat_ofNat_of_lt {n : Nat} (h : n < 256) : (UInt8.ofNat n).toNat = n := by
  rw [UInt8.toNat_ofNat', Nat.mod_eq_of_lt h]

/-- The piece in front of the bytes of a character is the character. -/
theorem piece_encode (c : Char) :
    ∃ byte bytes, String.utf8EncodeChar c ++ rest = byte :: bytes ∧
      piece byte bytes = (some c, rest) := by
  have hlt := toNat_val_lt c
  have hvalid := not_surrogate c
  have hchar := ofNat_toNat_val c
  simp only [String.utf8EncodeChar]
  generalize c.val.toNat = code at hlt hvalid hchar
  have hlast : (UInt8.ofNat (code % 64 + 128)).toNat = code % 64 + 128 :=
    toNat_ofNat_of_lt (by omega)
  have hsecond : (UInt8.ofNat (code / 64 % 64 + 128)).toNat = code / 64 % 64 + 128 :=
    toNat_ofNat_of_lt (by omega)
  have hthird : (UInt8.ofNat (code / 4096 % 64 + 128)).toNat = code / 4096 % 64 + 128 :=
    toNat_ofNat_of_lt (by omega)
  split
  · have hlead : (UInt8.ofNat code).toNat = code := toNat_ofNat_of_lt (by omega)
    refine ⟨_, _, rfl, (piece_one _ (by omega)).trans ?_⟩
    rw [hlead, hchar]
    rfl
  split
  · have hlead := toNat_ofNat_of_lt (show code / 64 % 32 + 192 < 256 by omega)
    refine ⟨_, _, rfl, (piece_two _ (by omega) (by omega)).trans ?_⟩
    rw [hlead, hlast, show (code / 64 % 32 + 192) % 0x20 * 0x40 + (code % 64 + 128) % 0x40 = code
      by omega, hchar]
    rfl
  split
  · have hlead := toNat_ofNat_of_lt (show code / 4096 % 16 + 224 < 256 by omega)
    refine ⟨_, _, rfl, (piece_three _ (by omega) ?_ (by omega)).trans ?_⟩
    · rw [hlead, hsecond]
      split <;> split <;> omega
    · rw [hlead, hsecond, hlast, show ((code / 4096 % 16 + 224) % 0x10 * 0x40 +
        (code / 64 % 64 + 128) % 0x40) * 0x40 + (code % 64 + 128) % 0x40 = code by omega, hchar]
      rfl
  · have hlead := toNat_ofNat_of_lt (show code / 262144 % 8 + 240 < 256 by omega)
    refine ⟨_, _, rfl, (piece_four _ (by omega) ?_ (by omega) (by omega)).trans ?_⟩
    · rw [hlead, hthird]
      split <;> split <;> omega
    · rw [hlead, hthird, hsecond, hlast, show (((code / 262144 % 8 + 240) % 0x8 * 0x40 +
        (code / 4096 % 64 + 128) % 0x40) * 0x40 + (code / 64 % 64 + 128) % 0x40) * 0x40 +
          (code % 64 + 128) % 0x40 = code by omega, hchar]
      rfl

/-- The bytes of a character are determined by its code point. -/
theorem encode_ofNat {code : Nat} (h : code < 0x110000)
    (h' : code < 0xD800 ∨ 0xDFFF < code) :
    String.utf8EncodeChar (Char.ofNat code) =
      if code ≤ 0x7F then [.ofNat code]
      else if code ≤ 0x7FF then [.ofNat (code / 64 % 32 + 192), .ofNat (code % 64 + 128)]
      else if code ≤ 0xFFFF then
        [.ofNat (code / 4096 % 16 + 224), .ofNat (code / 64 % 64 + 128), .ofNat (code % 64 + 128)]
      else
        [.ofNat (code / 262144 % 8 + 240), .ofNat (code / 4096 % 64 + 128),
          .ofNat (code / 64 % 64 + 128), .ofNat (code % 64 + 128)] := by
  simp only [String.utf8EncodeChar, toNat_val_ofNat h h']

theorem eq_ofNat {byte : UInt8} {n : Nat} (h : n = byte.toNat) : byte = .ofNat n := by
  rw [h, UInt8.ofNat_toNat]

variable {rest}

/-- A piece that is a character is made of the bytes of the character. -/
theorem eq_encode_of_piece {bytes : List UInt8} {c : Char} (h : piece b₁ bytes = (some c, rest)) :
    b₁ :: bytes = String.utf8EncodeChar c ++ rest := by
  cases hlead : lead? b₁.toNat with
  | none => simp [piece, hlead] at h
  | some lead =>
    have hpiece := piece_of_lead? hlead bytes
    obtain ⟨code, hcontinuation, hcode⟩ : ∃ code,
        continuation lead.count lead.bits lead.low lead.high bytes = (some code, rest) ∧
          Char.ofNat code = c := by
      rw [h, Prod.mk.injEq, eq_comm, Option.map_eq_some_iff] at hpiece
      obtain ⟨⟨code, hcode, hchar⟩, hrest⟩ := hpiece
      exact ⟨code, Prod.ext hcode hrest.symm, hchar⟩
    subst hcode
    obtain h₁ | h₁ | h₁ | h₁ := lead?_eq_some hlead
    · rw [lead?_one h₁, Option.some.injEq] at hlead
      subst hlead
      obtain ⟨hcode, rfl⟩ : b₁.toNat = code ∧ bytes = rest := by
        simpa [continuation] using hcontinuation
      rw [encode_ofNat (by omega) (by omega), if_pos (by omega), ← eq_ofNat hcode.symm]
      rfl
    · rw [lead?_two h₁.1 h₁.2, Option.some.injEq] at hlead
      subst hlead
      obtain ⟨b₂, bytes, rfl, hlow, hhigh, hcontinuation⟩ := exists_of_continuation hcontinuation
      obtain ⟨hcode, rfl⟩ : b₁.toNat % 0x20 * 0x40 + b₂.toNat % 0x40 = code ∧ bytes = rest := by
        simpa [continuation] using hcontinuation
      simp only at hlow hhigh
      have hb₁ : b₁ = .ofNat (code / 64 % 32 + 192) := eq_ofNat (by omega)
      have hb₂ : b₂ = .ofNat (code % 64 + 128) := eq_ofNat (by omega)
      rw [encode_ofNat (by omega) (by omega), if_neg (by omega), if_pos (by omega), ← hb₁, ← hb₂]
      rfl
    · rw [lead?_three h₁.1 h₁.2, Option.some.injEq] at hlead
      subst hlead
      obtain ⟨b₂, bytes, rfl, hlow, hhigh, hcontinuation⟩ := exists_of_continuation hcontinuation
      obtain ⟨b₃, bytes, rfl, hlow₃, hhigh₃, hcontinuation⟩ :=
        exists_of_continuation hcontinuation
      obtain ⟨hcode, rfl⟩ : (b₁.toNat % 0x10 * 0x40 + b₂.toNat % 0x40) * 0x40 + b₃.toNat % 0x40 =
          code ∧ bytes = rest := by
        simpa [continuation] using hcontinuation
      -- the bounds of the second byte leave out short code points and surrogates
      obtain ⟨h₂, hshort, hvalid⟩ : (0x80 ≤ b₂.toNat ∧ b₂.toNat ≤ 0xBF) ∧ 0x7FF < code ∧
          (code < 0xD800 ∨ 0xDFFF < code) := by
        simp only at hlow hhigh
        split at hlow <;> split at hhigh <;> omega
      have hb₁ : b₁ = .ofNat (code / 4096 % 16 + 224) := eq_ofNat (by omega)
      have hb₂ : b₂ = .ofNat (code / 64 % 64 + 128) := eq_ofNat (by omega)
      have hb₃ : b₃ = .ofNat (code % 64 + 128) := eq_ofNat (by omega)
      rw [encode_ofNat (by omega) hvalid, if_neg (by omega), if_neg (by omega), if_pos (by omega),
        ← hb₁, ← hb₂, ← hb₃]
      rfl
    · rw [lead?_four h₁.1 h₁.2, Option.some.injEq] at hlead
      subst hlead
      obtain ⟨b₂, bytes, rfl, hlow, hhigh, hcontinuation⟩ := exists_of_continuation hcontinuation
      obtain ⟨b₃, bytes, rfl, hlow₃, hhigh₃, hcontinuation⟩ :=
        exists_of_continuation hcontinuation
      obtain ⟨b₄, bytes, rfl, hlow₄, hhigh₄, hcontinuation⟩ :=
        exists_of_continuation hcontinuation
      obtain ⟨hcode, rfl⟩ : ((b₁.toNat % 0x8 * 0x40 + b₂.toNat % 0x40) * 0x40 +
          b₃.toNat % 0x40) * 0x40 + b₄.toNat % 0x40 = code ∧ bytes = rest := by
        simpa [continuation] using hcontinuation
      -- and here short code points and those that are too great
      obtain ⟨h₂, hshort, hgreat⟩ : (0x80 ≤ b₂.toNat ∧ b₂.toNat ≤ 0xBF) ∧ 0xFFFF < code ∧
          code < 0x110000 := by
        simp only at hlow hhigh
        split at hlow <;> split at hhigh <;> omega
      have hb₁ : b₁ = .ofNat (code / 262144 % 8 + 240) := eq_ofNat (by omega)
      have hb₂ : b₂ = .ofNat (code / 4096 % 64 + 128) := eq_ofNat (by omega)
      have hb₃ : b₃ = .ofNat (code / 64 % 64 + 128) := eq_ofNat (by omega)
      have hb₄ : b₄ = .ofNat (code % 64 + 128) := eq_ofNat (by omega)
      rw [encode_ofNat hgreat (by omega), if_neg (by omega), if_neg (by omega), if_neg (by omega),
        ← hb₁, ← hb₂, ← hb₃, ← hb₄]
      rfl

/-! ### Bytes that are no text -/

theorem encode_cons (c : Char) (text : Text) :
    encode (c :: text) = String.utf8EncodeChar c ++ encode text := rfl

theorem pieces_encode (text : Text) (rest : List UInt8) :
    pieces (encode text ++ rest) = text.map some ++ pieces rest := by
  induction text with
  | nil => rfl
  | cons c text ih =>
    obtain ⟨byte, bytes, hbytes, hpiece⟩ := piece_encode (encode text ++ rest) c
    rw [encode_cons, List.append_assoc, hbytes, pieces, hpiece, ih]
    rfl

/-- Bytes are those of a text, up to the first piece that is no character. -/
theorem exists_text (bytes : List UInt8) :
    ∃ text rest, bytes = encode text ++ rest ∧
      (rest = [] ∨ ∃ more, pieces rest = none :: more) := by
  fun_induction pieces bytes with
  | case1 => exact ⟨[], [], rfl, .inl rfl⟩
  | case2 byte bytes ih =>
    cases hpiece : (piece byte bytes).1 with
    | none => exact ⟨[], byte :: bytes, rfl, .inr ⟨_, by rw [pieces, hpiece]⟩⟩
    | some c =>
      obtain ⟨text, rest, hbytes, hrest⟩ := ih
      refine ⟨c :: text, rest, ?_, hrest⟩
      rw [encode_cons, List.append_assoc, ← hbytes]
      exact eq_encode_of_piece (Prod.ext hpiece rfl)

theorem firstInvalid?_encode (text : Text) : firstInvalid? (encode text) = none := by
  have hpieces := pieces_encode text []
  rw [List.append_nil, pieces, List.append_nil] at hpieces
  simp [firstInvalid?, hpieces]

theorem firstInvalid?_append {text : Text} {rest : List UInt8} {more : List (Option Char)}
    (hrest : pieces rest = none :: more) :
    firstInvalid? (encode text ++ rest) = some (encode text).length := by
  have hsome : ∀ text : Text, (text.map some).reduceOption = text := by
    intro text
    induction text with
    | nil => rfl
    | cons c text ih => rw [List.map_cons, List.reduceOption_cons_of_some, ih]
  have htake : (text.map some ++ none :: more).takeWhile Option.isSome = text.map some := by
    rw [List.takeWhile_append_of_pos (by simp)]
    simp
  simp [firstInvalid?, pieces_encode, hrest, htake, hsome, length_encode]

/-- Whether bytes are a text up to a place where no character stands. -/
def StopsAt (bytes : List UInt8) (place : Nat) : Prop :=
  ∃ text rest, bytes = encode text ++ rest ∧ place = (encode text).length ∧ rest ≠ [] ∧
    ∀ c tail, rest ≠ encode [c] ++ tail

theorem firstInvalid?_eq_none_iff {bytes : List UInt8} :
    firstInvalid? bytes = none ↔ ∃ text, bytes = encode text := by
  constructor
  · intro h
    obtain ⟨text, rest, rfl, rfl | ⟨more, hmore⟩⟩ := exists_text bytes
    · exact ⟨text, List.append_nil _⟩
    · rw [firstInvalid?_append hmore] at h
      contradiction
  · rintro ⟨text, rfl⟩
    exact firstInvalid?_encode text

theorem firstInvalid?_eq_some_iff {bytes : List UInt8} {place : Nat} :
    firstInvalid? bytes = some place ↔ StopsAt bytes place := by
  constructor
  · intro h
    obtain ⟨text, rest, rfl, rfl | ⟨more, hmore⟩⟩ := exists_text bytes
    · rw [List.append_nil, firstInvalid?_encode] at h
      contradiction
    · rw [firstInvalid?_append hmore, Option.some.injEq] at h
      refine ⟨text, rest, rfl, h.symm, ?_, ?_⟩
      · rintro rfl
        rw [pieces] at hmore
        contradiction
      · rintro c tail rfl
        rw [pieces_encode] at hmore
        simp at hmore
  · rintro ⟨text, rest, rfl, rfl, hne, hnone⟩
    obtain ⟨byte, bytes, rfl⟩ := List.exists_cons_of_ne_nil hne
    cases hpiece : (piece byte bytes).1 with
    | none => exact firstInvalid?_append (by rw [pieces, hpiece])
    | some c =>
      refine absurd ?_ (hnone c (piece byte bytes).2)
      rw [encode_cons, encode, List.flatMap_nil, List.append_nil]
      exact eq_encode_of_piece (Prod.ext hpiece rfl)

/-- Bytes that are no text stop being one at some place. -/
theorem exists_stopsAt_iff {bytes : List UInt8} :
    (∃ place, StopsAt bytes place) ↔ ¬∃ text, bytes = encode text := by
  rw [← firstInvalid?_eq_none_iff]
  simp only [← firstInvalid?_eq_some_iff]
  exact Option.ne_none_iff_exists'.symm

/-- The first piece that is no character lies in the bytes. -/
theorem firstInvalid?_lt {bytes : List UInt8} {place : Nat}
    (h : firstInvalid? bytes = some place) : place < bytes.length := by
  obtain ⟨text, rest, rfl, rfl, hrest, -⟩ := firstInvalid?_eq_some_iff.1 h
  have := List.length_pos_of_ne_nil hrest
  rw [List.length_append]
  omega

end Css.Utf8
