import Css.Proofs.Text.Utf8

/-!
# How long a decoded text is

A piece that is a character keeps its bytes. Any other piece has one to three bytes and becomes
U+FFFD, which has three. So a decoded text is as long as its bytes and what such pieces lack of
three bytes (`byteLength_decodeLossy`), which is two bytes for a stray one.
-/

namespace Css.Utf8

/-! ### Pieces -/

/-- Where a code point is missing, fewer bytes were read than continue it. -/
theorem length_of_continuation_none {count bits low high : Nat} {bytes rest : List UInt8}
    (h : continuation count bits low high bytes = (none, rest)) :
    bytes.length < rest.length + count := by
  induction count generalizing bits low high bytes with
  | zero => simp [continuation] at h
  | succ count ih =>
    cases bytes with
    | nil =>
      rw [List.length_nil]
      omega
    | cons byte bytes =>
      rw [continuation] at h
      split at h
      · have := ih h
        rw [List.length_cons]
        omega
      · obtain rfl := (Prod.mk.inj h).2
        omega

theorem count_le_of_lead? {byte : Nat} {lead : Lead} (h : lead? byte = some lead) :
    lead.count ≤ 3 := by
  obtain hone | htwo | hthree | hfour := lead?_eq_some h
  · rw [lead?_one hone] at h
    simp [← Option.some.inj h]
  · rw [lead?_two htwo.1 htwo.2] at h
    simp [← Option.some.inj h]
  · rw [lead?_three hthree.1 hthree.2] at h
    simp [← Option.some.inj h]
  · rw [lead?_four hfour.1 hfour.2] at h
    simp [← Option.some.inj h]

/-- A piece that is no character has three bytes at most. -/
theorem length_of_piece_none {byte : UInt8} {bytes rest : List UInt8}
    (h : piece byte bytes = (none, rest)) : (byte :: bytes).length ≤ rest.length + 3 := by
  rw [List.length_cons]
  cases hlead : lead? byte.toNat with
  | none =>
    rw [piece, hlead, Prod.mk.injEq] at h
    rw [h.2]
    omega
  | some lead =>
    rw [piece_of_lead? hlead, Prod.mk.injEq, Option.map_eq_none_iff] at h
    have hmissing := length_of_continuation_none (Prod.ext h.1 h.2)
    have hcount := count_le_of_lead? hlead
    omega

/-- A piece that is a character has the bytes of the character. -/
theorem length_of_piece_some {byte : UInt8} {bytes rest : List UInt8} {c : Char}
    (h : piece byte bytes = (some c, rest)) :
    (byte :: bytes).length = c.utf8Size + rest.length := by
  rw [eq_encode_of_piece h, List.length_append, String.length_utf8EncodeChar]

/-! ### Texts -/

/-- The text that some pieces become. -/
theorem decodeLossy_cons (byte : UInt8) (bytes : List UInt8) :
    decodeLossy (byte :: bytes) =
      (piece byte bytes).1.getD '\ufffd' :: decodeLossy (piece byte bytes).2 := by
  rw [decodeLossy, pieces, List.map_cons, decodeLossy]

/-- The bytes that a text has more than those it is decoded from: what the pieces that are no
characters lack of the three of U+FFFD. -/
def growth : List UInt8 → Nat
  | [] => 0
  | byte :: bytes =>
    (match (piece byte bytes).1 with
      | some _ => 0
      | none => 3 - ((byte :: bytes).length - (piece byte bytes).2.length)) +
        growth (piece byte bytes).2
termination_by bytes => bytes.length
decreasing_by exact Nat.lt_succ_of_le (length_piece_le byte bytes)

theorem byteLength_decodeLossy (bytes : List UInt8) :
    (decodeLossy bytes).byteLength = bytes.length + growth bytes := by
  fun_induction growth bytes with
  | case1 =>
    rw [decodeLossy, pieces]
    rfl
  | case2 byte bytes ih =>
    rw [decodeLossy_cons, Text.byteLength_cons, ih]
    have hshorter := length_piece_le byte bytes
    generalize hpiece : piece byte bytes = cut at hshorter ⊢
    obtain ⟨_ | c, rest⟩ := cut
    · have hlength := length_of_piece_none hpiece
      have hsize : Char.utf8Size '\ufffd' = 3 := by decide
      rw [List.length_cons] at hlength ⊢
      simp only [Option.getD_none, hsize] at hshorter ⊢
      omega
    · have hlength := length_of_piece_some hpiece
      simp only [Option.getD_some]
      omega

/-- No piece becomes more than two bytes longer. -/
theorem growth_le (bytes : List UInt8) : growth bytes ≤ 2 * (pieces bytes).count none := by
  fun_induction growth bytes with
  | case1 => exact Nat.zero_le _
  | case2 byte bytes ih =>
    have hshorter := length_piece_le byte bytes
    rw [pieces, List.count_cons]
    generalize piece byte bytes = cut at hshorter ih ⊢
    obtain ⟨_ | c, rest⟩ := cut
    · simp only [List.length_cons, beq_self_eq_true, if_true] at hshorter ih ⊢
      omega
    · simpa using ih

theorem length_le_byteLength_decodeLossy (bytes : List UInt8) :
    bytes.length ≤ (decodeLossy bytes).byteLength := by
  rw [byteLength_decodeLossy]
  exact Nat.le_add_right ..

/-! ### Stray bytes -/

def stray (front : Text) (n : Nat) (back : Text) : List UInt8 :=
  encode front ++ (List.replicate n 0xff ++ encode back)

theorem length_stray (front : Text) (n : Nat) (back : Text) :
    (stray front n back).length = front.byteLength + (n + back.byteLength) := by
  rw [stray, List.length_append, List.length_append, length_encode, List.length_replicate,
    length_encode]

/-- No character starts with the greatest byte, so each such byte becomes a U+FFFD. -/
theorem pieces_replicate_append (n : Nat) (bytes : List UInt8) :
    pieces (List.replicate n 0xff ++ bytes) = List.replicate n none ++ pieces bytes := by
  induction n with
  | zero => rfl
  | succ n ih =>
    have hpiece : ∀ bytes, piece 0xff bytes = (none, bytes) := fun _ => rfl
    rw [List.replicate_succ, List.cons_append, pieces, hpiece, ih, List.replicate_succ]
    rfl

theorem decodeLossy_stray (front : Text) (n : Nat) (back : Text) :
    decodeLossy (stray front n back) = front ++ (List.replicate n '\ufffd' ++ back) := by
  have hback := pieces_encode back []
  rw [List.append_nil, pieces, List.append_nil] at hback
  have hchars : ((·.getD '\ufffd') ∘ some : Char → Char) = id := rfl
  rw [decodeLossy, stray, pieces_encode, pieces_replicate_append, hback, List.map_append,
    List.map_append, List.map_replicate, List.map_map, List.map_map, hchars, List.map_id,
    List.map_id, Option.getD_none]

end Css.Utf8
