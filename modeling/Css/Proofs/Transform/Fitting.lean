import Css.Proofs.Stylesheet.Located
import Css.Proofs.Text.Lossy
import Css.Proofs.Transform

/-!
# Places in 32 bits

The length of the bytes is what is limited, but places are counted in the decoded text, which can be
longer. With room for what it grows by, words keep every place (`Transform.places_fit`); without it,
bytes that are accepted can become a text that is too long (`Transform.not_places_fit`).
-/

namespace Css

/-- The words that a cursor shows are its places, where the source has no more bytes than words
count. -/
theorem Cursor.toNat_lookOffset (cursor : Cursor) (n : Nat)
    (hfits : cursor.source.byteLength ≤ maxInputLength) :
    (cursor.lookOffset n).toNat = cursor.offset + Text.byteLength (cursor.rest.take n) := by
  obtain ⟨front, hsource, hoffset⟩ := Text.dropBytes?_eq_some_iff.1 cursor.dropBytes?_source
  have hrest := Text.byteLength_append (cursor.rest.take n) (cursor.rest.drop n)
  rw [List.take_append_drop] at hrest
  rw [hsource, Text.byteLength_append] at hfits
  exact Pos.toNat_ofPlace (by omega)

namespace Transform

variable {options : TransformOptions} {bytes : List UInt8}

/-- The byte that is noted as no part of a character is noted where it stands. -/
theorem toNat_of_invalidUtf8? {diagnostic : Diagnostic} (hfits : bytes.length ≤ maxInputLength)
    (h : invalidUtf8? bytes = some diagnostic) :
    Utf8.StopsAt bytes diagnostic.span.start.toNat ∧
      diagnostic.span.stop.toNat = diagnostic.span.start.toNat + 1 ∧
      diagnostic.span.stop.toNat ≤ bytes.length := by
  obtain ⟨place, hplace, rfl⟩ := Option.map_eq_some_iff.1 h
  have hlt := Utf8.firstInvalid?_lt hplace
  have hstart : (Pos.ofPlace place).toNat = place := Pos.toNat_ofPlace (by omega)
  have hstop : (Pos.ofPlace place + 1).toNat = place + 1 := by
    show (Pos.ofPlace place + Pos.ofPlace 1).toNat = _
    rw [← Pos.ofPlace_add]
    exact Pos.toNat_ofPlace (by omega)
  rw [hstart, hstop]
  exact ⟨Utf8.firstInvalid?_eq_some_iff.1 hplace, rfl, hlt⟩

/-- A diagnostic of the bytes or of their text lies within the longer of the two. -/
theorem stop_le_of_mem_noted (hfits : (Utf8.decodeLossy bytes).byteLength ≤ maxInputLength)
    {diagnostic : Diagnostic} (hmem : diagnostic ∈ noted options bytes) :
    diagnostic.span.start ≤ diagnostic.span.stop ∧
      diagnostic.span.stop.toNat ≤ (Utf8.decodeLossy bytes).byteLength := by
  have hle := Utf8.length_le_byteLength_decodeLossy bytes
  rw [noted, Diagnostic.mem_sort, List.mem_append, Option.mem_toList] at hmem
  obtain hinvalid | hparsed := hmem
  · obtain ⟨-, hstop, hinside⟩ := toNat_of_invalidUtf8? (Nat.le_trans hle hfits) hinvalid
    exact ⟨UInt32.le_iff_toNat_le.2 (by omega), Nat.le_trans hinside hle⟩
  · have hlies := Stylesheet.liesIn_of_mem_diagnostics _ hfits hparsed
    exact ⟨hlies.ordered, hlies.stop_le⟩

/-- Where the bytes leave room for what their text is longer, the text is within the limit, and
words keep all places in it: those a cursor shows, that of the first byte that is no part of a
character and those of the diagnostics. -/
theorem places_fit (options : TransformOptions) (bytes : List UInt8)
    (h : bytes.length + Utf8.growth bytes ≤ maxInputLength) :
    (Utf8.decodeLossy bytes).byteLength ≤ maxInputLength ∧
    (∀ cursor : Cursor, cursor.source = Utf8.decodeLossy bytes →
      ∀ n, (cursor.lookOffset n).toNat =
        cursor.offset + Text.byteLength (cursor.rest.take n)) ∧
    (∀ diagnostic ∈ invalidUtf8? bytes, Utf8.StopsAt bytes diagnostic.span.start.toNat ∧
      diagnostic.span.stop.toNat = diagnostic.span.start.toNat + 1) ∧
    ∀ diagnostic ∈ carried (transform options bytes),
      diagnostic.span.start ≤ diagnostic.span.stop ∧
        diagnostic.span.stop.toNat ≤ (Utf8.decodeLossy bytes).byteLength := by
  have hbytes : bytes.length ≤ maxInputLength := Nat.le_trans (Nat.le_add_right ..) h
  rw [← Utf8.byteLength_decodeLossy] at h
  refine ⟨h, fun cursor hsource n => ?_, fun diagnostic hinvalid => ?_, fun diagnostic hmem => ?_⟩
  · exact cursor.toNat_lookOffset n (by rwa [hsource])
  · obtain ⟨hstops, hstop, -⟩ := toNat_of_invalidUtf8? hbytes hinvalid
    exact ⟨hstops, hstop⟩
  · rw [carried_transform hbytes] at hmem
    exact stop_le_of_mem_noted h hmem

/-- A byte that starts no character, between two that are characters: the second of them stands four
bytes behind the start of the text. -/
theorem places_fit_stray :
    (Utf8.decodeLossy [0x61, 0xff, 0x62]).byteLength = 5 ∧
    ((Cursor.ofText (Utf8.decodeLossy [0x61, 0xff, 0x62])).lookOffset 2).toNat = 4 ∧
    invalidUtf8? [0x61, 0xff, 0x62] = some ⟨⟨1, 2⟩, .lex .invalidUtf8⟩ ∧
    Utf8.StopsAt [0x61, 0xff, 0x62] 1 ∧
    ∀ diagnostic ∈ carried (transform {} [0x61, 0xff, 0x62]),
      diagnostic.span.start ≤ diagnostic.span.stop ∧ diagnostic.span.stop.toNat ≤ 5 := by
  have hdecoded : Utf8.decodeLossy [0x61, 0xff, 0x62] = "a\ufffdb".toList := by decide +kernel
  have hlength : (Utf8.decodeLossy [0x61, 0xff, 0x62]).byteLength = 5 := by
    rw [hdecoded]
    decide
  have hinvalid : invalidUtf8? [0x61, 0xff, 0x62] = some ⟨⟨1, 2⟩, .lex .invalidUtf8⟩ := by
    decide +kernel
  obtain ⟨-, hcursor, hstops, hcarried⟩ := places_fit {} [0x61, 0xff, 0x62]
    (by rw [← Utf8.byteLength_decodeLossy, hlength]; decide)
  have hlook := hcursor (.ofText (Utf8.decodeLossy [0x61, 0xff, 0x62])) rfl 2
  rw [hlength] at hcarried
  refine ⟨hlength, hlook.trans ?_, hinvalid, (hstops _ hinvalid).1, hcarried⟩
  rw [hdecoded]
  decide

/-- A third of the greatest length in bytes that start no character is accepted, and becomes a text
that is too long. -/
theorem not_places_fit :
    ¬∀ bytes : List UInt8, bytes.length ≤ maxInputLength →
      (Utf8.decodeLossy bytes).byteLength ≤ maxInputLength := by
  intro h
  have hlong := h (Utf8.stray [] 1431655766 []) (by rw [Utf8.length_stray]; decide)
  rw [Utf8.decodeLossy_stray, List.nil_append, List.append_nil, Text.byteLength_replicate] at hlong
  exact absurd hlong (by decide)

end Transform

end Css
