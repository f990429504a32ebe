import Css.Proofs.Text.Lossy
import Css.Proofs.Token.Faults
import Css.Proofs.Token.Scanned
import Css.Tokenizer
import Mathlib.Data.List.Chain

/-!
# Tokens one at a time

Asked for one lexeme after the other, a tokenizer gives the rest of its text, with its end, and then
nothing (`Tokenizer.yields_rest`). The lexemes of a text tile it (`Lexeme.Tile`): nothing is left
out and nothing is read twice.
-/

namespace Css

namespace Text

theorem dropBytes?_append (front back : Text) :
    dropBytes? (front ++ back) front.byteLength = some back := by
  have h := dropBytes?_byteLength_take (front ++ back) front.length
  rwa [List.take_left, List.drop_left] at h

/-- A place between two characters parts the text in two. -/
theorem dropBytes?_eq_some_iff {text rest : Text} {place : Nat} :
    dropBytes? text place = some rest ↔
      ∃ front, text = front ++ rest ∧ place = front.byteLength := by
  constructor
  · intro h
    induction text generalizing place with
    | nil =>
      rw [dropBytes?] at h
      split at h
      · obtain rfl := Option.some.inj h
        exact ⟨[], rfl, ‹_›⟩
      · contradiction
    | cons c cs ih =>
      rw [dropBytes?] at h
      split at h
      · obtain rfl := Option.some.inj h
        exact ⟨[], rfl, ‹_›⟩
      split at h
      · obtain ⟨front, rfl, hplace⟩ := ih h
        refine ⟨c :: front, rfl, ?_⟩
        rw [byteLength_cons]
        omega
      · contradiction
  · rintro ⟨front, rfl, rfl⟩
    exact dropBytes?_append front rest

theorem takeBytes?_append (front back : Text) :
    takeBytes? (front ++ back) front.byteLength = some front := by
  induction front with
  | nil => cases back <;> rfl
  | cons c cs ih =>
    have := c.utf8Size_pos
    rw [List.cons_append, byteLength_cons, takeBytes?, if_neg (by omega), if_pos (by omega),
      Nat.add_sub_cancel_left, ih]
    rfl

theorem takeBytes?_eq_some_iff {text front : Text} {place : Nat} :
    takeBytes? text place = some front ↔
      ∃ back, text = front ++ back ∧ place = front.byteLength := by
  constructor
  · intro h
    induction text generalizing front place with
    | nil =>
      rw [takeBytes?] at h
      split at h
      · obtain rfl := Option.some.inj h
        exact ⟨[], rfl, ‹_›⟩
      · contradiction
    | cons c cs ih =>
      rw [takeBytes?] at h
      split at h
      · obtain rfl := Option.some.inj h
        exact ⟨c :: cs, rfl, ‹_›⟩
      split at h
      · obtain ⟨front, hfront, rfl⟩ := Option.map_eq_some_iff.1 h
        obtain ⟨back, rfl, hplace⟩ := ih hfront
        refine ⟨back, rfl, ?_⟩
        rw [byteLength_cons]
        omega
      · contradiction
  · rintro ⟨back, rfl, rfl⟩
    exact takeBytes?_append front back

end Text

namespace Lexeme

def LiesIn (source : Text) (lexeme : Lexeme) : Prop :=
  ∃ front back, source = front ++ (lexeme.raw ++ back) ∧
    lexeme.span.start.toNat = front.byteLength ∧
    lexeme.span.stop.toNat = front.byteLength + Text.byteLength lexeme.raw

namespace LiesIn

variable {source : Text} {lexeme : Lexeme}

theorem slice? (h : lexeme.LiesIn source) :
    source.slice? lexeme.span.start lexeme.span.stop = some lexeme.raw := by
  obtain ⟨front, back, rfl, hstart, hstop⟩ := h
  rw [hstart, hstop, Text.slice?, if_pos (Nat.le_add_right ..), Nat.add_sub_cancel_left,
    Text.dropBytes?_append, Option.bind_some, Text.takeBytes?_append]

theorem isSome_start (h : lexeme.LiesIn source) :
    (source.dropBytes? lexeme.span.start).isSome = true := by
  obtain ⟨front, back, rfl, hstart, -⟩ := h
  rw [hstart, Text.dropBytes?_append]
  rfl

theorem isSome_stop (h : lexeme.LiesIn source) :
    (source.dropBytes? lexeme.span.stop).isSome = true := by
  obtain ⟨front, back, rfl, -, hstop⟩ := h
  rw [hstop, ← List.append_assoc, ← Text.byteLength_append, Text.dropBytes?_append]
  rfl

end LiesIn

structure Tile (source : Text) (lexemes : List Lexeme) : Prop where
  start : lexemes.head?.map (·.span.start) = some 0
  adjacent : lexemes.IsChain fun left right => right.span.start = left.span.stop
  atEnd : ∃ last ∈ lexemes.getLast?, last.token = .eof ∧
    last.span.start.toNat = source.byteLength ∧ last.span.stop.toNat = source.byteLength
  ne_eof : ∀ lexeme ∈ lexemes.dropLast, lexeme.token ≠ .eof
  nonempty : ∀ lexeme ∈ lexemes.dropLast, lexeme.span.start < lexeme.span.stop
  boundary : ∀ lexeme ∈ lexemes, (source.dropBytes? lexeme.span.start).isSome = true ∧
    (source.dropBytes? lexeme.span.stop).isSome = true
  raw : ∀ lexeme ∈ lexemes,
    source.slice? lexeme.span.start lexeme.span.stop = some lexeme.raw
  text : text lexemes = source

end Lexeme

namespace Reading

def lexemes (lineComments : Bool) (offset : Nat) (text : Text) : List Lexeme :=
  (all lineComments offset text).map (·.lexeme) ++ [Lexeme.atEnd (offset + text.byteLength)]

variable (lineComments : Bool)

theorem lexemes_nil (offset : Nat) : lexemes lineComments offset [] = [Lexeme.atEnd offset] := by
  rw [lexemes, all]
  rfl

theorem lexemes_cons (offset : Nat) (c : Char) (cs : Text) :
    lexemes lineComments offset (c :: cs) =
      (first lineComments offset c cs).lexeme ::
        lexemes lineComments
          (offset + Text.byteLength (first lineComments offset c cs).lexeme.raw)
          ((c :: cs).drop (Token.scan lineComments c cs).length) := by
  rw [lexemes, all_cons, lexemes, ← byteLength_first lineComments offset, ← Nat.add_assoc]
  rfl

theorem head?_lexemes (offset : Nat) (text : Text) :
    (lexemes lineComments offset text).head?.map (·.span.start) = some (.ofPlace offset) := by
  cases text with
  | nil =>
    rw [lexemes_nil]
    rfl
  | cons c cs =>
    rw [lexemes_cons]
    rfl

theorem isChain_lexemes (offset : Nat) (text : Text) :
    (lexemes lineComments offset text).IsChain
      fun left right => right.span.start = left.span.stop := by
  fun_induction all lineComments offset text with
  | case1 offset =>
    rw [lexemes_nil]
    exact List.isChain_singleton _
  | case2 offset c cs reading ih =>
    rw [lexemes_cons, List.isChain_cons]
    refine ⟨fun next hnext => ?_, ih⟩
    have hhead := head?_lexemes lineComments (offset + Text.byteLength reading.lexeme.raw)
      ((c :: cs).drop (Token.scan lineComments c cs).length)
    rw [Option.mem_def.1 hnext] at hhead
    exact Option.some.inj hhead

/-- Each lexeme of the rest of a source lies in the source, if the places of the source fit in
words. -/
theorem liesIn_of_mem_lexemes {offset : Nat} {text : Text} {lexeme : Lexeme}
    (h : lexeme ∈ lexemes lineComments offset text) {source front : Text}
    (hfits : source.byteLength ≤ maxInputLength) (hsource : source = front ++ text)
    (hoffset : offset = front.byteLength) : lexeme.LiesIn source := by
  have hlength : source.byteLength = front.byteLength + text.byteLength := by
    rw [hsource, Text.byteLength_append]
  fun_induction all lineComments offset text generalizing front with
  | case1 offset =>
    rw [lexemes_nil, List.mem_singleton] at h
    subst h hoffset
    have hend : (Pos.ofPlace front.byteLength).toNat = front.byteLength :=
      Pos.toNat_ofPlace (by omega)
    exact ⟨front, [], hsource, hend, hend⟩
  | case2 offset c cs reading ih =>
    have htext : reading.lexeme.raw ++ (c :: cs).drop (Token.scan lineComments c cs).length =
        c :: cs := List.take_append_drop ..
    rw [lexemes_cons, List.mem_cons] at h
    subst hoffset
    have hbytes : Text.byteLength reading.lexeme.raw + _ = _ :=
      byteLength_first lineComments front.byteLength c cs
    obtain rfl | hrest := h
    · have hstop : front.byteLength + Text.byteLength reading.lexeme.raw ≤ maxInputLength := by
        omega
      exact ⟨front, _, by rw [hsource, htext], Pos.toNat_ofPlace (by omega),
        Pos.toNat_ofPlace hstop⟩
    · refine @ih hrest (front ++ reading.lexeme.raw) ?_ ?_ ?_
      · rw [hsource, List.append_assoc, htext]
      · rw [Text.byteLength_append]
      · rw [Text.byteLength_append]
        omega

theorem text_lexemes (offset : Nat) (text : Text) :
    Lexeme.text (lexemes lineComments offset text) = text := by
  rw [lexemes, Lexeme.text_append, text_all]
  exact List.append_nil text

theorem tile_lexemes {text : Text} (hfits : text.byteLength ≤ maxInputLength) :
    Lexeme.Tile text (lexemes lineComments 0 text) where
  start := head?_lexemes ..
  adjacent := isChain_lexemes ..
  atEnd := by
    rw [lexemes, List.getLast?_concat, Nat.zero_add]
    exact ⟨_, rfl, rfl, Pos.toNat_ofPlace hfits, Pos.toNat_ofPlace hfits⟩
  ne_eof := by
    intro lexeme hmem
    rw [lexemes, List.dropLast_concat] at hmem
    obtain ⟨reading, hreading, rfl⟩ := List.mem_map.1 hmem
    exact (reads_of_mem_all hreading).ne_eof
  nonempty := by
    intro lexeme hmem
    rw [lexemes, List.dropLast_concat] at hmem
    obtain ⟨reading, hreading, rfl⟩ := List.mem_map.1 hmem
    exact (span_of_mem_all (by rwa [Nat.zero_add]) hreading).2.1
  boundary := by
    intro lexeme hmem
    have hlies := liesIn_of_mem_lexemes lineComments hmem hfits (List.nil_append text).symm rfl
    exact ⟨hlies.isSome_start, hlies.isSome_stop⟩
  raw := by
    intro lexeme hmem
    exact (liesIn_of_mem_lexemes lineComments hmem hfits (List.nil_append text).symm rfl).slice?
  text := text_lexemes ..

end Reading

namespace Tokenizer

/-- Asked one lexeme after the other, a tokenizer gives some lexemes and then nothing. -/
inductive Yields : Tokenizer → List Lexeme → Prop
  | nil {tokenizer : Tokenizer} : tokenizer.next? = (none, tokenizer) → Yields tokenizer []
  | cons {tokenizer after : Tokenizer} {lexeme : Lexeme} {lexemes : List Lexeme} :
    tokenizer.next? = (some lexeme, after) → Yields after lexemes →
      Yields tokenizer (lexeme :: lexemes)

theorem yields_of_finished {tokenizer : Tokenizer} (h : tokenizer.finished = true) :
    Yields tokenizer [] := by
  refine .nil ?_
  rw [next?, if_pos h]

theorem next?_of_nil {tokenizer : Tokenizer} (hgoes : tokenizer.finished = false)
    (hrest : tokenizer.cursor.rest = []) :
    tokenizer.next? =
      (some (Lexeme.atEnd tokenizer.cursor.offset), { tokenizer with finished := true }) := by
  rw [next?, if_neg (by simp [hgoes]), read, hrest]
  rfl

/-- In front of a character a tokenizer gives the lexeme that starts with it and goes on. -/
theorem next?_of_cons {tokenizer : Tokenizer} (hgoes : tokenizer.finished = false) {c : Char}
    {cs : Text} (hrest : tokenizer.cursor.rest = c :: cs) :
    ∃ after, tokenizer.next? =
        (some (Reading.first tokenizer.lineComments tokenizer.cursor.offset c cs).lexeme, after) ∧
      after.finished = false ∧ after.lineComments = tokenizer.lineComments ∧
      after.cursor.offset = tokenizer.cursor.offset + Text.byteLength
        (Reading.first tokenizer.lineComments tokenizer.cursor.offset c cs).lexeme.raw ∧
      after.cursor.rest = (c :: cs).drop (Token.scan tokenizer.lineComments c cs).length := by
  have hreads : Token.Reads (Token.scan tokenizer.lineComments c cs).token
    (Token.scan tokenizer.lineComments c cs).problem := Token.reads_scan ..
  have hlength :
      (Reading.first tokenizer.lineComments tokenizer.cursor.offset c cs).lexeme.raw.length =
        (Token.scan tokenizer.lineComments c cs).length := by
    have := (Token.scan_length tokenizer.lineComments c cs).2
    show (List.take _ _).length = _
    rw [List.length_take, List.length_cons]
    omega
  rw [next?, if_neg (by simp [hgoes]), read, hrest]
  refine ⟨_, rfl, beq_false_of_ne hreads.ne_eof, rfl, ?_, ?_⟩
  · simp only [Cursor.advanceBy, hrest]
    rw [hlength]
    rfl
  · simp only [Cursor.advanceBy, hrest, hlength]

/-- A tokenizer that has not come to its end gives the lexemes of the text ahead. -/
theorem yields_lexemes {tokenizer : Tokenizer} (hgoes : tokenizer.finished = false) :
    Yields tokenizer
      (Reading.lexemes tokenizer.lineComments tokenizer.cursor.offset tokenizer.cursor.rest) := by
  generalize hremaining : tokenizer.cursor.rest.length = remaining
  induction remaining using Nat.strongRecOn generalizing tokenizer with
  | ind remaining ih =>
    cases hrest : tokenizer.cursor.rest with
    | nil =>
      rw [Reading.lexemes_nil]
      exact .cons (next?_of_nil hgoes hrest) (yields_of_finished rfl)
    | cons c cs =>
      obtain ⟨after, hnext, hafter, hcomments, hposition, hbehind⟩ := next?_of_cons hgoes hrest
      have hshorter : after.cursor.rest.length < remaining := by
        have := (Token.scan_length tokenizer.lineComments c cs).1
        rw [hbehind, ← hremaining, hrest, List.length_drop, List.length_cons]
        omega
      have htail := ih _ hshorter hafter rfl
      rw [hcomments, hposition, hbehind] at htail
      rw [Reading.lexemes_cons]
      exact .cons hnext htail

theorem rest_eq_lexemes {tokenizer : Tokenizer} (hgoes : tokenizer.finished = false) :
    tokenizer.rest.1 =
      Reading.lexemes tokenizer.lineComments tokenizer.cursor.offset tokenizer.cursor.rest := by
  rw [rest, if_neg (by simp [hgoes]), Reading.lexemes]
  simp only [Cursor.advanceBy, List.take_length]

/-- What a tokenizer gives one at a time is what it gives at once. -/
theorem yields_rest (tokenizer : Tokenizer) : Yields tokenizer tokenizer.rest.1 := by
  cases hfinished : tokenizer.finished with
  | true =>
    rw [rest, if_pos hfinished]
    exact yields_of_finished hfinished
  | false =>
    rw [rest_eq_lexemes hfinished]
    exact yields_lexemes hfinished

/-- A text that lexemes tile has no more bytes than words count. -/
theorem byteLength_le_of_tile {text : Text} {lexemes : List Lexeme}
    (h : Lexeme.Tile text lexemes) : text.byteLength ≤ maxInputLength := by
  obtain ⟨last, -, -, -, hstop⟩ := h.atEnd
  rw [← hstop]
  exact Pos.toNat_le last.span.stop

/-- A tokenizer cuts every text whose places fit in words into finitely many tokens, and loses
nothing. -/
theorem tile_of_text (lineComments : Bool) {text : Text}
    (hfits : text.byteLength ≤ maxInputLength) :
    Yields (ofText lineComments text) (ofText lineComments text).rest.1 ∧
      Lexeme.Tile text (ofText lineComments text).rest.1 := by
  have hrest : (ofText lineComments text).rest.1 = Reading.lexemes lineComments 0 text := by
    rw [rest_eq_lexemes rfl]
    rfl
  exact ⟨yields_rest _, hrest ▸ Reading.tile_lexemes lineComments hfits⟩

/-- A name of a character that has two bytes, and a comment without its end. -/
theorem tile_of_text_open_comment :
    Lexeme.Tile "é/*".toList
      [⟨.ident "é".toList, ⟨0, 2⟩, "é".toList⟩, ⟨.comment [], ⟨2, 4⟩, "/*".toList⟩,
        Lexeme.atEnd 4] := by
  have hrest : (ofText true "é/*".toList).rest.1 =
      [⟨.ident "é".toList, ⟨0, 2⟩, "é".toList⟩, ⟨.comment [], ⟨2, 4⟩, "/*".toList⟩,
        Lexeme.atEnd 4] := by decide +kernel
  rw [← hrest]
  exact (@tile_of_text true "é/*".toList (by decide)).2

/-- What a tokenizer gives does not tile the text of a third of the greatest length in stray bytes,
which are not too many but become three times as long. -/
theorem not_tile_of_text :
    (Utf8.stray [] 1431655766 []).length ≤ maxInputLength ∧
      ∀ lineComments lexemes,
        Yields (ofText lineComments (Utf8.decodeLossy (Utf8.stray [] 1431655766 []))) lexemes →
          ¬Lexeme.Tile (Utf8.decodeLossy (Utf8.stray [] 1431655766 [])) lexemes := by
  rw [Utf8.length_stray, Utf8.decodeLossy_stray]
  refine ⟨by decide, fun lineComments lexemes _ htile => ?_⟩
  have hlength := byteLength_le_of_tile htile
  rw [List.nil_append, List.append_nil, Text.byteLength_replicate] at hlength
  exact absurd hlength (by decide)

end Tokenizer

end Css
