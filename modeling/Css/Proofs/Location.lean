import Css.Proofs.Token.Iteration
import Mathlib.Data.List.DropRight
import Mathlib.Data.Prod.Lex

/-!
# Lines and columns

The location of a place between two characters is told from the text in front of it: its line is
one more than the line feeds there, its column one more than the characters behind the last of them
(`Location.ofPlace_append`), as far as words count them. Every character moves the location on, to
the next column or to the next line, so locations have the order of their places
(`Diagnostic.location_lt_location`). Only a place that is itself the greatest one can have a line or
a column that no word counts, and then the order is lost (`Diagnostic.not_location_lt_location`).
-/

namespace Css

namespace Text

def feeds (text : Text) : Nat := text.count '\n'

def lastLine (text : Text) : Text := text.rtakeWhile (· != '\n')

variable (front between : Text)

theorem feeds_append : feeds (front ++ between) = feeds front + feeds between :=
  List.count_append

theorem feeds_le_length : feeds front ≤ front.length := List.count_le_length

theorem length_lastLine_le : (lastLine front).length ≤ front.length :=
  (List.rtakeWhile_suffix _ _).length_le

/-- What stands behind a text without a line feed goes on its last line. -/
theorem lastLine_append {between : Text} (h : feeds between = 0) :
    lastLine (front ++ between) = lastLine front ++ between := by
  have hall : ∀ c ∈ between.reverse, (c != '\n') = true := by
    intro c hmem
    rw [bne_iff_ne]
    rintro rfl
    exact List.count_eq_zero.1 h (List.mem_reverse.1 hmem)
  rw [lastLine, List.rtakeWhile, List.reverse_append, List.takeWhile_append_of_pos hall,
    List.reverse_append, List.reverse_reverse]
  rfl

theorem lastLine_feed : lastLine (front ++ ['\n']) = [] := by
  rw [lastLine, List.rtakeWhile, List.reverse_concat, List.takeWhile_cons_of_neg (by decide)]
  rfl

end Text

namespace Location

/-- Passing a text on the way to a place behind it. -/
theorem ofPlaceFrom_append (location : Location) (front back : Text) :
    ofPlaceFrom location (front ++ back) front.byteLength = front.foldl after location := by
  induction front generalizing location with
  | nil => cases back <;> rfl
  | cons c front ih =>
    have hsize := c.utf8Size_pos
    rw [List.cons_append, Text.byteLength_cons, ofPlaceFrom, if_neg (by omega),
      Nat.add_sub_cancel_left, ih, List.foldl_cons]

/-- Where a text that starts in the first line and column ends. -/
theorem foldl_after (text : Text) :
    text.foldl after ⟨1, 1⟩ = ⟨.ofNat (text.feeds + 1), .ofNat (text.lastLine.length + 1)⟩ := by
  -- from the right, since the last line feed decides on the column
  induction text using List.reverseRecOn with
  | nil => rfl
  | append_singleton text c ih =>
    rw [List.foldl_concat, ih, after, Text.feeds_append]
    by_cases hfeed : c = '\n'
    · subst hfeed
      rw [if_pos rfl, Text.lastLine_feed, Location.mk.injEq]
      exact ⟨(UInt32.ofNat_add _ 1).symm, rfl⟩
    · have hnone : Text.feeds [c] = 0 := List.count_eq_zero.2 fun hmem =>
        hfeed (List.mem_singleton.1 hmem).symm
      rw [if_neg hfeed, Text.lastLine_append text hnone, hnone, List.length_append,
        Location.mk.injEq]
      exact ⟨rfl, (UInt32.ofNat_add _ 1).symm⟩

theorem ofPlace_append {front back : Text} {place : Pos} (h : place.toNat = front.byteLength) :
    ofPlace (front ++ back) place =
      ⟨.ofNat (front.feeds + 1), .ofNat (front.lastLine.length + 1)⟩ := by
  rw [ofPlace, h, ofPlaceFrom_append, foldl_after]

/-- Each character of a single line is a column. -/
theorem ofPlace_replicate {n : Nat} {place : Pos} (h : place.toNat ≤ n) :
    ofPlace (List.replicate n 'x') place = ⟨1, place + 1⟩ := by
  have hsplit : List.replicate n 'x' =
      List.replicate place.toNat 'x' ++ List.replicate (n - place.toNat) 'x' := by
    rw [← List.replicate_add, Nat.add_sub_cancel' h]
  have hfeeds : Text.feeds (List.replicate place.toNat 'x') = 0 :=
    List.count_eq_zero.2 fun hmem => absurd (List.eq_of_mem_replicate hmem) (by decide)
  have hline := Text.lastLine_append [] hfeeds
  rw [List.nil_append] at hline
  have hplace : place.toNat = Text.byteLength (List.replicate place.toNat 'x') := by
    rw [Text.byteLength_replicate]
    exact (Nat.mul_one _).symm
  rw [hsplit, ofPlace_append hplace, hfeeds, hline, Text.lastLine, List.rtakeWhile_nil,
    List.nil_append, List.length_replicate, Location.mk.injEq]
  exact ⟨rfl, by rw [UInt32.ofNat_add, UInt32.ofNat_toNat]; rfl⟩

/-- Whether a location is the one behind a text, in the line and in the column that words count. -/
structure IsBehind (front : Text) (location : Location) : Prop where
  line : front.feeds < maxInputLength → location.line.toNat = front.feeds + 1
  column : front.lastLine.length < maxInputLength →
    location.column.toNat = front.lastLine.length + 1

theorem isBehind_ofPlace {front back : Text} {place : Pos} (h : place.toNat = front.byteLength) :
    (ofPlace (front ++ back) place).IsBehind front := by
  rw [ofPlace_append h]
  exact ⟨fun hlt => Pos.toNat_ofPlace hlt, fun hlt => Pos.toNat_ofPlace hlt⟩

/-! ### The order of locations -/

/-- Locations in reading order: by line, and in one line by column. -/
instance : Preorder Location :=
  Preorder.lift fun location => toLex (location.line.toNat, location.column.toNat)

theorem lt_iff {left right : Location} :
    left < right ↔
      left.line.toNat < right.line.toNat ∨
        left.line.toNat = right.line.toNat ∧ left.column.toNat < right.column.toNat :=
  Prod.Lex.toLex_lt_toLex

/-- What stands between two places moves the location on, to a later line or column. -/
theorem IsBehind.lt {front between : Text} {left right : Location} (hne : between ≠ [])
    (hleft : left.IsBehind front) (hright : right.IsBehind (front ++ between))
    (hlines : Text.feeds (front ++ between) < maxInputLength)
    (hcolumns : (Text.lastLine (front ++ between)).length < maxInputLength) : left < right := by
  have hline := hright.line hlines
  have hcolumn := hright.column hcolumns
  rw [Text.feeds_append] at hline hlines
  rw [lt_iff, hline, hleft.line (by omega)]
  by_cases hfeeds : between.feeds = 0
  · have hlength := List.length_pos_of_ne_nil hne
    rw [Text.lastLine_append front hfeeds, List.length_append] at hcolumn hcolumns
    refine .inr ⟨by omega, ?_⟩
    rw [hcolumn, hleft.column (by omega)]
    omega
  · exact .inl (by omega)

end Location

/-- The text before a place goes on to any later place. -/
theorem Text.exists_between {source before before' : Text} {place place' : Nat}
    (h : source.takeBytes? place = some before) (h' : source.takeBytes? place' = some before')
    (hlt : place < place') :
    ∃ between back, between ≠ [] ∧ before' = before ++ between ∧
      source = before ++ (between ++ back) := by
  obtain ⟨back, hsource, hplace⟩ := Text.takeBytes?_eq_some_iff.1 h
  obtain ⟨back', hsource', hplace'⟩ := Text.takeBytes?_eq_some_iff.1 h'
  have hprefix : before <+: source := ⟨back, hsource.symm⟩
  have hprefix' : before' <+: source := ⟨back', hsource'.symm⟩
  obtain ⟨between, rfl⟩ | ⟨between, rfl⟩ := List.prefix_or_prefix_of_prefix hprefix hprefix'
  · refine ⟨between, back', ?_, rfl, by rw [hsource', List.append_assoc]⟩
    rintro rfl
    rw [List.append_nil] at hplace'
    omega
  · rw [Text.byteLength_append] at hplace
    omega

namespace Diagnostic

theorem isBehind_location {source before : Text} {diagnostic : Diagnostic}
    (h : source.takeBytes? diagnostic.span.start = some before) :
    (diagnostic.location source).IsBehind before := by
  obtain ⟨back, rfl, hstart⟩ := Text.takeBytes?_eq_some_iff.1 h
  exact Location.isBehind_ofPlace hstart

/-- The location of a diagnostic comes before that of one that starts behind it, if words count the
lines and the columns up to the latter: its line is one more than the line feeds in front of its
start, its column one more than the characters there behind the last of them. -/
theorem location_lt_location {source before before' : Text} {left right : Diagnostic}
    (hleft : source.takeBytes? left.span.start = some before)
    (hright : source.takeBytes? right.span.start = some before')
    (hlt : left.span.start < right.span.start)
    (hlines : before'.feeds < maxInputLength)
    (hcolumns : before'.lastLine.length < maxInputLength) :
    left.location source < right.location source ∧
      (left.location source).line.toNat = before.feeds + 1 ∧
      (left.location source).column.toNat = before.lastLine.length + 1 ∧
      (right.location source).line.toNat = before'.feeds + 1 ∧
      (right.location source).column.toNat = before'.lastLine.length + 1 := by
  have hbefore := isBehind_location hleft
  have hbefore' := isBehind_location hright
  -- in front of a greater place nothing is too long to be counted
  have hlength : before.length < maxInputLength := by
    obtain ⟨-, -, hstart⟩ := Text.takeBytes?_eq_some_iff.1 hleft
    have hle := before.length_le_byteLength
    have hfits := Pos.toNat_le right.span.start
    rw [UInt32.lt_iff_toNat_lt] at hlt
    omega
  obtain ⟨between, back, hne, rfl, -⟩ := Text.exists_between hleft hright hlt
  exact ⟨hbefore.lt hne hbefore' hlines hcolumns,
    hbefore.line (Nat.lt_of_le_of_lt before.feeds_le_length hlength),
    hbefore.column (Nat.lt_of_le_of_lt before.length_lastLine_le hlength),
    hbefore'.line hlines, hbefore'.column hcolumns⟩

/-- The end of a line, behind a character of two bytes, and the second column of the next. -/
theorem location_lt_location_feed :
    (⟨⟨2, 3⟩, .invalidSelector ""⟩ : Diagnostic).location "é\nab".toList = ⟨1, 2⟩ ∧
    (⟨⟨4, 5⟩, .invalidSelector ""⟩ : Diagnostic).location "é\nab".toList = ⟨2, 2⟩ ∧
    (⟨⟨2, 3⟩, .invalidSelector ""⟩ : Diagnostic).location "é\nab".toList <
      (⟨⟨4, 5⟩, .invalidSelector ""⟩ : Diagnostic).location "é\nab".toList :=
  ⟨by decide +kernel, by decide +kernel,
    (@location_lt_location "é\nab".toList "é".toList "é\na".toList
      ⟨⟨2, 3⟩, .invalidSelector ""⟩ ⟨⟨4, 5⟩, .invalidSelector ""⟩
      (by decide +kernel) (by decide +kernel) (by decide) (by decide +kernel)
      (by decide +kernel)).1⟩

/-- In one line of the greatest length, the end has no column, and comes before what it is
behind. -/
theorem not_location_lt_location :
    Text.byteLength (List.replicate 4294967295 'x') = maxInputLength ∧
    (⟨⟨4294967294, 4294967295⟩, .invalidSelector ""⟩ : Diagnostic).location
      (List.replicate 4294967295 'x') = ⟨1, 4294967295⟩ ∧
    (⟨⟨4294967295, 4294967295⟩, .invalidSelector ""⟩ : Diagnostic).location
      (List.replicate 4294967295 'x') = ⟨1, 0⟩ ∧
    ¬(⟨⟨4294967294, 4294967295⟩, .invalidSelector ""⟩ : Diagnostic).location
        (List.replicate 4294967295 'x') <
      (⟨⟨4294967295, 4294967295⟩, .invalidSelector ""⟩ : Diagnostic).location
        (List.replicate 4294967295 'x') := by
  have hlast : (⟨⟨4294967294, 4294967295⟩, .invalidSelector ""⟩ : Diagnostic).location
      (List.replicate 4294967295 'x') = ⟨1, 4294967295⟩ :=
    Location.ofPlace_replicate (by decide)
  have hend : (⟨⟨4294967295, 4294967295⟩, .invalidSelector ""⟩ : Diagnostic).location
      (List.replicate 4294967295 'x') = ⟨1, 0⟩ :=
    Location.ofPlace_replicate (by decide)
  refine ⟨Text.byteLength_replicate 4294967295 'x', hlast, hend, ?_⟩
  rw [hlast, hend, Location.lt_iff]
  decide

end Diagnostic

end Css
