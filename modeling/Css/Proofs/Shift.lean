import Css.Proofs.Token.Recast
import Css.Proofs.Token.Tiles
import Mathlib.Data.List.Forall2

/-!
# Shifted places

A text that stands behind another one is read as on its own, with all places shifted by the bytes
in front. Diagnostics of the two parts are sorted apart, since every place of the first part comes
before those of the second.
-/

namespace Css

theorem forall_mem_of_forall₂ {α β : Type _} {related : α → β → Prop} {holds : α → Prop}
    {xs : List α} {ys : List β} (h : List.Forall₂ related xs ys)
    (hholds : ∀ x y, related x y → holds x) : ∀ x ∈ xs, holds x :=
  ((List.forall₂_and_left xs ys).1 (h.imp fun x y hrelated => ⟨hholds x y hrelated, hrelated⟩)).1

namespace Span

def shift (bytes : Nat) (span : Span) : Span := ⟨span.start.shift bytes, span.stop.shift bytes⟩

theorem shift_join (bytes : Nat) (left right : Span) :
    (left.join right).shift bytes = (left.shift bytes).join (right.shift bytes) := by
  simp only [shift, join, Pos.shift_min, Pos.shift_max]

theorem shift_point (bytes : Nat) (place : Pos) :
    (point place).shift bytes = point (place.shift bytes) := rfl

/-- Whether a span is another one that stands some bytes further on. -/
def IsShifted (bytes : Nat) (span shifted : Span) : Prop :=
  shifted.start.toNat = span.start.toNat + bytes ∧ shifted.stop.toNat = span.stop.toNat + bytes

/-- What stands further on does so at a place that a word keeps. -/
theorem IsShifted.stop_le {bytes : Nat} {span shifted : Span} (h : span.IsShifted bytes shifted) :
    span.stop.toNat + bytes ≤ maxInputLength := by
  rw [← h.2]
  exact Pos.toNat_le shifted.stop

theorem isShifted_shift {bytes : Nat} {span : Span} (hstart : span.start ≤ span.stop)
    (hstop : span.stop.toNat + bytes ≤ maxInputLength) :
    span.IsShifted bytes (span.shift bytes) := by
  rw [UInt32.le_iff_toNat_le] at hstart
  simp only [IsShifted, shift, Pos.toNat_shift]
  omega

end Span

namespace Diagnostic

def shift (bytes : Nat) (diagnostic : Diagnostic) : Diagnostic :=
  ⟨diagnostic.span.shift bytes, diagnostic.problem⟩

/-- Whether a diagnostic is another one that stands some bytes further on. -/
structure IsShifted (bytes : Nat) (diagnostic shifted : Diagnostic) : Prop where
  problem : shifted.problem = diagnostic.problem
  span : diagnostic.span.IsShifted bytes shifted.span

/-! ### Sorting -/

theorem sort_shift {bytes : Nat} {diagnostics : List Diagnostic}
    (h : ∀ diagnostic ∈ diagnostics, diagnostic.span.start.toNat + bytes ≤ maxInputLength) :
    sort (diagnostics.map (shift bytes)) =
      (sort diagnostics).map (shift bytes) := by
  unfold sort
  rw [List.map_mergeSort]
  intro left hleft right hright
  have := h left hleft
  have := h right hright
  simp only [shift, Span.shift, UInt32.le_iff_toNat_le, Pos.toNat_shift, decide_eq_decide]
  omega

theorem mem_sort {diagnostic : Diagnostic} {diagnostics : List Diagnostic} :
    diagnostic ∈ sort diagnostics ↔ diagnostic ∈ diagnostics :=
  List.mem_mergeSort

theorem start_le_trans (first second third : Diagnostic)
    (h : decide (first.span.start ≤ second.span.start) = true)
    (h' : decide (second.span.start ≤ third.span.start) = true) :
    decide (first.span.start ≤ third.span.start) = true := by
  simp only [decide_eq_true_eq] at *
  exact UInt32.le_trans h h'

theorem start_le_total (first second : Diagnostic) :
    (decide (first.span.start ≤ second.span.start) ||
      decide (second.span.start ≤ first.span.start)) = true := by
  simp only [Bool.or_eq_true, decide_eq_true_eq]
  exact UInt32.le_total ..

theorem pairwise_sort (diagnostics : List Diagnostic) :
    (sort diagnostics).Pairwise fun left right => left.span.start ≤ right.span.start := by
  have hsorted := List.pairwise_mergeSort start_le_trans start_le_total diagnostics
  exact hsorted.imp fun hle => of_decide_eq_true hle

theorem sort_sort (diagnostics : List Diagnostic) : sort (sort diagnostics) = sort diagnostics :=
  List.mergeSort_of_pairwise (List.pairwise_mergeSort start_le_trans start_le_total diagnostics)

/-- Diagnostics that are in order among each other stay so when they are sorted with others. -/
theorem filter_sort {keeps : Diagnostic → Bool} {diagnostics : List Diagnostic}
    (h : (diagnostics.filter keeps).Pairwise fun left right =>
      left.span.start ≤ right.span.start) :
    (sort diagnostics).filter keeps = diagnostics.filter keeps := by
  have hordered : (diagnostics.filter keeps).Pairwise fun left right =>
      decide (left.span.start ≤ right.span.start) = true := h.imp fun hle => decide_eq_true hle
  have hsublist : (diagnostics.filter keeps).Sublist (sort diagnostics) :=
    List.sublist_mergeSort start_le_trans start_le_total hordered List.filter_sublist
  have hkept : (diagnostics.filter keeps).filter keeps = diagnostics.filter keeps :=
    List.filter_eq_self.2 fun _ hmem => (List.mem_filter.1 hmem).2
  have hfilter := hsublist.filter keeps
  rw [hkept] at hfilter
  have hperm : (sort diagnostics).Perm diagnostics := List.mergeSort_perm ..
  exact (hfilter.eq_of_length (hperm.filter keeps).length_eq.symm).symm

/-- Where a diagnostic goes among sorted ones: behind those that start before it. -/
theorem sort_cons (first : Diagnostic) (diagnostics : List Diagnostic) :
    sort (first :: diagnostics) =
      (sort diagnostics).takeWhile (fun other => other.span.start < first.span.start) ++
        first :: (sort diagnostics).dropWhile fun other =>
          other.span.start < first.span.start := by
  obtain ⟨before, after, hcons, hsort, hbefore⟩ :=
    List.mergeSort_cons start_le_trans start_le_total first diagnostics
  have hpairwise := pairwise_sort (first :: diagnostics)
  have hsort' : sort diagnostics = before ++ after := hsort
  have hcons' : sort (first :: diagnostics) = before ++ first :: after := hcons
  rw [hcons'] at hpairwise
  have hearlier : ∀ other ∈ before, decide (other.span.start < first.span.start) = true := by
    intro other hother
    have := hbefore other hother
    simp only [Bool.not_eq_true', decide_eq_false_iff_not] at this
    simpa using this
  have hlater : ∀ other ∈ after, ¬other.span.start < first.span.start := by
    intro other hother
    exact UInt32.not_lt.2 (List.rel_of_pairwise_cons (List.pairwise_append.1 hpairwise).2.1 hother)
  rw [hcons', hsort', List.takeWhile_append_of_pos hearlier, List.dropWhile_append_of_pos hearlier]
  cases after with
  | nil => simp
  | cons other after =>
    have hother : ¬other.span.start < first.span.start := hlater other (List.mem_cons_self ..)
    simp [hother]

theorem takeWhile_append_of_neg {p : Diagnostic → Bool} {left right : List Diagnostic}
    (h : ∀ r ∈ right, p r = false) : (left ++ right).takeWhile p = left.takeWhile p := by
  induction left with
  | nil =>
    cases right with
    | nil => rfl
    | cons r right => simp [h r (List.mem_cons_self ..)]
  | cons l left ih => simp only [List.cons_append, List.takeWhile_cons, ih]

theorem dropWhile_append_of_neg {p : Diagnostic → Bool} {left right : List Diagnostic}
    (h : ∀ r ∈ right, p r = false) : (left ++ right).dropWhile p = left.dropWhile p ++ right := by
  induction left with
  | nil =>
    cases right with
    | nil => rfl
    | cons r right => simp [h r (List.mem_cons_self ..)]
  | cons l left ih =>
    simp only [List.cons_append, List.dropWhile_cons, ih]
    split <;> rfl

/-- Diagnostics that all start before others are sorted in front of them. -/
theorem sort_append {left right : List Diagnostic}
    (h : ∀ l ∈ left, ∀ r ∈ right, l.span.start ≤ r.span.start) :
    sort (left ++ right) = sort left ++ sort right := by
  induction left with
  | nil => simp [sort]
  | cons first left ih =>
    have hrest := ih fun l hl => h l (List.mem_cons_of_mem _ hl)
    have hright : ∀ r ∈ sort right, decide (r.span.start < first.span.start) = false := by
      intro r hr
      have := h first (List.mem_cons_self ..) r (mem_sort.1 hr)
      exact decide_eq_false (UInt32.not_lt.2 this)
    rw [List.cons_append, sort_cons, hrest, sort_cons, takeWhile_append_of_neg hright,
      dropWhile_append_of_neg hright, List.append_assoc, List.cons_append]

end Diagnostic

namespace Lexeme

def shift (bytes : Nat) (lexeme : Lexeme) : Lexeme :=
  { lexeme with span := lexeme.span.shift bytes }

/-- Whether a lexeme is another one that stands some bytes further on. -/
structure IsShifted (bytes : Nat) (lexeme shifted : Lexeme) : Prop where
  token : shifted.token = lexeme.token
  raw : shifted.raw = lexeme.raw
  span : lexeme.span.IsShifted bytes shifted.span

theorem moves_shift (bytes : Nat) : Moves (shift bytes) := ⟨fun _ => rfl, fun _ => rfl⟩

end Lexeme

namespace Reading

def shift (bytes : Nat) (reading : Reading) : Reading :=
  { reading with lexeme := reading.lexeme.shift bytes }

theorem diagnostic?_shift (bytes : Nat) (reading : Reading) :
    (reading.shift bytes).diagnostic? = reading.diagnostic?.map (Diagnostic.shift bytes) := by
  rw [diagnostic?, diagnostic?, Option.map_map]
  rfl

theorem first_add {offset bytes : Nat} (lineComments : Bool) {c : Char} {cs : Text}
    (hfits : offset + bytes + Text.byteLength (c :: cs) ≤ maxInputLength) :
    first lineComments (offset + bytes) c cs =
      (first lineComments offset c cs).shift bytes := by
  have hbytes := byteLength_first lineComments offset c cs
  simp only [first] at hbytes
  simp only [first, shift, Lexeme.shift, Span.shift]
  rw [Pos.ofPlace_shift (by omega), Pos.ofPlace_shift (by omega), Nat.add_right_comm]

/-- A text further back is read alike, with shifted places. -/
theorem all_add {offset bytes : Nat} (lineComments : Bool) {text : Text}
    (hfits : offset + bytes + text.byteLength ≤ maxInputLength) :
    all lineComments (offset + bytes) text =
      (all lineComments offset text).map (shift bytes) := by
  fun_induction all lineComments offset text with
  | case1 => rw [all, List.map_nil]
  | case2 offset c cs reading ih =>
    have hbytes : Text.byteLength reading.lexeme.raw + _ = _ :=
      byteLength_first lineComments offset c cs
    rw [all, first_add lineComments hfits, List.map_cons]
    refine congrArg _ ?_
    rw [← ih (by omega), Nat.add_right_comm]
    rfl

end Reading

end Css
