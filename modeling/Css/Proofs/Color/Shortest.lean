import Css.Proofs.Token.Plain
import Css.Value.Parser
import Css.Value.Printer
import Mathlib.Data.List.Forall2
import Mathlib.Data.List.Nodup

/-!
# The shortest form of a colour

The shortest form of a colour is one of its names, or `#` and hexadecimal digits
(`Rgba.toText_shortest`). Its digits are read as the colour again (`Rgba.ofHex?_digits`), and so are
its names (`Value.ofName_of_mem_names`), each of which is a word that no other name is taken for.
-/

namespace Css

/-! ### Hexadecimal digits -/

theorem hexDigitValue?_digitChar {n : Nat} (h : n < 16) :
    hexDigitValue? (Nat.digitChar n) = some n := by
  have hall : ∀ n : Fin 16, hexDigitValue? (Nat.digitChar n) = some n.val := by decide
  exact hall ⟨n, h⟩

theorem mapM_hexDigitValue? {digits : List Nat} (h : ∀ n ∈ digits, n < 16) :
    (digits.map Nat.digitChar).mapM hexDigitValue? = some digits := by
  induction digits with
  | nil => rfl
  | cons n digits ih =>
    obtain ⟨hn, hdigits⟩ := List.forall_mem_cons.1 h
    rw [List.map_cons, List.mapM_cons, hexDigitValue?_digitChar hn, ih hdigits]
    rfl

theorem hexDigitValue?_isSome (c : Char) : (hexDigitValue? c).isSome = isHexDigit c := by
  unfold hexDigitValue? isHexDigit
  split
  · simp [*]
  split
  · simp_all
  split
  · simp_all
  · simp_all

/-- Digits that are read have their values one by one. -/
theorem forall₂_of_mapM_hexDigitValue? {digits : Text} {values : List Nat}
    (h : digits.mapM hexDigitValue? = some values) :
    List.Forall₂ (fun c n => hexDigitValue? c = some n) digits values := by
  induction digits generalizing values with
  | nil =>
    obtain rfl := Option.some.inj h
    exact .nil
  | cons c digits ih =>
    rw [List.mapM_cons] at h
    obtain ⟨n, hn, hmore⟩ := Option.bind_eq_some_iff.1 h
    obtain ⟨more, hdigits, hcons⟩ := Option.bind_eq_some_iff.1 hmore
    obtain rfl := Option.some.inj hcons
    exact .cons hn (ih hdigits)

theorem mapM_hexDigitValue?_eq_some {digits : Text} {values : List Nat}
    (h : digits.mapM hexDigitValue? = some values) :
    values.length = digits.length ∧ ∀ c ∈ digits, isHexDigit c = true := by
  have hforall := forall₂_of_mapM_hexDigitValue? h
  refine ⟨hforall.length_eq.symm, ?_⟩
  clear h
  induction hforall with
  | nil => exact List.forall_mem_nil _
  | cons hn _ ih =>
    exact List.forall_mem_cons.2 ⟨hexDigitValue?_isSome _ ▸ Option.isSome_of_mem hn, ih⟩

namespace Rgba

def digits (rgba : Rgba) : Text := rgba.shortestHex.tail

theorem shortestHex_eq (rgba : Rgba) : rgba.shortestHex = '#' :: rgba.digits := by
  unfold digits shortestHex
  split <;> rfl

def halves (v : UInt8) : List Nat := [v.toNat / 16, v.toNat % 16]

theorem ofNat_halves (v : UInt8) : UInt8.ofNat (16 * (v.toNat / 16) + v.toNat % 16) = v := by
  rw [Nat.div_add_mod, UInt8.ofNat_toNat]

theorem lt_of_mem_halves {v : UInt8} {n : Nat} (h : n ∈ halves v) : n < 16 := by
  have hv := v.toNat_lt
  simp only [halves, List.mem_cons, List.not_mem_nil, or_false] at h
  omega

theorem mapM_fullHex (channels : List UInt8) :
    (channels.flatMap fun v => [Nat.digitChar (v.toNat / 16), Nat.digitChar (v.toNat % 16)]).mapM
      hexDigitValue? = some (channels.flatMap halves) := by
  have hmap : (channels.flatMap fun v =>
      [Nat.digitChar (v.toNat / 16), Nat.digitChar (v.toNat % 16)]) =
        (channels.flatMap halves).map Nat.digitChar := by
    rw [List.map_flatMap]
    rfl
  rw [hmap]
  refine mapM_hexDigitValue? fun n hmem => ?_
  obtain ⟨v, -, hn⟩ := List.mem_flatMap.1 hmem
  exact lt_of_mem_halves hn

theorem mapM_doubled (channels : List UInt8) :
    (channels.map fun v => Nat.digitChar (v.toNat % 16)).mapM hexDigitValue? =
      some (channels.map fun v => v.toNat % 16) := by
  have hmap : (channels.map fun v => Nat.digitChar (v.toNat % 16)) =
      (channels.map fun v => v.toNat % 16).map Nat.digitChar := by
    rw [List.map_map]
    rfl
  rw [hmap]
  refine mapM_hexDigitValue? fun n hmem => ?_
  obtain ⟨v, -, rfl⟩ := List.mem_map.1 hmem
  exact Nat.mod_lt _ (by decide)

/-- A byte with two equal digits is made of one of them. -/
theorem ofNat_doubled {v : UInt8} (h : isDoubled v = true) :
    UInt8.ofNat (16 * (v.toNat % 16) + v.toNat % 16) = v := by
  have hdigit : v.toNat / 16 = v.toNat % 16 := eq_of_beq h
  conv => rhs; rw [← ofNat_halves v, hdigit]

theorem channels_eq (rgba : Rgba) :
    (rgba.alpha = 255 ∧ rgba.channels = [rgba.red, rgba.green, rgba.blue]) ∨
      rgba.channels = [rgba.red, rgba.green, rgba.blue, rgba.alpha] := by
  unfold channels
  split
  · exact .inl ⟨eq_of_beq ‹_›, rfl⟩
  · exact .inr rfl

/-- The digits of the shortest hexadecimal form are read as the colour. -/
theorem ofHex?_digits (rgba : Rgba) : ofHex? rgba.digits = some rgba := by
  have hchannels := rgba.channels_eq
  obtain ⟨red, green, blue, alpha⟩ := rgba
  unfold digits shortestHex
  split
  · rename_i hdoubled
    rw [List.tail_cons, ofHex?]
    simp only [mapM_doubled]
    obtain ⟨rfl, hchannels⟩ | hchannels := hchannels
    · simp only [hchannels, List.all_cons, List.all_nil, Bool.and_true, Bool.and_eq_true]
        at hdoubled
      obtain ⟨hred, hgreen, hblue⟩ := hdoubled
      simp only [hchannels, List.map_cons, List.map_nil, ofNat_doubled hred, ofNat_doubled hgreen,
        ofNat_doubled hblue]
    · simp only [hchannels, List.all_cons, List.all_nil, Bool.and_true, Bool.and_eq_true]
        at hdoubled
      obtain ⟨hred, hgreen, hblue, halpha⟩ := hdoubled
      simp only [hchannels, List.map_cons, List.map_nil, ofNat_doubled hred, ofNat_doubled hgreen,
        ofNat_doubled hblue, ofNat_doubled halpha]
  · rw [fullHex, List.tail_cons, ofHex?]
    simp only [mapM_fullHex]
    obtain ⟨rfl, hchannels⟩ | hchannels := hchannels
    · simp only [hchannels, List.flatMap_cons, List.flatMap_nil, halves, List.cons_append,
        List.nil_append, ofNat_halves]
    · simp only [hchannels, List.flatMap_cons, List.flatMap_nil, halves, List.cons_append,
        List.nil_append, ofNat_halves]

/-- Hexadecimal digits that denote a colour are characters of a name. -/
theorem isNameChar_of_ofHex? {digits : Text} {rgba : Rgba} (h : ofHex? digits = some rgba) :
    digits ≠ [] ∧ ∀ c ∈ digits, isNameChar c = true := by
  cases hvalues : digits.mapM hexDigitValue? with
  | none =>
    rw [ofHex?, hvalues] at h
    contradiction
  | some values =>
    have hdigits := (mapM_hexDigitValue?_eq_some hvalues).2
    refine ⟨?_, fun c hc => isNameChar_of_isHexDigit (hdigits c hc)⟩
    rintro rfl
    contradiction

/-! ### Names -/

theorem exists_of_mem_names {rgba : Rgba} {name : String} (h : name ∈ rgba.names) :
    (rgba = transparent ∧ name = "transparent") ∨
      ∃ entry ∈ Color.table, entry.1 = name ∧ ofRgb24 entry.2 = rgba := by
  unfold names at h
  split at h
  · exact .inl ⟨‹_›, List.mem_singleton.1 h⟩
  · obtain ⟨entry, hentry, rfl⟩ := List.mem_map.1 h
    obtain ⟨hmem, hrgba⟩ := List.mem_filter.1 hentry
    exact .inr ⟨entry, hmem, rfl, of_decide_eq_true hrgba⟩

/-- The shortest name of a colour is one of its names. -/
theorem name?_mem_names {rgba : Rgba} {name : String} (h : rgba.name? = some name) :
    name ∈ rgba.names := by
  have hfold : ∀ (names : List String) (best : String),
      names.foldl (fun best name => if name.length < best.length then name else best) best ∈
        best :: names := by
    intro names
    induction names with
    | nil => exact fun best => List.mem_cons_self
    | cons name names ih =>
      intro best
      rw [List.foldl_cons]
      obtain heq | hmem := List.mem_cons.1 (ih (if name.length < best.length then name else best))
      · rw [heq]
        split
        · exact List.mem_cons_of_mem _ List.mem_cons_self
        · exact List.mem_cons_self
      · exact List.mem_cons_of_mem _ (List.mem_cons_of_mem _ hmem)
  unfold name? at h
  split at h
  · contradiction
  · rename_i first more hnames
    obtain rfl := Option.some.inj h
    rw [hnames]
    exact hfold more first

/-! ### The shortest form -/

def shortest (rgba : Rgba) : Color :=
  match rgba.name? with
  | some name =>
    if name.length ≤ rgba.shortestHex.length then .named name.toList rgba
    else .hex rgba.digits rgba
  | none => .hex rgba.digits rgba

/-- The shortest form is the shortest name or the shortest hexadecimal form. -/
theorem shortest_cases (rgba : Rgba) :
    (∃ name ∈ rgba.names, rgba.shortest = .named name.toList rgba ∧
      rgba.shortestForm = name.toList) ∨
    (rgba.shortest = .hex rgba.digits rgba ∧ rgba.shortestForm = '#' :: rgba.digits) := by
  unfold shortest shortestForm
  cases hname : rgba.name? with
  | none => exact .inr ⟨rfl, rgba.shortestHex_eq⟩
  | some name =>
    simp only
    split
    · exact .inl ⟨name, name?_mem_names hname, rfl, rfl⟩
    · exact .inr ⟨rfl, rgba.shortestHex_eq⟩

theorem rgba_shortest (rgba : Rgba) : rgba.shortest.rgba = rgba := by
  obtain ⟨name, -, heq, -⟩ | ⟨heq, -⟩ := rgba.shortest_cases <;> rw [heq] <;> rfl

theorem toText_shortest (rgba : Rgba) : rgba.shortest.toText .minified = rgba.shortestForm := by
  obtain ⟨name, -, heq, htext⟩ | ⟨heq, -⟩ := rgba.shortest_cases
  · rw [heq, htext]
    rfl
  · rw [heq]
    rfl

end Rgba

/-! ### Names that are read -/

/-- The names of colours stand in alphabetical order. -/
theorem Color.isChain_table : (table.map fun entry => entry.1.toList).IsChain (· < ·) := by
  decide +kernel

/-- No name of a colour stands twice. -/
theorem Color.nodup_table : (table.map fun entry => entry.1.toList).Nodup := by
  refine (List.isChain_iff_pairwise.1 isChain_table).imp ?_
  rintro name _ hlt rfl
  exact List.lt_irrefl name hlt

/-- Each name is a word in lower case, and neither `transparent` nor a keyword that every property
takes. -/
theorem Color.word_entry : ∀ entry ∈ table,
    Text.isIdentifier entry.1.toList = true ∧ Text.lower entry.1.toList = entry.1.toList ∧
      Text.isKeyword entry.1.toList "transparent" = false ∧
      (Keyword.ofName? entry.1.toList : Option WideKeyword) = none := by
  decide +kernel

theorem Rgba.ofName?_entry {entry : String × Nat} (hentry : entry ∈ Color.table) :
    ofName? entry.1.toList = some (ofRgb24 entry.2) := by
  obtain ⟨-, hlower, htransparent, -⟩ := Color.word_entry entry hentry
  have hkeyword : ∀ keyword : String,
      Text.isKeyword entry.1.toList keyword = true ↔ entry.1.toList = keyword.toList := by
    intro keyword
    rw [Text.isKeyword, hlower, beq_iff_eq]
  have hfind : Color.table.find? (fun found => Text.isKeyword entry.1.toList found.1) =
      some entry := by
    cases hfound : Color.table.find? fun found => Text.isKeyword entry.1.toList found.1 with
    | none => exact absurd ((hkeyword _).2 rfl) (List.find?_eq_none.1 hfound entry hentry)
    | some found =>
      have hname : Text.isKeyword entry.1.toList found.1 = true :=
        @List.find?_some (String × Nat) _ _ _ hfound
      rw [List.inj_on_of_nodup_map Color.nodup_table (List.mem_of_find?_eq_some hfound) hentry
        ((hkeyword found.1).1 hname).symm]
  rw [ofName?, htransparent, if_neg Bool.false_ne_true, hfind]
  rfl

/-- A name of a colour is a word that is read as the colour. -/
theorem Value.ofName_of_mem_names {rgba : Rgba} {name : String} (h : name ∈ rgba.names) :
    Text.isIdentifier name.toList = true ∧
      ofName name.toList = color (.named name.toList rgba) := by
  obtain ⟨rfl, rfl⟩ | ⟨entry, hmem, rfl, rfl⟩ := Rgba.exists_of_mem_names h
  · exact ⟨by decide +kernel, rfl⟩
  · obtain ⟨hword, -, -, hkeyword⟩ := Color.word_entry entry hmem
    refine ⟨hword, ?_⟩
    unfold ofName
    rw [hkeyword, Rgba.ofName?_entry hmem]

end Css
