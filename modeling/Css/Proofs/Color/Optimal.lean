import Css.Proofs.Value.Grammar

/-!
# No text for a colour is shorter

A text denotes a colour if it is a name of it, or `#` with digits that are read as it, in any letter
case. The shortest form is such a text, none is shorter, and it is a name where one is as short
(`Rgba.isShortest_shortestForm`).
-/

namespace Css

/-! ### Letters -/

theorem utf8Size_of_isAlpha {c : Char} (h : c.isAlpha = true) : c.utf8Size = 1 := by
  have hle : c.toNat ≤ 127 := by
    obtain ⟨-, hle⟩ | ⟨-, hle⟩ := isAlpha_iff.1 h <;> omega
  exact Char.utf8Size_eq_one_iff.2 hle

namespace Text

theorem byteLength_eq_length {text : Text} (h : ∀ c ∈ text, c.utf8Size = 1) :
    text.byteLength = text.length := by
  induction text with
  | nil => rfl
  | cons c cs ih =>
    obtain ⟨hc, hcs⟩ := List.forall_mem_cons.1 h
    rw [byteLength_cons, hc, ih hcs, List.length_cons, Nat.add_comm]

end Text

/-! ### Hexadecimal digits -/

theorem lt_of_hexDigitValue? {c : Char} {n : Nat} (h : hexDigitValue? c = some n) : n < 16 := by
  unfold hexDigitValue? at h
  split at h
  · rename_i hdigit
    have hrange := isDigit_iff.1 hdigit
    have hn : c.toNat - 48 = n := Option.some.inj h
    omega
  split at h
  · rename_i hlower
    have hn : c.toNat - 97 + 10 = n := Option.some.inj h
    have hle : c.toNat ≤ 102 := of_decide_eq_true (Bool.and_eq_true_iff.1 hlower).2
    omega
  split at h
  · rename_i hupper
    have hn : c.toNat - 65 + 10 = n := Option.some.inj h
    have hle : c.toNat ≤ 70 := of_decide_eq_true (Bool.and_eq_true_iff.1 hupper).2
    omega
  · contradiction

theorem lt_of_mapM_hexDigitValue? {digits : Text} {values : List Nat}
    (h : digits.mapM hexDigitValue? = some values) : ∀ n ∈ values, n < 16 := by
  have hforall := forall₂_of_mapM_hexDigitValue? h
  clear h
  induction hforall with
  | nil => exact List.forall_mem_nil _
  | cons hn _ ih => exact List.forall_mem_cons.2 ⟨lt_of_hexDigitValue? hn, ih⟩

theorem utf8Size_of_isHexDigit {c : Char} (h : isHexDigit c = true) : c.utf8Size = 1 := by
  have hle : c.toNat ≤ 127 := by
    simp only [isHexDigit, Bool.or_eq_true, Bool.and_eq_true, isDigit_iff, decide_eq_true_eq] at h
    obtain (⟨-, hle⟩ | ⟨-, hle⟩) | ⟨-, hle⟩ := h
    · omega
    · exact Nat.le_trans hle (by decide)
    · exact Nat.le_trans hle (by decide)
  exact Char.utf8Size_eq_one_iff.2 hle

namespace Rgba

variable {rgba : Rgba}

theorem isDoubled_pair {n : Nat} (h : n < 16) : isDoubled (UInt8.ofNat (16 * n + n)) = true := by
  have hall : ∀ n : Fin 16, isDoubled (UInt8.ofNat (16 * n + n)) = true := by decide
  exact hall ⟨n, h⟩

theorem length_channels (rgba : Rgba) :
    rgba.channels.length = if rgba.isOpaque then 3 else 4 := by
  unfold channels
  split <;> rfl

theorem length_digits (rgba : Rgba) :
    rgba.digits.length =
      if rgba.channels.all isDoubled then rgba.channels.length else 2 * rgba.channels.length := by
  unfold digits shortestHex
  split
  · rw [List.tail_cons, List.length_map]
  · rw [fullHex, List.tail_cons, List.length_flatMap]
    simp [Nat.mul_comm]

/-- The short forms denote a colour of doubled digits, and those without alpha an opaque one. -/
theorem ofHex?_cases {digits : Text} (h : ofHex? digits = some rgba) :
    (digits.length = 3 ∧ rgba.isOpaque = true ∧ rgba.channels.all isDoubled = true) ∨
      (digits.length = 4 ∧ rgba.channels.all isDoubled = true) ∨
      (digits.length = 6 ∧ rgba.isOpaque = true) ∨ digits.length = 8 := by
  have hchannels : ∀ {red green blue alpha : UInt8}, isDoubled red = true →
      isDoubled green = true → isDoubled blue = true → isDoubled alpha = true →
        (channels ⟨red, green, blue, alpha⟩).all isDoubled = true := by
    intro red green blue alpha hred hgreen hblue halpha
    unfold channels
    split <;> simp only [List.all_cons, List.all_nil, hred, hgreen, hblue, halpha, Bool.and_true]
  cases hvalues : digits.mapM hexDigitValue? with
  | none =>
    rw [ofHex?, hvalues] at h
    contradiction
  | some values =>
    have hlt := lt_of_mapM_hexDigitValue? hvalues
    rw [← (mapM_hexDigitValue?_eq_some hvalues).1]
    rw [ofHex?, hvalues] at h
    split at h
    case h_1 heq =>
      obtain rfl := Option.some.inj heq
      obtain rfl := Option.some.inj h
      simp only [List.forall_mem_cons] at hlt
      obtain ⟨hr, hg, hb, -⟩ := hlt
      exact .inl ⟨rfl, rfl, hchannels (isDoubled_pair hr) (isDoubled_pair hg) (isDoubled_pair hb)
        (by decide)⟩
    case h_2 heq =>
      obtain rfl := Option.some.inj heq
      obtain rfl := Option.some.inj h
      simp only [List.forall_mem_cons] at hlt
      obtain ⟨hr, hg, hb, ha, -⟩ := hlt
      exact .inr (.inl ⟨rfl, hchannels (isDoubled_pair hr) (isDoubled_pair hg)
        (isDoubled_pair hb) (isDoubled_pair ha)⟩)
    case h_3 heq =>
      obtain rfl := Option.some.inj heq
      obtain rfl := Option.some.inj h
      exact .inr (.inr (.inl ⟨rfl, rfl⟩))
    case h_4 heq =>
      obtain rfl := Option.some.inj heq
      exact .inr (.inr (.inr rfl))
    case h_5 => cases h

/-- No digits that are read as a colour are fewer than those of its shortest hexadecimal form. -/
theorem length_digits_le {digits : Text} (h : ofHex? digits = some rgba) :
    rgba.digits.length ≤ digits.length := by
  rw [length_digits, length_channels]
  obtain ⟨hlength, hopaque, hdoubled⟩ | ⟨hlength, hdoubled⟩ | ⟨hlength, hopaque⟩ | hlength :=
    ofHex?_cases h
  · rw [hlength, if_pos hdoubled]
    split
    · exact Nat.le_refl 3
    · contradiction
  · rw [hlength, if_pos hdoubled]
    split <;> omega
  · rw [hlength, if_pos hopaque]
    split <;> omega
  · rw [hlength]
    split <;> split <;> omega

/-! ### Names -/

/-- The names of colours are words of letters. -/
theorem isAlpha_entry : ∀ entry ∈ Color.table,
    entry.1.toList ≠ [] ∧ entry.1.toList.all Char.isLower = true := by
  decide +kernel

/-- A name that denotes a colour is one of its names, in some letter case. -/
theorem exists_of_ofName? {name : Text} (h : ofName? name = some rgba) :
    ∃ found ∈ rgba.names, name.lower = found.toList := by
  unfold ofName? at h
  split at h
  · rename_i hkeyword
    obtain rfl := Option.some.inj h
    exact ⟨"transparent", List.mem_singleton_self _, eq_of_beq hkeyword⟩
  · obtain ⟨entry, hentry, rfl⟩ := Option.map_eq_some_iff.1 h
    have hname : name.isKeyword entry.1 = true := @List.find?_some (String × Nat) _ _ _ hentry
    have hopaque : ofRgb24 entry.2 ≠ transparent := fun heq => by
      have halpha : (255 : UInt8) = 0 := congrArg alpha heq
      contradiction
    refine ⟨entry.1, ?_, eq_of_beq hname⟩
    rw [names, if_neg hopaque]
    exact List.mem_map.2 ⟨entry, List.mem_filter.2
      ⟨List.mem_of_find?_eq_some hentry, decide_eq_true rfl⟩, rfl⟩

/-- A name that denotes a colour is a word of letters. -/
theorem isAlpha_of_ofName? {name : Text} (h : ofName? name = some rgba) :
    name ≠ [] ∧ name.all Char.isAlpha = true := by
  obtain ⟨found, hfound, hlower⟩ := exists_of_ofName? h
  have hletters : found.toList ≠ [] ∧ found.toList.all Char.isLower = true := by
    obtain ⟨-, rfl⟩ | ⟨entry, hentry, rfl, -⟩ := exists_of_mem_names hfound
    · decide +kernel
    · exact isAlpha_entry entry hentry
  exact Text.isAlpha_of_lower hlower hletters

theorem ofName?_of_mem_names {name : String} (h : name ∈ rgba.names) :
    ofName? name.toList = some rgba := by
  obtain ⟨rfl, rfl⟩ | ⟨entry, hentry, rfl, rfl⟩ := exists_of_mem_names h
  · rfl
  · exact ofName?_entry hentry

/-- A colour that has names has a shortest one. -/
theorem exists_name?_of_mem_names {name : String} (h : name ∈ rgba.names) :
    ∃ shortest, rgba.name? = some shortest ∧ shortest.length ≤ name.length := by
  have hshorter : (fun best name : String => if name.length < best.length then name else best) =
      minOn String.length := by
    funext best name
    rw [minOn, ← ite_not]
    exact if_congr Nat.not_lt rfl rfl
  unfold name?
  cases hnames : rgba.names with
  | nil =>
    rw [hnames] at h
    contradiction
  | cons first more =>
    rw [hnames] at h
    refine ⟨_, rfl, ?_⟩
    rw [hshorter]
    exact List.apply_minOn_le_of_mem h

/-! ### The shortest form -/

theorem length_shortestForm_le_digits (rgba : Rgba) :
    rgba.shortestForm.length ≤ rgba.digits.length + 1 := by
  have hhex : rgba.shortestHex.length = rgba.digits.length + 1 := by
    rw [shortestHex_eq, List.length_cons]
  unfold shortestForm
  split
  · split
    · rwa [String.length_toList, ← hhex]
    · exact Nat.le_of_eq hhex
  · exact Nat.le_of_eq hhex

/-- The shortest form is no longer than any name, and it is a name where one is as short. -/
theorem length_shortestForm_le_name {name : String} (hmem : name ∈ rgba.names) :
    rgba.shortestForm.length ≤ name.length ∧
      (name.length ≤ rgba.shortestForm.length → ofName? rgba.shortestForm = some rgba) := by
  obtain ⟨shortest, hshortest, hle⟩ := exists_name?_of_mem_names hmem
  unfold shortestForm
  rw [hshortest]
  dsimp only
  split
  · rw [String.length_toList]
    exact ⟨hle, fun _ => ofName?_of_mem_names (name?_mem_names hshortest)⟩
  · exact ⟨by omega, fun hname => by omega⟩

/-- Whether a text is a name of a colour, or `#` with digits that are read as it. -/
def Denotes (text : Text) (rgba : Rgba) : Prop :=
  ofName? text = some rgba ∨ ∃ digits, text = '#' :: digits ∧ ofHex? digits = some rgba

/-- Whether a text denotes a colour in as few bytes as any text does, and is a name where a name has
as few. -/
structure IsShortest (text : Text) (rgba : Rgba) : Prop where
  denotes : Denotes text rgba
  least : ∀ other, Denotes other rgba → text.byteLength ≤ other.byteLength
  name : ∀ name, ofName? name = some rgba → name.byteLength = text.byteLength →
    ofName? text = some rgba

theorem denotes_shortestForm (rgba : Rgba) : Denotes rgba.shortestForm rgba := by
  obtain ⟨name, hmem, -, hform⟩ | ⟨-, hform⟩ := rgba.shortest_cases
  · exact .inl (hform ▸ ofName?_of_mem_names hmem)
  · exact .inr ⟨rgba.digits, hform, rgba.ofHex?_digits⟩

/-- Each character of a text that denotes a colour is one byte. -/
theorem Denotes.byteLength_eq {text : Text} (h : Denotes text rgba) :
    text.byteLength = text.length := by
  obtain hname | ⟨digits, rfl, hdigits⟩ := h
  · exact Text.byteLength_eq_length fun c hc =>
      utf8Size_of_isAlpha (List.all_eq_true.1 (isAlpha_of_ofName? hname).2 c hc)
  · have hhex := (ofHex?_isSome_iff.1 (Option.isSome_of_mem hdigits)).2
    refine Text.byteLength_eq_length (List.forall_mem_cons.2 ⟨by decide, fun c hc => ?_⟩)
    exact utf8Size_of_isHexDigit (hhex c hc)

theorem length_of_ofName? {name : Text} (h : ofName? name = some rgba) :
    ∃ found ∈ rgba.names, name.length = found.length := by
  obtain ⟨found, hfound, hlower⟩ := exists_of_ofName? h
  refine ⟨found, hfound, ?_⟩
  rw [← String.length_toList, ← hlower, Text.lower, List.length_map]

theorem Denotes.length_le {text : Text} (h : Denotes text rgba) :
    rgba.shortestForm.length ≤ text.length := by
  obtain hname | ⟨digits, rfl, hdigits⟩ := h
  · obtain ⟨found, hfound, hlength⟩ := length_of_ofName? hname
    exact hlength ▸ (length_shortestForm_le_name hfound).1
  · exact Nat.le_trans rgba.length_shortestForm_le_digits
      (Nat.succ_le_succ (length_digits_le hdigits))

/-- The shortest form of a colour denotes it, no text that denotes it is shorter, and the shortest
form is a name where a name is as short. -/
theorem isShortest_shortestForm (rgba : Rgba) : IsShortest rgba.shortestForm rgba where
  denotes := rgba.denotes_shortestForm
  least other hother := by
    rw [rgba.denotes_shortestForm.byteLength_eq, hother.byteLength_eq]
    exact hother.length_le
  name name hname hlength := by
    have hdenotes : Denotes name rgba := .inl hname
    rw [rgba.denotes_shortestForm.byteLength_eq, hdenotes.byteLength_eq] at hlength
    obtain ⟨found, hfound, heq⟩ := length_of_ofName? hname
    exact (length_shortestForm_le_name hfound).2 (Nat.le_of_eq (heq.symm.trans hlength))

/-- Two names and a hexadecimal form of this colour are four characters long. -/
example : shortestForm ⟨0, 255, 255, 255⟩ = "aqua".toList := by decide

end Rgba

end Css
