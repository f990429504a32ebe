import Css.Proofs.Color.Optimal
import Css.Proofs.Value.Parts
import Css.Proofs.Value.Roundtrip
import Mathlib.Data.List.Chain

/-!
# Colours in minified output

Whatever colour is read, as hexadecimal digits, a name or a function, what minified output writes
for it is read as a colour of the same four bytes, and so is what is written once the colour is
computed (`Value.rgba?_of_toText`).
-/

namespace Css

/-! ### Letters -/

/-- Where there are only letters there are no digits of an exponent. -/
theorem exponentLength_of_isAlpha {text : Text} (h : text.all Char.isAlpha = true) :
    exponentLength text = 0 := by
  rw [List.all_eq_true] at h
  cases text with
  | nil => rfl
  | cons c cs =>
    have hdigits : digitsLength (cs.drop (signLength cs)) = 0 := by
      rw [digitsLength_eq_zero]
      cases hdrop : cs.drop (signLength cs) with
      | nil => rfl
      | cons d ds =>
        have hmem : d ∈ cs := List.mem_of_mem_drop (hdrop ▸ List.mem_cons_self)
        have halpha := isAlpha_iff.1 (h d (List.mem_cons_of_mem c hmem))
        rw [← Bool.not_eq_true]
        intro hdigit
        have hrange := isDigit_iff.1 hdigit
        omega
    rw [exponentLength, hdigits]
    simp

namespace Value

open Lexeme ColorFunction

def rgba? : Value → Option Rgba
  | color c => some c.rgba
  | colorFunction _ _ rgba => rgba
  | _ => none

theorem rgba?_computeColors (value : Value) : value.computeColors.rgba? = value.rgba? := by
  cases value with
  | color c => cases c <;> rfl
  | _ => rfl

/-- A value that denotes a colour is read back as one that denotes the same colour. -/
theorem rgba?_reread (value : Value) : (value.reread .minified).rgba? = value.rgba? := by
  show value.unsigned.recolored.rgba? = value.rgba?
  cases value with
  | color c =>
    cases c with
    | hex digits rgba =>
      simp only [unsigned, recolored, rgba?, rgba.rgba_shortest]
      rfl
    | _ => simp only [unsigned, recolored]
  | colorFunction name arguments rgba =>
    rw [unsigned, recolored]
    split
    · rename_i plain hplain
      obtain ⟨rfl, -⟩ := Option.filter_eq_some_iff.1 hplain
      rw [rgba?, plain.rgba_shortest]
      rfl
    · rfl
  | _ => simp only [unsigned, recolored, rgba?]

/-! ### Channels -/

inductive IsLiteral : Value → Prop
  | number (x : Number) : IsLiteral (number x)
  | percentage (x : Number) : IsLiteral (percentage x)
  | angle (x : Number) {unit : Text} (h : (degreesPer? unit).isSome = true) :
    IsLiteral (dimension x unit)

def channelValues (channels : Channels) : List Value :=
  [channels.first, channels.second, channels.third] ++ channels.alpha.toList

def spaceValues (channels : Channels) : List Value :=
  channels.first :: channels.second :: channels.third ::
    channels.alpha.toList.flatMap ([delimiter .slash, ·])

theorem mem_spaceValues {channels : Channels} {value : Value} (h : value ∈ spaceValues channels) :
    value ∈ channelValues channels ∨ value = delimiter .slash := by
  obtain ⟨first, second, third, _ | alpha⟩ := channels
  · exact .inl h
  · simp only [spaceValues, channelValues, Option.toList_some, List.flatMap_singleton,
      List.cons_append, List.nil_append, List.mem_cons] at h ⊢
    tauto

/-- Channels are arguments of their own, or the items of the only argument. -/
theorem channels?_cases {arguments : List Value} {channels : Channels}
    (h : channels? arguments = some channels) :
    arguments = channelValues channels ∨ arguments = [spaceList (spaceValues channels)] := by
  unfold channels? at h
  split at h
  case h_5 => contradiction
  all_goals obtain rfl := Option.some.inj h
  · exact .inl rfl
  · exact .inl rfl
  · exact .inr rfl
  · exact .inr rfl

theorem isLiteral_of_isSome {value : Value} (h : (rgbByte? value).isSome = true ∨
    (alphaByte? value).isSome = true ∨ (fraction? value).isSome = true ∨
      (hue? value).isSome = true) : value.IsLiteral := by
  cases value with
  | number x => exact .number x
  | percentage x => exact .percentage x
  | dimension x unit =>
    obtain h | h | h | h := h
    · contradiction
    · contradiction
    · contradiction
    · rw [hue?, Option.isSome_map] at h
      exact .angle x h
  | _ => obtain h | h | h | h := h <;> contradiction

def ofChannels? (name : Text) (channels : Channels) (alpha : UInt8) : Option Rgba :=
  if name.isOneOf ["rgb", "rgba"] then do
    return ⟨← rgbByte? channels.first, ← rgbByte? channels.second, ← rgbByte? channels.third, alpha⟩
  else if name.isOneOf ["hsl", "hsla"] then do
    let hue ← hue? channels.first
    let saturation ← fraction? channels.second
    let lightness ← fraction? channels.third
    let (red, green, blue) := hslToRgb hue saturation lightness
    return ⟨fractionByte red, fractionByte green, fractionByte blue, alpha⟩
  else none

theorem exists_of_resolve? {name : Text} {arguments : List Value} {rgba : Rgba}
    (h : resolve? name arguments = some rgba) :
    ∃ channels alpha, channels? arguments = some channels ∧
      (∀ value ∈ channels.alpha, (alphaByte? value).isSome = true) ∧
        ofChannels? name channels alpha = some rgba := by
  obtain ⟨channels, hchannels, hrest⟩ := Option.bind_eq_some_iff.1 h
  refine ⟨channels, ?_⟩
  obtain ⟨first, second, third, _ | alpha⟩ := channels
  · exact ⟨255, hchannels, fun _ hmem => by contradiction, hrest⟩
  · obtain ⟨byte, hbyte, hrest⟩ := Option.bind_eq_some_iff.1 hrest
    refine ⟨byte, hchannels, fun value hmem => ?_, hrest⟩
    obtain rfl := Option.some.inj hmem
    exact Option.isSome_of_mem hbyte

/-- All arguments of a function that denotes a colour are literals. -/
theorem isLiteral_of_resolve? {name : Text} {arguments : List Value} {rgba : Rgba}
    (h : resolve? name arguments = some rgba) :
    ∃ channels, channels? arguments = some channels ∧
      ∀ value ∈ channelValues channels, value.IsLiteral := by
  obtain ⟨channels, alpha, hchannels, halpha, hcolor⟩ := exists_of_resolve? h
  refine ⟨channels, hchannels, List.forall_mem_append.2 ⟨?_, fun value hmem => ?_⟩⟩
  · simp only [List.forall_mem_cons]
    unfold ofChannels? at hcolor
    split at hcolor
    · obtain ⟨_, hfirst, hrest⟩ := Option.bind_eq_some_iff.1 hcolor
      obtain ⟨_, hsecond, hrest⟩ := Option.bind_eq_some_iff.1 hrest
      obtain ⟨_, hthird, -⟩ := Option.bind_eq_some_iff.1 hrest
      exact ⟨isLiteral_of_isSome (.inl (Option.isSome_of_mem hfirst)),
        isLiteral_of_isSome (.inl (Option.isSome_of_mem hsecond)),
        isLiteral_of_isSome (.inl (Option.isSome_of_mem hthird)), List.forall_mem_nil _⟩
    split at hcolor
    · obtain ⟨_, hfirst, hrest⟩ := Option.bind_eq_some_iff.1 hcolor
      obtain ⟨_, hsecond, hrest⟩ := Option.bind_eq_some_iff.1 hrest
      obtain ⟨_, hthird, -⟩ := Option.bind_eq_some_iff.1 hrest
      exact ⟨isLiteral_of_isSome (.inr (.inr (.inr (Option.isSome_of_mem hfirst)))),
        isLiteral_of_isSome (.inr (.inr (.inl (Option.isSome_of_mem hsecond)))),
        isLiteral_of_isSome (.inr (.inr (.inl (Option.isSome_of_mem hthird)))),
        List.forall_mem_nil _⟩
    · contradiction
  · exact isLiteral_of_isSome (.inr (.inl (halpha value (Option.mem_toList.1 hmem))))

variable {style : Style} {lineComments : Bool}

/-- The units of angles are words of letters. -/
theorem isAlpha_of_degreesPer? {unit : Text} (h : (degreesPer? unit).isSome = true) :
    unit ≠ [] ∧ unit.all Char.isAlpha = true := by
  have hunit : unit.isOneOf ["deg", "grad", "rad", "turn"] = true := by
    by_contra hnone
    simp only [Text.isOneOf, List.any_cons, List.any_nil, Bool.or_eq_true, not_or] at hnone
    obtain ⟨hdeg, hgrad, hrad, hturn, -⟩ := hnone
    rw [degreesPer?, if_neg hdeg, if_neg hgrad, if_neg hrad, if_neg hturn] at h
    contradiction
  exact Text.isAlpha_of_isOneOf hunit (by decide)

theorem IsLiteral.exists_isWritten {value : Value} (h : value.IsLiteral)
    (hresolved : value.IsResolved) : ∃ lexemes, IsWritten style lineComments value lexemes := by
  cases h with
  | number x => exact ⟨_, isWritten_number hresolved⟩
  | percentage x => exact ⟨_, isWritten_percentage hresolved⟩
  | @angle x unit hunit =>
    obtain ⟨hne, hletters⟩ := isAlpha_of_degreesPer? hunit
    have hidentifier := Text.isIdentifier_of_isAlpha hne hletters
    obtain ⟨hends, hstarts⟩ := @Text.nameEnds_of_isIdentifier _ hidentifier [] rfl
    refine ⟨_, isWritten_dimension hresolved ?_ hstarts hends (exponentLength_of_isAlpha hletters)⟩
    exact fun hmem => absurd (List.all_eq_true.1 hletters _ hmem) (by decide)

theorem IsLiteral.isTight_eq {value : Value} (h : value.IsLiteral) : value.isTight = false := by
  cases h <;> rfl

theorem IsLiteral.ne_slash {value : Value} (h : value.IsLiteral) : value ≠ delimiter .slash := by
  rintro rfl
  cases h

/-- No sign stands behind the slash. -/
theorem isChain_spaceValues {channels : Channels}
    (h : ∀ value ∈ channelValues channels, value.IsLiteral) :
    (spaceValues channels).IsChain fun value next =>
      value = delimiter .slash → next.isTight = false := by
  have hno : ∀ {value : Value}, value ∈ channelValues channels → ∀ {next : Value},
      value = delimiter .slash → next.isTight = false := fun hmem _ hslash =>
    absurd hslash (h _ hmem).ne_slash
  obtain ⟨first, second, third, _ | alpha⟩ := channels
  · exact .cons_cons (hno (by simp [channelValues])) (.cons_cons (hno (by simp [channelValues]))
      (.singleton _))
  · refine .cons_cons (hno (by simp [channelValues])) (.cons_cons (hno (by simp [channelValues]))
      (.cons_cons (hno (by simp [channelValues])) (.cons_cons (fun _ => ?_) (.singleton _))))
    exact (h alpha (by simp [channelValues])).isTight_eq

/-! ### Functions -/

theorem exists_areItems_of_isWritten {items : List Value} (hne : items ≠ [])
    (h : ∀ item ∈ items, ∃ lexemes, IsWritten style lineComments item lexemes)
    (hsigns : items.IsChain fun value next => value = delimiter .slash → next.isTight = false) :
    ∃ lexemes, AreItems style lineComments items lexemes := by
  induction items with
  | nil => contradiction
  | cons value items ih =>
    obtain ⟨⟨lexemes, hvalue⟩, hitems⟩ := List.forall_mem_cons.1 h
    obtain ⟨hnext, hmore⟩ := List.isChain_cons.1 hsigns
    have hnext : style.minify = true → value = delimiter .slash →
        ∀ next ∈ items.head?, next.isTight = false := fun _ hslash next hmem =>
      hnext next hmem hslash
    by_cases hnil : items = []
    · obtain ⟨written, hwritten, -⟩ := hvalue.exists_areItems (.inl ⟨hnil, rfl⟩) hnext
      exact ⟨written, hwritten⟩
    · obtain ⟨more, hmore⟩ := ih hnil hitems hmore
      obtain ⟨written, hwritten, -⟩ := hvalue.exists_areItems (.inr hmore) hnext
      exact ⟨written, hwritten⟩

theorem exists_areGroups_of_isWritten {values : List Value} (hne : values ≠ [])
    (h : ∀ value ∈ values, ∃ lexemes, IsWritten style lineComments value lexemes) :
    ∃ lexemes, AreGroups style lineComments values lexemes := by
  induction values with
  | nil => contradiction
  | cons value values ih =>
    obtain ⟨⟨lexemes, hvalue⟩, hvalues⟩ := List.forall_mem_cons.1 h
    by_cases hnil : values = []
    · obtain ⟨written, hwritten, -⟩ := hvalue.areItems.exists_areGroups (.inl ⟨hnil, rfl⟩)
      exact ⟨written, hwritten⟩
    · obtain ⟨more, hmore⟩ := ih hnil hvalues
      obtain ⟨written, hwritten, -⟩ := hvalue.areItems.exists_areGroups (.inr hmore)
      exact ⟨written, hwritten⟩

/-- The arguments of a function that denotes a colour are written in each of their forms. -/
theorem exists_areGroups_of_resolve? {name : Text} {arguments : List Value} {rgba : Rgba}
    (hresolved : ∀ argument ∈ arguments, argument.IsResolvedThroughout)
    (h : resolve? name arguments = some rgba) :
    ∃ lexemes, AreGroups style lineComments arguments lexemes := by
  obtain ⟨channels, hchannels, hliterals⟩ := isLiteral_of_resolve? h
  have hwritten : ∀ value ∈ channelValues channels,
      (∃ argument ∈ arguments, argument.Contains value) →
        ∃ lexemes, IsWritten style lineComments value lexemes := by
    rintro value hmem ⟨argument, hargument, hcontains⟩
    exact (hliterals value hmem).exists_isWritten (hresolved argument hargument value hcontains)
  obtain rfl | rfl := channels?_cases hchannels
  · exact exists_areGroups_of_isWritten (List.cons_ne_nil _ _) fun value hmem =>
      hwritten value hmem ⟨value, hmem, .self value⟩
  · obtain ⟨lexemes, hitems⟩ : ∃ lexemes, AreItems style lineComments (spaceValues channels)
        lexemes := by
      refine exists_areItems_of_isWritten (List.cons_ne_nil _ _) (fun item hmem => ?_)
        (isChain_spaceValues hliterals)
      obtain hchannel | rfl := mem_spaceValues hmem
      · exact hwritten item hchannel ⟨_, List.mem_singleton_self _, .item hmem (.self item)⟩
      · exact ⟨_, isWritten_sign .slash⟩
    exact ⟨lexemes, hitems.areGroups⟩

/-- The names of colour functions are words of letters, and neither `url` nor `var`. -/
theorem isPlainCall_of_isName {name : Text} (h : ColorFunction.isName name = true) :
    isPlainCall name = true := by
  obtain ⟨keyword, hmem, hkeyword⟩ := List.any_eq_true.1 h
  have hlower : name.lower = keyword.toList := eq_of_beq hkeyword
  have hother : ∀ keyword ∈ ["rgb", "rgba", "hsl", "hsla"],
      (!(keyword.toList == "url".toList) && !(keyword.toList == "var".toList)) = true := by decide
  rw [isPlainCall, Text.isKeyword, Text.isKeyword, hlower]
  exact hother keyword hmem

theorem spells_of_isName {name : Text} (h : ColorFunction.isName name = true) (follow : Text) :
    Token.Spells lineComments follow (.function name) (name ++ ['(']) := by
  obtain ⟨hne, hletters⟩ := Text.isAlpha_of_isOneOf h (by decide)
  have hidentifier := Text.isIdentifier_of_isAlpha hne hletters
  obtain ⟨hends, hstarts⟩ := @Text.nameEnds_of_isIdentifier _ hidentifier ('(' :: follow) rfl
  obtain ⟨hurl, -⟩ := Bool.and_eq_true_iff.1 (isPlainCall_of_isName h)
  exact .function hstarts hends (Bool.not_eq_true' _ ▸ hurl)

theorem exists_isWritten_colorFunction {name : Text} {arguments : List Value} {rgba : Rgba}
    (h : (colorFunction name arguments (some rgba)).IsResolvedThroughout) :
    ∃ lexemes, IsWritten style lineComments (colorFunction name arguments (some rgba)) lexemes := by
  have hcall : call name arguments = colorFunction name arguments (some rgba) := h _ (.self _)
  have hname : ColorFunction.isName name = true := by
    by_contra hname
    rw [call, if_neg hname] at hcall
    contradiction
  have hresolve : resolve? name arguments = some rgba := by
    rw [call, if_pos hname] at hcall
    exact (colorFunction.inj hcall).2.2
  obtain ⟨lexemes, hgroups⟩ := exists_areGroups_of_resolve?
    (fun argument hmem => h.of_contains (.channel hmem (.self argument))) hresolve
  rw [← hcall]
  obtain ⟨written, hwritten, -⟩ :=
    hgroups.exists_isWritten_call (isPlainCall_of_isName hname) (spells_of_isName hname)
  exact ⟨written, hwritten⟩

/-! ### Colours -/

theorem exists_isWritten_named {name : Text} {rgba : Rgba}
    (h : ofName name = color (.named name rgba)) :
    ∃ lexemes, IsWritten style lineComments (color (.named name rgba)) lexemes := by
  have hname : Rgba.ofName? name = some rgba := by
    unfold ofName at h
    split at h
    · contradiction
    · rename_i hrgba
      obtain ⟨-, rfl⟩ := Color.named.inj (color.inj h)
      exact hrgba
    · contradiction
  obtain ⟨hne, hletters⟩ := Rgba.isAlpha_of_ofName? hname
  have hidentifier := Text.isIdentifier_of_isAlpha hne hletters
  have hreread : (color (.named name rgba)).reread style = color (.named name rgba) :=
    reread_self (by simp only [unsigned]) (by simp only [recolored]) style
  exact ⟨_, isWritten_word hidentifier h hreread (by rw [toText]; rfl) rfl⟩

/-- The shortest form of a colour is written as itself. -/
theorem exists_isWritten_color_shortest (rgba : Rgba) :
    ∃ lexemes, IsWritten style lineComments (color rgba.shortest) lexemes := by
  obtain ⟨name, hmem, heq, -⟩ | ⟨heq, -⟩ := rgba.shortest_cases
  · rw [heq]
    exact exists_isWritten_named (ofName_of_mem_names hmem).2
  · rw [heq]
    obtain ⟨lexemes, hwritten, -⟩ := exists_isWritten_hex rgba.ofHex?_digits
    exact ⟨lexemes, hwritten⟩

/-- What is written for a value is read as a value that denotes the same colour. -/
theorem IsWritten.exists_rgba? {value : Value} {lexemes : List Lexeme}
    (h : IsWritten .minified lineComments value lexemes) {rgba : Rgba}
    (hrgba : value.rgba? = some rgba) :
    ∃ read, parse ((Reading.all lineComments 0 (value.toText .minified)).map (·.lexeme)) =
      .ok read ∧ read.rgba? = some rgba :=
  ⟨_, h.areItems.areGroups.parse_all, (rgba?_reread value).trans hrgba⟩

theorem IsResolvedThroughout.exists_rgba? {value : Value} (h : value.IsResolvedThroughout)
    {rgba : Rgba} (hrgba : value.rgba? = some rgba) (lineComments : Bool) :
    ∃ read, parse ((Reading.all lineComments 0 (value.toText .minified)).map (·.lexeme)) =
      .ok read ∧ read.rgba? = some rgba := by
  cases value with
  | color c =>
    cases c with
    | hex digits found =>
      obtain ⟨lexemes, hwritten, -⟩ := exists_isWritten_hex (h _ (.self _))
      exact hwritten.exists_rgba? hrgba
    | named name found =>
      obtain ⟨lexemes, hwritten⟩ := exists_isWritten_named (h _ (.self _))
      exact hwritten.exists_rgba? hrgba
    | computed found =>
      -- no text is read as a computed colour; its text is that of the shortest form
      obtain rfl := Option.some.inj hrgba
      obtain ⟨lexemes, hwritten⟩ := exists_isWritten_color_shortest found
      obtain ⟨read, hread, heq⟩ := hwritten.exists_rgba?
        (congrArg some found.rgba_shortest)
      refine ⟨read, ?_, heq⟩
      rwa [toText, found.toText_shortest] at hread
  | colorFunction name arguments found =>
    obtain rfl : found = some rgba := hrgba
    obtain ⟨lexemes, hwritten⟩ := exists_isWritten_colorFunction h
    exact hwritten.exists_rgba? rfl
  | _ => contradiction

/-- What is written in minified output for a colour in a value, or for the colour once it is
computed, is read as a colour of the same bytes; whether the colour stands in the value as it was
read or with its colours computed. -/
theorem rgba?_of_toText (lineComments lineComments' : Bool) (text : Text) {value part : Value}
    {rgba : Rgba} (hread : parse ((Reading.all lineComments 0 text).map (·.lexeme)) = .ok value)
    (hpart : value.Contains part ∨ value.computeColors.Contains part)
    (hrgba : part.rgba? = some rgba) :
    ∀ written ∈ [part, part.computeColors], ∃ read,
      parse ((Reading.all lineComments' 0 (written.toText .minified)).map (·.lexeme)) = .ok read ∧
      read.rgba? = some rgba := by
  have hvalue := isResolvedThroughout_of_parse hread
  have hresolved : part.IsResolvedThroughout :=
    hpart.elim hvalue.of_contains hvalue.computeColors.of_contains
  simp only [List.forall_mem_cons]
  exact ⟨hresolved.exists_rgba? hrgba lineComments',
    hresolved.computeColors.exists_rgba? ((rgba?_computeColors part).trans hrgba) lineComments',
    List.forall_mem_nil _⟩

theorem rgba?_of_toText_turn :
    ∃ value part, parse (ofText "#AbC HSL(.5turn 100% 50%/50%)".toList) = .ok value ∧
      value.Contains part ∧ part.rgba? = some ⟨0, 255, 255, 128⟩ ∧
      ∀ written ∈ [part, part.computeColors], ∃ read,
        parse (ofText (written.toText .minified)) = .ok read ∧
        read.rgba? = some ⟨0, 255, 255, 128⟩ := by
  have hlast : (parse (ofText "#AbC HSL(.5turn 100% 50%/50%)".toList)).map
      (fun value => value.spaceItems.getLast?.bind rgba?) = .ok (some ⟨0, 255, 255, 128⟩) := by
    decide +kernel
  obtain ⟨value, hread, hcolor⟩ := exists_of_map_eq_ok hlast
  obtain ⟨part, hpart, hrgba⟩ := Option.bind_eq_some_iff.1 hcolor
  have hcontains := contains_of_mem_spaceItems (List.mem_of_getLast? hpart)
  exact ⟨value, part, hread, hcontains, hrgba,
    rgba?_of_toText true true _ hread (.inl hcontains) hrgba⟩

end Value

end Css
