import Css.Proofs.Value.Nesting
import Css.Proofs.Value.Recolored
import Css.Proofs.Value.Trivia
import Css.Proofs.Token.Fits

/-!
# Lexemes that are read as a value

Lexemes that spell what is written for a value in some style, and are read as that value, are put
together from those of its parts: items with spaces between them where there are any
(`AreItems.cons`), groups with commas (`AreGroups.cons`), and functions with brackets around their
groups (`AreGroups.isWritten_call`).
-/

namespace Css

namespace Lexeme

def comma : Lexeme := ⟨.comma, .point 0, [',']⟩

def closer : Lexeme := ⟨.closing .round, .point 0, [')']⟩

def opener (name : Text) : Lexeme := ⟨.function name, .point 0, name ++ ['(']⟩

variable {lineComments : Bool} {lexeme : Lexeme} {left right lexemes : List Lexeme}

def StartsSolid (lexemes : List Lexeme) : Prop := ∃ first ∈ lexemes.head?, first.isTrivia = false

theorem StartsSolid.append (h : StartsSolid left) (right : List Lexeme) :
    StartsSolid (left ++ right) := by
  obtain ⟨first, hfirst, hsolid⟩ := h
  obtain ⟨more, rfl⟩ := List.head?_eq_some_iff.1 hfirst
  exact ⟨first, rfl, hsolid⟩

theorem StartsSolid.ne_nil (h : StartsSolid lexemes) : lexemes ≠ [] := by
  rintro rfl
  obtain ⟨first, hfirst, -⟩ := h
  contradiction

theorem StartsSolid.isVoid_eq (h : StartsSolid lexemes) : isVoid lexemes = false := by
  obtain ⟨first, hfirst, hsolid⟩ := h
  obtain ⟨more, rfl⟩ := List.head?_eq_some_iff.1 hfirst
  rw [isVoid, List.all_cons, hsolid]
  rfl

/-- The first character of what is scanned as no trivia is no blank. -/
theorem StartsSolid.isBlank_head (h : StartsSolid lexemes) {follow : Text}
    (hscanned : AreScanned lineComments lexemes follow) :
    ∀ c ∈ (text lexemes ++ follow).head?, isBlank c = false := by
  obtain ⟨first, hfirst, hsolid⟩ := h
  obtain ⟨more, rfl⟩ := List.head?_eq_some_iff.1 hfirst
  intro c hc
  obtain ⟨rest, hrest⟩ := List.head?_eq_some_iff.1 hc
  rw [text_cons, List.append_assoc] at hrest
  exact hscanned.isRead.1.isBlank_head hsolid hrest

structure Stand (lineComments : Bool) (lexemes : List Lexeme) : Prop where
  scanned : ∀ follow, Separates follow → AreScanned lineComments lexemes follow
  balanced : Balanced lexemes

structure StandInside (lineComments : Bool) (lexemes : List Lexeme) : Prop where
  scanned : ∀ follow, AreScanned lineComments lexemes (')' :: follow)
  balanced : Balanced lexemes

namespace Stand

theorem nil : Stand lineComments [] := ⟨fun _ _ => trivial, .nil⟩

theorem append (hleft : Stand lineComments left) (hright : Stand lineComments right)
    (hseparates : ∀ follow, Separates follow → Separates (text right ++ follow)) :
    Stand lineComments (left ++ right) where
  scanned := fun follow hfollow => eachStands_append.2
    ⟨hleft.scanned _ (hseparates follow hfollow), hright.scanned follow hfollow⟩
  balanced := hleft.balanced.append hright.balanced

/-- A token that is scanned in front of what follows it. -/
theorem cons (h : Stand lineComments lexemes) (hopens : lexeme.token.opens? = none)
    (hcloses : lexeme.token.closes? = none)
    (hspells : ∀ follow, Separates follow →
      Token.Spells lineComments (text lexemes ++ follow) lexeme.token lexeme.raw) :
    Stand lineComments (lexeme :: lexemes) where
  scanned := fun follow hfollow => ⟨.of_spells (hspells follow hfollow), h.scanned follow hfollow⟩
  balanced := .plain hopens hcloses h.balanced

theorem comma (h : Stand lineComments lexemes) : Stand lineComments (Lexeme.comma :: lexemes) :=
  h.cons rfl rfl fun _ _ => .single rfl

theorem text_ne_nil (h : Stand lineComments lexemes) (hsolid : StartsSolid lexemes) :
    text lexemes ≠ [] := by
  obtain ⟨first, hfirst, -⟩ := hsolid
  refine (h.scanned [] fun _ hmem => by contradiction).text_ne_nil ?_
  rintro rfl
  contradiction

theorem space (h : Stand lineComments lexemes) (hsolid : StartsSolid lexemes) :
    Stand lineComments (Lexeme.space :: lexemes) :=
  h.cons rfl rfl fun _ hfollow => .whitespace (List.cons_ne_nil _ _)
    (List.forall_mem_singleton.2 rfl) (hsolid.isBlank_head (h.scanned _ hfollow))

theorem gap (h : Stand lineComments lexemes) (hsolid : StartsSolid lexemes) (style : Style) :
    Stand lineComments (style.gap ++ lexemes) := by
  unfold Style.gap
  split
  · exact h
  · exact h.space hsolid

/-- What stands in front of every separator stands in front of a closing bracket. -/
theorem inside (h : Stand lineComments lexemes) : StandInside lineComments lexemes :=
  ⟨fun follow => h.scanned _ (separates_cons rfl follow), h.balanced⟩

end Stand

/-- A block in round brackets is scanned in front of anything. -/
theorem StandInside.areScanned_block (h : StandInside lineComments lexemes) {name : Text}
    (hspells : ∀ follow, Token.Spells lineComments (text lexemes ++ ')' :: follow)
      (.function name) (name ++ ['('])) (follow : Text) :
    AreScanned lineComments (opener name :: (lexemes ++ [closer])) follow := by
  refine ⟨.of_spells ?_, eachStands_append.2 ⟨h.scanned follow, .of_spells (.single rfl), trivial⟩⟩
  rw [text_append, List.append_assoc]
  exact hspells follow

end Lexeme

/-! ### What may follow a component -/

/-- Whether a text goes on with nothing that a component goes on with: it is empty, or starts with a
separator or with a sign that needs no space around it. -/
def EndsComponent (text : Text) : Prop :=
  ∀ c, text.head? = some c → isSeparator c = true ∨ c = '*' ∨ c = '/'

theorem Separates.endsComponent {text : Text} (h : Separates text) : EndsComponent text :=
  fun c hc => .inl (h c hc)

namespace EndsComponent

variable {follow : Text}

theorem head?_ne (h : EndsComponent follow) {c : Char} (hc : isSeparator c = false)
    (hsign : c ∉ ['*', '/']) : follow.head? ≠ some c := by
  intro hhead
  obtain hseparator | heq := h c hhead
  · rw [hc] at hseparator
    contradiction
  · exact hsign (by simpa using heq)

theorem nameUnit_eq (h : EndsComponent follow) : nameUnit follow = 0 := by
  cases follow with
  | nil => rfl
  | cons c follow =>
    obtain hseparator | rfl | rfl := h c rfl
    · exact nameUnit_of_separates (separates_cons hseparator follow)
    · rw [nameUnit_of_ne (by decide), if_neg (by decide)]
    · rw [nameUnit_of_ne (by decide), if_neg (by decide)]

theorem startsDigit_eq (h : EndsComponent follow) : startsDigit follow = false :=
  Token.startsDigit_of_nameUnit h.nameUnit_eq

theorem startsName_eq (h : EndsComponent follow) : startsName follow = false :=
  startsName_eq_false h.nameUnit_eq

theorem fractionLength_eq (h : EndsComponent follow) : fractionLength follow = 0 := by
  cases follow with
  | nil => rfl
  | cons c follow =>
    have hc : c ≠ '.' := fun hc => h.head?_ne (c := '.') (by decide) (by decide) (by rw [hc]; rfl)
    simp [fractionLength, hc]

theorem exponentLength_eq (h : EndsComponent follow) : exponentLength follow = 0 :=
  Decidable.byContradiction fun hne => by
    have hname := Token.startsName_of_exponentLength hne
    rw [h.startsName_eq] at hname
    contradiction

theorem endsName (h : EndsComponent follow) : EndsName follow where
  unit := h.nameUnit_eq
  bracket := h.head?_ne (by decide) (by decide)
  arrow := h.head?_ne (by decide) (by decide)

end EndsComponent

namespace Value

open Lexeme

variable {style : Style} {lineComments : Bool} {left right lexemes : List Lexeme}
  {value next : Value} {items values : List Value}

/-- Whether a text may stand right behind what is written for a value: a slash that is followed by a
star or by another slash may be the start of a comment. -/
def MayPrecede (follow : Text) : Value → Prop
  | delimiter .star => True
  | delimiter .slash => ∀ c ∈ follow.head?, c ≠ '*' ∧ c ≠ '/'
  | _ => EndsComponent follow

theorem MayPrecede.of_separates {follow : Text} (h : Separates follow) (value : Value) :
    value.MayPrecede follow := by
  unfold MayPrecede
  split
  · trivial
  · intro c hc
    have hseparator := h c hc
    constructor <;> (rintro rfl; exact absurd hseparator (by decide))
  · exact h.endsComponent

theorem mayPrecede_iff (h : value.isTight = false) (follow : Text) :
    value.MayPrecede follow ↔ EndsComponent follow := by
  unfold MayPrecede
  split
  · contradiction
  · contradiction
  · rfl

/-! ### One value -/

/-- Whether lexemes spell a value and are read as it, whatever stands behind them. -/
structure IsWritten (style : Style) (lineComments : Bool) (value : Value)
    (lexemes : List Lexeme) : Prop where
  scanned : ∀ follow, value.MayPrecede follow → AreScanned lineComments lexemes follow
  balanced : Balanced lexemes
  text_eq : text lexemes = value.toText style
  solid : StartsSolid lexemes
  /-- Only a sign that needs no space around it starts like one. -/
  isTight : ∀ lexeme ∈ lexemes.head?,
    lexeme.token = .delim '*' ∨ lexeme.token = .delim '/' → value.isTight = true
  passes : PassesCommas lexemes
  read : ∀ rest, parseItems (lexemes ++ rest) = (parseItems rest).map (value.reread style :: ·)

theorem IsWritten.stand (h : IsWritten style lineComments value lexemes) :
    Stand lineComments lexemes :=
  ⟨fun follow hfollow => h.scanned follow (.of_separates hfollow value), h.balanced⟩

/-- A value that is read back as a sign is this sign. -/
theorem isTight_of_ofToken {token : Token} (hread : ofToken token = .ok (value.reread style))
    (hsign : token = .delim '*' ∨ token = .delim '/') : value.isTight = true := by
  obtain rfl | rfl := hsign
  · rw [(keepsShape_reread style).eq_sign value .star (Except.ok.inj hread).symm]
    rfl
  · rw [(keepsShape_reread style).eq_sign value .slash (Except.ok.inj hread).symm]
    rfl

theorem parseItems_token {lexeme : Lexeme} (htrivia : lexeme.isTrivia = false)
    (h : ofToken lexeme.token = .ok value) (rest : List Lexeme) :
    parseItems (lexeme :: rest) = (parseItems rest).map (value :: ·) := by
  rw [parseItems_cons, htrivia, if_neg Bool.false_ne_true]
  split
  · rename_i htoken
    rw [htoken] at h
    contradiction
  · rw [h]
    cases parseItems rest <;> rfl

theorem parseItems_block {name : Text} {inner : List Lexeme} (hclosed : IsClosed inner)
    (h : parseCall name inner = .ok value) (rest : List Lexeme) :
    parseItems (opener name :: (inner ++ [closer]) ++ rest) =
      (parseItems rest).map (value :: ·) := by
  have hcut : cutBlock? (inner ++ ([closer] ++ rest)) = some ⟨inner, closer, rest⟩ :=
    cutBlock?_append_of_isClosed hclosed rfl rest
  rw [List.cons_append, List.append_assoc, parseItems_cons,
    if_neg (show ¬(opener name).isTrivia = true from Bool.false_ne_true)]
  simp only [opener, hcut, h]
  cases parseItems rest <;> rfl

/-- A token that is a component on its own. -/
theorem isWritten_token {token : Token} {raw : Text} (htrivia : token.isTrivia = false)
    (hread : ofToken token = .ok (value.reread style)) (htext : raw = value.toText style)
    (hspells : ∀ follow, value.MayPrecede follow → Token.Spells lineComments follow token raw) :
    IsWritten style lineComments value [⟨token, .point 0, raw⟩] := by
  obtain ⟨hopens, hcloses⟩ := no_bracket_of_ofToken hread
  have hcomma : token ≠ .comma := by
    rintro rfl
    contradiction
  exact
    { scanned := fun follow hfollow => ⟨.of_spells (hspells follow hfollow), trivial⟩
      balanced := .plain hopens hcloses .nil
      text_eq := by rw [← htext, text_cons, text_nil, List.append_nil]
      solid := ⟨_, rfl, htrivia⟩
      isTight := by
        intro lexeme hmem hsign
        obtain rfl := Option.some.inj hmem
        exact isTight_of_ofToken hread hsign
      passes := .plain hopens hcloses hcomma .nil
      read := parseItems_token htrivia hread }

/-- A function that is read from what its brackets hold. -/
theorem isWritten_block {name : Text} (hinner : StandInside lineComments lexemes)
    (hread : parseCall name lexemes = .ok (value.reread style))
    (htext : name ++ '(' :: (text lexemes ++ [')']) = value.toText style)
    (hspells : ∀ follow, Token.Spells lineComments (text lexemes ++ ')' :: follow)
      (.function name) (name ++ ['('])) :
    IsWritten style lineComments value (opener name :: (lexemes ++ [closer])) where
  scanned := fun follow _ => hinner.areScanned_block hspells follow
  balanced := .block rfl rfl hinner.balanced .nil
  text_eq := by
    rw [← htext, text_cons, text_append]
    simp [opener, closer]
  solid := ⟨_, rfl, rfl⟩
  isTight := by
    intro lexeme hmem hsign
    obtain rfl := Option.some.inj hmem
    obtain hsign | hsign := hsign <;> contradiction
  passes := .brackets rfl rfl hinner.balanced.isClosed .nil
  read := parseItems_block hinner.balanced.isClosed hread

/-! ### Items of a group -/

structure AreItems (style : Style) (lineComments : Bool) (items : List Value)
    (lexemes : List Lexeme) : Prop extends Stand lineComments lexemes where
  text_eq : text lexemes = spaceText style items
  solid : StartsSolid lexemes
  isTight : ∀ value ∈ items.head?, ∀ lexeme ∈ lexemes.head?,
    lexeme.token = .delim '*' ∨ lexeme.token = .delim '/' → value.isTight = true
  passes : PassesCommas lexemes
  read : parseItems lexemes = .ok (items.map (reread style))

theorem IsWritten.areItems (h : IsWritten style lineComments value lexemes) :
    AreItems style lineComments [value] lexemes where
  toStand := h.stand
  text_eq := h.text_eq
  solid := h.solid
  isTight := by
    intro first hfirst
    obtain rfl := Option.some.inj hfirst
    exact h.isTight
  passes := h.passes
  read := by
    have hread := h.read []
    rwa [List.append_nil, parseItems_nil] at hread

/-- What is scanned from a star or a slash is this sign, or trivia. -/
theorem scan_sign {c : Char} (hc : c = '*' ∨ c = '/') (cs : Text) :
    (Token.scan lineComments c cs).token.isTrivia = true ∨
      (Token.scan lineComments c cs).token = .delim c := by
  obtain rfl | rfl := hc
  · have hstar : Token.startsToken '*' = false := by decide
    rw [Token.scan_of_not_startsToken lineComments hstar]
    exact .inr rfl
  · by_cases hstar : cs.head? = some '*'
    · obtain ⟨rest, rfl⟩ := List.head?_eq_some_iff.1 hstar
      rw [Token.scan_comment]
      simp only [Token.scanComment]
      exact .inl (by split <;> rfl)
    · by_cases hslash : cs.head? ≠ some '/' ∨ lineComments = false
      · rw [Token.scan_slash lineComments hstar hslash]
        exact .inr rfl
      · obtain ⟨hhead, hcomments⟩ := not_or.1 hslash
        obtain ⟨rest, rfl⟩ := List.head?_eq_some_iff.1 (not_not.1 hhead)
        rw [Token.scan_lineComment, if_pos (by simpa using hcomments)]
        exact .inl rfl

/-- Items that start like a sign that needs no space around it start with one. -/
theorem AreItems.isTight_of_head? (h : AreItems style lineComments (next :: items) lexemes)
    {follow : Text} {c : Char} (hc : c = '*' ∨ c = '/')
    (hhead : (text lexemes ++ follow).head? = some c) : next.isTight = true := by
  obtain ⟨first, hfirst, hsolid⟩ := h.solid
  obtain ⟨more, rfl⟩ := List.head?_eq_some_iff.1 hfirst
  obtain ⟨⟨d, cs, hraw, hscan⟩, -⟩ := h.scanned [] fun _ hmem => by contradiction
  rw [text_cons, hraw] at hhead
  obtain rfl := Option.some.inj hhead
  have htoken : (Token.scan lineComments d (cs ++ (text more ++ []))).token = first.token :=
    congrArg Scan.token hscan
  refine h.isTight next rfl first rfl ?_
  obtain htrivia | hsign := @scan_sign lineComments _ hc (cs ++ (text more ++ []))
  · rw [htoken] at htrivia
    rw [isTrivia, htrivia] at hsolid
    contradiction
  · rw [← htoken, hsign]
    obtain rfl | rfl := hc
    · exact .inl rfl
    · exact .inr rfl

/-- What is written for a sign that needs no space around it is one character. -/
theorem head?_toText_of_isTight (h : value.isTight = true) (style : Style) (rest : Text) :
    ∃ c, (value.toText style ++ rest).head? = some c ∧ (c = '*' ∨ c = '/') := by
  cases value with
  | delimiter sign =>
    cases sign with
    | slash => exact ⟨'/', by rw [toText]; rfl, .inr rfl⟩
    | star => exact ⟨'*', by rw [toText]; rfl, .inl rfl⟩
    | plus => contradiction
    | minus => contradiction
  | _ => contradiction

theorem spaceText_cons (style : Style) (value : Value) (items : List Value) :
    ∃ rest, spaceText style (value :: items) = value.toText style ++ rest := by
  cases items with
  | nil => exact ⟨[], by rw [spaceText, List.append_nil]⟩
  | cons next items => exact ⟨_, by rw [spaceText, List.append_assoc]⟩

/-- Where there is no space between two items, the second one may stand right behind the first. -/
theorem AreItems.mayPrecede (h : AreItems style lineComments (next :: items) lexemes)
    (htight : value.isTight = true ∨ next.isTight = true)
    (hsigns : value = delimiter .slash → next.isTight = false) (follow : Text) :
    value.MayPrecede (text lexemes ++ follow) := by
  have hother : value.isTight = false → value.MayPrecede (text lexemes ++ follow) := by
    intro hvalue
    rw [mayPrecede_iff hvalue]
    have hnext : next.isTight = true := htight.resolve_left (by simp [hvalue])
    obtain ⟨rest, hrest⟩ := spaceText_cons style next items
    obtain ⟨sign, hsign, hchar⟩ := head?_toText_of_isTight hnext style (rest ++ follow)
    rw [h.text_eq, hrest, List.append_assoc, EndsComponent, hsign]
    intro c hc
    obtain rfl := Option.some.inj hc
    exact .inr hchar
  cases value with
  | delimiter sign =>
    cases sign with
    | star => trivial
    | slash =>
      have hnext := hsigns rfl
      intro c hc
      constructor
      · rintro rfl
        rw [h.isTight_of_head? (.inl rfl) hc] at hnext
        contradiction
      · rintro rfl
        rw [h.isTight_of_head? (.inr rfl) hc] at hnext
        contradiction
    | plus => exact hother rfl
    | minus => exact hother rfl
  | _ => exact hother rfl

def itemGap (style : Style) (left right : Value) : List Lexeme :=
  if style.minify && (left.isTight || right.isTight) then [] else [space]

theorem text_itemGap (style : Style) (left right : Value) :
    text (itemGap style left right) = spaceBetween style left right := by
  unfold itemGap spaceBetween
  split <;> rfl

theorem isVoid_itemGap (style : Style) (left right : Value) :
    isVoid (itemGap style left right) = true := by
  unfold itemGap
  split <;> rfl

theorem AreItems.cons (hvalue : IsWritten style lineComments value left)
    (hitems : AreItems style lineComments (next :: items) right)
    (hsigns : style.minify = true → value = delimiter .slash → next.isTight = false) :
    AreItems style lineComments (value :: next :: items)
      (left ++ (itemGap style value next ++ right)) where
  scanned := by
    intro follow hfollow
    unfold itemGap
    split
    · rename_i htight
      rw [Bool.and_eq_true, Bool.or_eq_true] at htight
      exact eachStands_append.2
        ⟨hvalue.scanned _ (hitems.mayPrecede htight.2 (hsigns htight.1) follow),
          hitems.scanned follow hfollow⟩
    · exact (hvalue.stand.append (hitems.space hitems.solid) fun _ _ =>
        separates_cons rfl _).scanned follow hfollow
  balanced := by
    refine hvalue.balanced.append ?_
    unfold itemGap
    split
    · exact hitems.balanced
    · exact .plain rfl rfl hitems.balanced
  text_eq := by
    rw [text_append, text_append, hvalue.text_eq, hitems.text_eq, text_itemGap, spaceText,
      List.append_assoc]
  solid := hvalue.solid.append _
  isTight := by
    intro first hfirst lexeme hmem
    obtain rfl := Option.some.inj hfirst
    obtain ⟨found, hfound, -⟩ := hvalue.solid
    rw [List.head?_append, hfound, Option.some_or] at hmem
    obtain rfl := Option.some.inj hmem
    exact hvalue.isTight _ hfound
  passes := by
    refine hvalue.passes.append ?_
    unfold itemGap
    split
    · exact hitems.passes
    · exact .plain rfl rfl (by decide) hitems.passes
  read := by
    rw [hvalue.read, parseItems_void_append (isVoid_itemGap ..), hitems.read]
    rfl

/-! ### Groups between commas -/

structure AreGroups (style : Style) (lineComments : Bool) (values : List Value)
    (lexemes : List Lexeme) : Prop extends Stand lineComments lexemes where
  text_eq : text lexemes = commaText style values
  solid : StartsSolid lexemes
  read : parseGroups (splitCommas lexemes).toList = .ok (values.map (reread style))

theorem toText_spaceList (style : Style) (items : List Value) (hne : items ≠ []) :
    (spaceList items).toText style = spaceText style items := by
  rcases items with _ | ⟨value, _ | ⟨next, items⟩⟩
  · exact absurd rfl hne
  · simp only [spaceList, spaceText]
  · simp only [spaceList, toText]

theorem toText_ofGroups (style : Style) (values : List Value) :
    (ofGroups values).toText style = commaText style values := by
  rcases values with _ | ⟨value, _ | ⟨next, values⟩⟩ <;>
    simp only [ofGroups, toText, commaText]

theorem AreItems.ne_nil (h : AreItems style lineComments items lexemes) : items ≠ [] := by
  rintro rfl
  exact h.text_ne_nil h.solid h.text_eq

theorem AreGroups.ne_nil (h : AreGroups style lineComments values lexemes) : values ≠ [] := by
  rintro rfl
  exact h.text_ne_nil h.solid h.text_eq

theorem AreItems.parseGroups_cons (h : AreItems style lineComments items lexemes)
    {groups : List (List Lexeme)} (hgroups : parseGroups groups = .ok values) :
    parseGroups (lexemes :: groups) = .ok ((spaceList items).reread style :: values) := by
  have hempty : (items.map (reread style)).isEmpty = false := by
    rw [List.isEmpty_map]
    simpa using h.ne_nil
  rw [Value.parseGroups_cons, h.read, hgroups, (keepsShape_reread style).spaceList_map]
  simp only [bind, Except.bind, hempty]
  rfl

theorem AreItems.areGroups (h : AreItems style lineComments items lexemes) :
    AreGroups style lineComments [spaceList items] lexemes where
  toStand := h.toStand
  text_eq := by rw [h.text_eq, commaText, toText_spaceList _ _ h.ne_nil]
  solid := h.solid
  read := by
    rw [h.passes.splitCommas_eq]
    exact h.parseGroups_cons parseGroups_nil

/-- Trivia in front of groups are a part of the first one. -/
theorem AreGroups.read_void (h : AreGroups style lineComments values lexemes)
    {trivia : List Lexeme} (hvoid : isVoid trivia = true) :
    parseGroups (splitCommas (trivia ++ lexemes)).toList = .ok (values.map (reread style)) := by
  have hsplit := splitCommasFrom_void_append hvoid 0 lexemes
  rw [← h.read, splitCommas, hsplit, splitCommas]
  refine parseGroups_congr (.cons (parseItems_void_append hvoid _) ?_)
  exact List.forall₂_same.2 fun _ _ => rfl

theorem AreGroups.cons (hitems : AreItems style lineComments items left)
    (hvalues : AreGroups style lineComments (next :: values) right) :
    AreGroups style lineComments (spaceList items :: next :: values)
      (left ++ Lexeme.comma :: (style.gap ++ right)) where
  toStand := hitems.append (hvalues.gap hvalues.solid style).comma fun _ _ => separates_cons rfl _
  text_eq := by
    rw [text_append, text_cons, text_append, style.text_gap, hitems.text_eq, hvalues.text_eq,
      commaText, toText_spaceList _ _ hitems.ne_nil]
    simp [Lexeme.comma, Style.delim]
  solid := hitems.solid.append _
  read := by
    rw [hitems.passes.splitCommas_comma rfl]
    exact hitems.parseGroups_cons (hvalues.read_void style.isVoid_gap)

/-! ### Functions -/

theorem mayEnclose_block (name : Text) (lexemes : List Lexeme) :
    MayEnclose lexemes (opener name :: (lexemes ++ [closer])) := by
  refine .inr ?_
  rw [marks_cons, marks_append]
  rfl

def isPlainCall (name : Text) : Bool := !name.isKeyword "url" && !name.isKeyword "var"

/-- The shortest form of a colour is spelled and read as what it is. -/
theorem exists_isWritten_shortest {rgba : Rgba} (htext : value.toText style = rgba.shortestForm)
    (hread : value.reread style = color rgba.shortest) (htight : value.isTight = false) :
    ∃ lexemes, IsWritten style lineComments value lexemes ∧ marks lexemes = [] := by
  obtain ⟨name, hmem, heq, hform⟩ | ⟨heq, hform⟩ := rgba.shortest_cases
  · obtain ⟨hname, hofName⟩ := ofName_of_mem_names hmem
    refine ⟨_, @isWritten_token _ _ _ (.ident name.toList) _ rfl ?_ (htext.trans hform).symm ?_,
      rfl⟩
    · rw [hread, heq, ← hofName]
      rfl
    · intro follow hfollow
      exact Text.spells_of_isIdentifier hname ((mayPrecede_iff htight follow).1 hfollow).endsName
  · have hdigits := rgba.ofHex?_digits
    obtain ⟨hne, hchars⟩ := Rgba.isNameChar_of_ofHex? hdigits
    refine ⟨_, @isWritten_token _ _ _ (.hash rgba.digits (startsName rgba.digits)) _ rfl ?_
      (htext.trans hform).symm ?_, rfl⟩
    · rw [hread, heq]
      simp only [ofToken, hdigits]
    · intro follow hfollow
      exact Token.spells_hash hne hchars ((mayPrecede_iff htight follow).1 hfollow).endsName

theorem isTight_call (name : Text) (arguments : List Value) :
    (call name arguments).isTight = false := by
  unfold call
  split <;> rfl

/-- A function with the groups of its arguments in its brackets. -/
theorem AreGroups.exists_isWritten_call (h : AreGroups style lineComments values lexemes)
    {name : Text} (hname : isPlainCall name = true)
    (hspells : ∀ follow, Token.Spells lineComments follow (.function name) (name ++ ['('])) :
    ∃ written, IsWritten style lineComments (call name values) written ∧
      MayEnclose lexemes written := by
  obtain ⟨-, rgba, htext, hread⟩ | ⟨htext, hread⟩ := call_cases style name values
  · obtain ⟨written, hwritten, hmarks⟩ :=
      exists_isWritten_shortest htext hread (isTight_call name values)
    exact ⟨written, hwritten, .inl hmarks⟩
  · obtain ⟨hurl, hvar⟩ := Bool.and_eq_true_iff.1 hname
    rw [Bool.not_eq_true'] at hurl hvar
    refine ⟨_, isWritten_block h.inside ?_ ?_ fun _ => hspells _, mayEnclose_block name lexemes⟩
    · rw [parseCall_eq, hurl, hvar, h.solid.isVoid_eq, h.read, hread]
      rfl
    · rw [htext, h.text_eq]

/-- A function with nothing in its brackets. -/
theorem exists_isWritten_call_nil {name : Text} (hname : isPlainCall name = true)
    (hspells : ∀ follow, Token.Spells lineComments follow (.function name) (name ++ ['('])) :
    ∃ written, IsWritten style lineComments (call name []) written ∧ MayEnclose [] written := by
  obtain ⟨-, rgba, htext, hread⟩ | ⟨htext, hread⟩ := call_cases style name []
  · obtain ⟨written, hwritten, hmarks⟩ :=
      exists_isWritten_shortest htext hread (isTight_call name [])
    exact ⟨written, hwritten, .inl hmarks⟩
  · obtain ⟨hurl, hvar⟩ := Bool.and_eq_true_iff.1 hname
    rw [Bool.not_eq_true'] at hurl hvar
    refine ⟨_, isWritten_block Stand.nil.inside ?_ ?_ fun _ => hspells _, mayEnclose_block name []⟩
    · rw [parseCall_eq, hurl, hvar, hread]
      rfl
    · rw [htext, commaText]
      rfl

/-! ### Whole values -/

/-- Lexemes that are read as groups are read as the value of these groups. -/
theorem AreGroups.parse_eq (h : AreGroups style lineComments values lexemes) :
    parse lexemes = .ok ((ofGroups values).reread style) := by
  rw [parse, h.balanced.isBalanced, if_pos rfl, h.read, (keepsShape_reread style).ofGroups_map]
  rfl

end Value

end Css
