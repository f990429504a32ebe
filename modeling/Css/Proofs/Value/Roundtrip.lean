import Css.Proofs.Value.Components

/-!
# Reading a value back

A value that is read from a text is read back from what is written for it, with unsigned zeros, if
there was no backslash in the text and nothing in it was cut short or a dimension with an exponent
(`Value.parse_toText`). In minified output colours are read back in their shortest form, and what
is written for a slash must not become the start of a comment (`Value.parse_toText_recolored`). Only
a url is read back with any backslashes in it (`Value.parse_toText_url`). The
proof follows the reading of the value: each component, each group and each function that is read
has lexemes that are written for it.
-/

namespace Css

namespace Lexeme

/-! ### Slashes -/

def slashesApart : List Lexeme → Bool
  | [] => true
  | lexeme :: lexemes =>
    (lexeme.token != .delim '/' ||
      (next? lexemes).all fun next => next.1 != .delim '*' && next.1 != .delim '/') &&
    slashesApart lexemes

theorem slashesApart_append_right {left right : List Lexeme}
    (h : slashesApart (left ++ right) = true) : slashesApart right = true := by
  induction left with
  | nil => exact h
  | cons lexeme left ih => exact ih (Bool.and_eq_true_iff.1 h).2

theorem next?_append {left rest : List Lexeme} {token : Token}
    (h : next? left = some (token, rest)) (right : List Lexeme) :
    next? (left ++ right) = some (token, rest ++ right) := by
  induction left with
  | nil => contradiction
  | cons lexeme left ih =>
    rw [List.cons_append]
    cases htrivia : lexeme.isTrivia with
    | true =>
      rw [next?_of_isTrivia htrivia] at h ⊢
      exact ih h
    | false =>
      rw [next?_of_not_isTrivia htrivia] at h ⊢
      obtain ⟨rfl, rfl⟩ := Prod.mk.inj (Option.some.inj h)
      rfl

theorem slashesApart_append_left {left right : List Lexeme}
    (h : slashesApart (left ++ right) = true) : slashesApart left = true := by
  induction left with
  | nil => rfl
  | cons lexeme left ih =>
    rw [List.cons_append, slashesApart, Bool.and_eq_true, Bool.or_eq_true] at h
    rw [slashesApart, Bool.and_eq_true, Bool.or_eq_true]
    refine ⟨h.1.imp_right fun hnext => ?_, ih h.2⟩
    cases hleft : next? left with
    | none => rfl
    | some next =>
      rw [next?_append hleft] at hnext
      exact hnext

/-! ### Sources -/

variable {style : Style} {lineComments : Bool}

theorem AreRead.hasExponentUnit_eq_false {lexemes : List Lexeme} {x : Text}
    (h : AreRead lineComments lexemes x) {lexeme : Lexeme} (hmem : lexeme ∈ lexemes)
    (hexponent : lexeme.token.hasExponent = false) : lexeme.token.hasExponentUnit = false := by
  obtain ⟨front, back, rfl⟩ := List.append_of_mem hmem
  have hback := h.append_right
  refine Value.hasExponentUnit_of_isRead hback.read.1 (fun hchar => hback.plain ?_) hexponent
  rw [text_cons, List.append_assoc]
  exact List.mem_append_left _ hchar

/-- Lexemes as they stand side by side in a text without backslashes, none of them cut short or a
dimension whose unit is an exponent. Where they are to be minified, no slash would become the start
of a comment. -/
structure IsSource (style : Style) (lineComments : Bool) (lexemes : List Lexeme)
    (follow : Text) : Prop extends AreRead lineComments lexemes follow where
  good : ∀ lexeme ∈ lexemes, lexeme.token.isBad = false ∧ lexeme.token.hasExponentUnit = false
  apart : style.minify = true → slashesApart lexemes = true

namespace IsSource

variable {left right lexemes rest : List Lexeme} {lexeme : Lexeme} {x : Text}

theorem append_left (h : IsSource style lineComments (left ++ right) x) :
    IsSource style lineComments left (text right ++ x) where
  toAreRead := h.toAreRead.append_left
  good := fun lexeme hmem => h.good lexeme (List.mem_append_left right hmem)
  apart := fun hminify => slashesApart_append_left (h.apart hminify)

theorem append_right (h : IsSource style lineComments (left ++ right) x) :
    IsSource style lineComments right x where
  toAreRead := h.toAreRead.append_right
  good := fun lexeme hmem => h.good lexeme (List.mem_append_right left hmem)
  apart := fun hminify => slashesApart_append_right (h.apart hminify)

theorem tail (h : IsSource style lineComments (lexeme :: lexemes) x) :
    IsSource style lineComments lexemes x :=
  append_right (show IsSource style lineComments ([lexeme] ++ lexemes) x from h)

theorem of_isInfix {part : List Lexeme} (h : IsSource style lineComments lexemes x)
    (hpart : part <:+: lexemes) : ∃ y, IsSource style lineComments part y := by
  obtain ⟨before, after, rfl⟩ := hpart
  exact ⟨_, h.append_left.append_right⟩

/-- What a block holds stands in front of its closing bracket. -/
theorem of_cutBlock? (h : IsSource style lineComments lexemes x) {block : Block}
    (hcut : cutBlock? lexemes = some block) :
    IsSource style lineComments block.inner (text (block.closer :: block.rest) ++ x) ∧
      text (block.closer :: block.rest) ++ x ≠ [] ∧ IsSource style lineComments block.rest x := by
  rw [cutBlock?_eq_some hcut] at h
  refine ⟨h.append_left, ?_, h.append_right.tail⟩
  intro hnil
  have hcloser := h.append_right.read.1.raw_ne_nil
  rw [text_cons, List.append_assoc] at hnil
  exact hcloser (List.append_eq_nil_iff.1 hnil).1

/-- The first token that is no trivia, and what stands behind it. -/
theorem of_next? (h : IsSource style lineComments lexemes x) {token : Token}
    (hnext : next? lexemes = some (token, rest)) :
    (∃ lexeme, lexeme.token = token ∧ IsRead lineComments lexeme (text rest ++ x) ∧
      '\\' ∉ lexeme.raw ++ (text rest ++ x)) ∧ IsSource style lineComments rest x := by
  obtain ⟨front, lexeme, rfl, htoken, -⟩ := exists_of_next? hnext
  have hplain := h.append_right.plain
  rw [text_cons, List.append_assoc] at hplain
  exact ⟨⟨lexeme, htoken, h.append_right.read.1, hplain⟩, h.append_right.tail⟩

/-- The groups between commas. -/
theorem splitCommas (h : IsSource style lineComments lexemes x) (hbalanced : Balanced lexemes) :
    ∀ group ∈ (Lexeme.splitCommas lexemes).toList,
      Balanced group ∧ ∃ y, IsSource style lineComments group y :=
  fun group hmem =>
    ⟨hbalanced.of_mem_splitCommas group hmem, h.of_isInfix (infix_of_mem_splitCommas hmem)⟩

/-- Source text behind a comma, with the spaces that are written for its trivia. -/
theorem exists_standInside (h : IsSource style lineComments lexemes x) (hx : x ≠ [])
    (hbalanced : Balanced lexemes) (hvoid : isVoid lexemes = false) :
    ∃ ys, Respaced (trim lexemes) ys ∧ text ys = rawText lexemes ∧ ys ≠ [] ∧
      StandInside lineComments (Lexeme.comma :: (style.gap ++ ys)) := by
  have hgood := fun lexeme hmem => (h.good lexeme hmem).1
  obtain ⟨ys, hys, htext⟩ := h.toAreRead.exists_respaced_rawText hgood
  have hne : ys ≠ [] := by
    rintro rfl
    rw [← isVoid_trim, ← hys.isVoid_eq] at hvoid
    contradiction
  have hbalanced' : isBalanced ys = true := by
    rw [hys.isBalanced_eq, isBalanced_trim, hbalanced.isBalanced]
  have hscanned : ∀ follow, AreScanned lineComments ys (')' :: follow) ∧
      ∀ c rest, text ys ++ ')' :: follow = c :: rest → isBlank c = false := by
    intro follow
    obtain ⟨hscanned, hhead⟩ := h.toAreRead.areScanned_respaced hx hbalanced.isClosed hgood hys
      (.inl (separates_cons (c := ')') rfl follow)) (List.cons_ne_nil _ _)
    exact ⟨hscanned, hhead hne⟩
  refine ⟨ys, hys, htext, hne, fun follow => ⟨.of_spells (.single rfl), ?_⟩, .plain rfl rfl ?_⟩
  · obtain ⟨hys, hhead⟩ := hscanned follow
    unfold Style.gap
    split
    · exact hys
    · refine ⟨.of_spells (.whitespace (List.cons_ne_nil _ _) (List.forall_mem_singleton.2 rfl) ?_),
        hys⟩
      intro c hc
      obtain ⟨rest, hrest⟩ := List.head?_eq_some_iff.1 hc
      exact hhead c rest hrest
  · unfold Style.gap
    split
    · exact balanced_of_isBalanced hbalanced'
    · exact .plain rfl rfl (balanced_of_isBalanced hbalanced')

end IsSource

end Lexeme

namespace Value

open Lexeme

variable {style : Style} {lineComments : Bool} {x y : Text}

/-! ### Functions -/

/-- The name of a function that is no url is read again in front of its bracket. -/
theorem spells_call {name raw : Text} (h : Token.Spells lineComments x (.function name) raw)
    (hname : name.isKeyword "url" = false) (y : Text) :
    Token.Spells lineComments y (.function name) (name ++ ['(']) := by
  cases h with
  | single hchar =>
    unfold Token.ofChar? at hchar
    split at hchar <;> simp at hchar
  | function hstarts hends =>
    have hends' : NameEnds name ('(' :: y) := hends.congr rfl fun c hc _ => hc
    exact .function ((hends.startsName_congr hends' (hends.ne_nil hstarts)).trans hstarts) hends'
      hname
  | quotedUrl hurl =>
    rw [hname] at hurl
    contradiction

def IsWrittenCall (style : Style) (lineComments : Bool) (inner : List Lexeme) (value : Value)
    (written : List Lexeme) : Prop :=
  IsWritten style lineComments value written ∧ ∃ inside, Fits inner inside ∧
    MayEnclose inside written

theorem exists_isWritten_quotedUrl {inner : List Lexeme} {value : Value}
    (h : IsSource style lineComments inner x) (hread : parseQuotedUrl inner = .ok value) :
    ∃ written, IsWrittenCall style lineComments inner value written := by
  unfold parseQuotedUrl at hread
  split at hread
  · rename_i content quote rest hnext
    split at hread
    · rename_i hvoid
      obtain rfl := Except.ok.inj hread
      obtain ⟨⟨lexeme, htoken, hlexeme, hplain⟩, -⟩ := h.of_next? hnext
      obtain ⟨written, hwritten, hencloses⟩ :=
        exists_isWritten_url_of_string hlexeme hplain htoken
      have hfits : Fits rest [] := .of_marks_eq (marks_of_isVoid hvoid).symm
      exact ⟨written, hwritten, [], .of_next? hnext rfl hfits, hencloses⟩
    · contradiction
  · contradiction

/-- A function whose arguments are read as values, where the groups of these are written. -/
theorem exists_isWritten_plainCall {name : Text} {inner : List Lexeme} {value : Value}
    (hname : isPlainCall name = true)
    (hspells : ∀ follow, Token.Spells lineComments follow (.function name) (name ++ ['(']))
    (hgroups : ∀ {values : List Value}, parseGroups (splitCommas inner).toList = .ok values →
      ∃ lexemes, AreGroups style lineComments values lexemes ∧ Fits inner lexemes)
    (hread : parseCall name inner = .ok value) :
    ∃ written, IsWrittenCall style lineComments inner value written := by
  obtain ⟨hurl, hvar⟩ := Bool.and_eq_true_iff.1 hname
  rw [Bool.not_eq_true'] at hurl hvar
  rw [parseCall_eq, hurl, hvar] at hread
  simp only [Bool.false_eq_true, if_false] at hread
  split at hread
  · rename_i hvoid
    obtain rfl := Except.ok.inj hread
    obtain ⟨written, hwritten, hencloses⟩ := exists_isWritten_call_nil hname hspells
    exact ⟨written, hwritten, [], .of_marks_eq (marks_of_isVoid hvoid).symm, hencloses⟩
  · obtain ⟨values, hvalues, rfl⟩ := exists_of_map_eq_ok (f := call name) hread
    obtain ⟨lexemes, hlexemes, hfits⟩ := hgroups hvalues
    obtain ⟨written, hwritten, hencloses⟩ := hlexemes.exists_isWritten_call hname hspells
    exact ⟨written, hwritten, lexemes, hfits, hencloses⟩

/-! ### Custom properties -/

/-- An identifier that was read is a word. -/
theorem isWord_of_isRead {lexeme : Lexeme} {name : Text} (h : IsRead lineComments lexeme x)
    (hplain : '\\' ∉ lexeme.raw ++ x) (htoken : lexeme.token = .ident name) :
    name.IsWord lineComments := by
  intro follow hfollow
  have hspells := h.spells_toText (by rw [htoken]; rfl) (by rw [isTrivia, htoken]; rfl)
    (by rw [htoken]; exact Token.noConfusion) hplain (.of_separates hfollow x)
    fun _ _ heq => by rw [htoken] at heq; contradiction
  rw [htoken] at hspells
  exact hspells

/-- What `var()` is read from: the name of a custom property, and what follows a comma. -/
theorem isSource_of_cutVariable {inner : List Lexeme} {name : Text}
    {fallback : Option (List Lexeme)} (h : IsSource style lineComments inner x)
    (hbalanced : Balanced inner) (hread : cutVariable inner = .ok (name, fallback)) :
    (name.IsWord lineComments ∧ ∃ tail, name = '-' :: '-' :: tail) ∧
      ∀ behind ∈ fallback, IsSource style lineComments behind x ∧ Balanced behind := by
  unfold cutVariable at hread
  split at hread
  · contradiction
  · rename_i tail rest hnext
    obtain ⟨⟨lexeme, htoken, hlexeme, hplain⟩, hrest⟩ := h.of_next? hnext
    have hname := isWord_of_isRead hlexeme hplain htoken
    split at hread
    · obtain ⟨rfl, rfl⟩ := Prod.mk.inj (Except.ok.inj hread)
      exact ⟨⟨hname, _, rfl⟩, fun _ hmem => by contradiction⟩
    · rename_i behind hbehind
      obtain ⟨rfl, rfl⟩ := Prod.mk.inj (Except.ok.inj hread)
      refine ⟨⟨hname, _, rfl⟩, fun _ hmem => ?_⟩
      obtain rfl := Option.some.inj hmem
      exact ⟨(hrest.of_next? hbehind).2, (hbalanced.of_next? hnext rfl).of_next? hbehind rfl⟩
    · contradiction
  · contradiction

def variableName (name : Text) : Lexeme := ⟨.ident name, .point 0, name⟩

/-- `var()` with the name of a custom property and what stands behind it. -/
theorem isWritten_var {name : Text} {fallback : Option Value} {behind : List Lexeme}
    {behind? : Option (List Lexeme)} (hname : name.IsWord lineComments)
    (hbehind : StandInside lineComments behind)
    (hseparates : ∀ follow, Separates (text behind ++ ')' :: follow))
    (htext : text behind = fallbackText style fallback)
    (hcut : cutVariable (variableName name :: behind) = .ok (name, behind?))
    (hfallback : behind?.map ofFallback = fallback.map (reread style)) :
    ∃ written, IsWritten style lineComments (var name fallback) written ∧
      MayEnclose behind written := by
  have hinner : StandInside lineComments (variableName name :: behind) :=
    ⟨fun follow => ⟨.of_spells (hname _ (hseparates follow)), hbehind.scanned follow⟩,
      .plain rfl rfl hbehind.balanced⟩
  have hread : parseCall "var".toList (variableName name :: behind) =
      .ok ((var name fallback).reread style) := by
    rw [parseCall_eq_var (by decide) (by decide), hcut, reread_var, ← hfallback]
    rfl
  refine ⟨_, isWritten_block hinner hread ?_ fun follow => ?_, mayEnclose_block _ _⟩
  · rw [toText, text_cons, htext]
    simp [variableName]
  · exact .function (startsName_of_isNameStart (by decide) _)
      (nameEnds_of_plain (List.all_eq_true.1 rfl) rfl) (by decide)

theorem AreGroups.ofFallback_void {values : List Value} {lexemes trivia : List Lexeme}
    (h : AreGroups style lineComments values lexemes) (hvoid : isVoid trivia = true) :
    ofFallback (trivia ++ lexemes) = (ofGroups values).reread style := by
  have hsolid : isVoid (trivia ++ lexemes) = false := by
    rw [isVoid, List.all_append, ← isVoid, ← isVoid, hvoid, h.solid.isVoid_eq]
    rfl
  rw [ofFallback, hsolid, h.read_void hvoid, (keepsShape_reread style).ofGroups_map]
  rfl

/-- A fallback that is read as groups. -/
theorem AreGroups.isWritten_var {tail : Text} {values : List Value} {lexemes : List Lexeme}
    (h : AreGroups style lineComments values lexemes)
    (hname : Text.IsWord lineComments ('-' :: '-' :: tail)) (hraw : ofGroups values ≠ raw []) :
    ∃ written, IsWritten style lineComments (var ('-' :: '-' :: tail) (some (ofGroups values)))
      written ∧ MayEnclose (Lexeme.comma :: (style.gap ++ lexemes)) written := by
  have hbehind := (h.gap h.solid style).comma
  refine Value.isWritten_var hname hbehind.inside (fun _ => separates_cons rfl _) ?_ rfl
    (congrArg some (h.ofFallback_void style.isVoid_gap))
  rw [fallbackText_of_ne _ hraw, text_cons, text_append, style.text_gap, h.text_eq,
    toText_ofGroups]
  rfl

theorem parse_of_balanced {lexemes : List Lexeme} (h : isBalanced lexemes = true) :
    parse lexemes = (parseGroups (splitCommas lexemes).toList).map ofGroups :=
  if_pos h

/-- What cannot be read as groups cannot be read with other trivia either. -/
theorem exists_parseGroups_error {fallback ys trivia : List Lexeme}
    (hys : Respaced (trim fallback) ys) (hbalanced : Balanced fallback)
    (hvoid : isVoid trivia = true) {error : ValueError}
    (herror : parseGroups (splitCommas fallback).toList = .error error) :
    ∃ error, parseGroups (splitCommas (trivia ++ ys)).toList = .error error := by
  have hparse : parse fallback = .error error := by
    rw [parse_of_balanced hbalanced.isBalanced, herror]
    rfl
  obtain ⟨error, hys'⟩ := exists_error_of_respaced hys hparse
  have hspaced : isBalanced (trivia ++ ys) = true := by
    have happend := @isBalanced_append trivia [] (plain_of_isVoid hvoid) (List.forall_mem_nil _) ys
    rw [List.append_nil] at happend
    rw [happend, hys.isBalanced_eq, isBalanced_trim, hbalanced.isBalanced]
  have hspace := @parse_append_void trivia [] hvoid rfl ys
  rw [List.append_nil, hys', parse_of_balanced hspaced] at hspace
  cases hgroups : parseGroups (splitCommas (trivia ++ ys)).toList with
  | error error => exact ⟨error, rfl⟩
  | ok values =>
    rw [hgroups] at hspace
    contradiction

theorem marks_comma_gap (style : Style) (lexemes : List Lexeme) :
    marks (Lexeme.comma :: (style.gap ++ lexemes)) = marks lexemes := by
  rw [marks_cons, marks_append, marks_of_isVoid style.isVoid_gap]
  rfl

/-- A fallback that is kept as source text. -/
theorem exists_isWritten_raw {tail : Text} {fallback : List Lexeme}
    (h : IsSource style lineComments fallback x) (hx : x ≠ []) (hbalanced : Balanced fallback)
    (hname : Text.IsWord lineComments ('-' :: '-' :: tail)) (hvoid : isVoid fallback = false)
    {error : ValueError} (herror : parseGroups (splitCommas fallback).toList = .error error) :
    ∃ written, IsWrittenCall style lineComments fallback
      (var ('-' :: '-' :: tail) (some (raw (rawText fallback)))) written := by
  obtain ⟨ys, hys, htext, hne, hbehind⟩ := h.exists_standInside hx hbalanced hvoid
  have hwhole : text (Lexeme.comma :: (style.gap ++ ys)) =
      fallbackText style (some (raw (rawText fallback))) := by
    have hraw : raw (rawText fallback) ≠ raw [] := by
      intro hnil
      rw [← htext] at hnil
      have hscanned := (eachStands_append.1 (hbehind.scanned []).2).2
      exact AreScanned.text_ne_nil hscanned hne (raw.inj hnil)
    rw [fallbackText_of_ne _ hraw, text_cons, text_append, style.text_gap, htext, toText]
    rfl
  have hread : ofFallback (style.gap ++ ys) = (raw (rawText fallback)).reread style := by
    -- with other spaces it is no more a value, and it has the same source text
    have hraw : rawText (style.gap ++ ys) = rawText fallback := by
      have hends := @Respaced.rawText_append _ ys style.gap [] hys style.isVoid_gap rfl
      rwa [List.append_nil, htext] at hends
    have hsolid : isVoid (style.gap ++ ys) = false := by
      rw [isVoid, List.all_append, ← isVoid, ← isVoid, style.isVoid_gap, hys.isVoid_eq,
        isVoid_trim, hvoid]
      rfl
    obtain ⟨error, hgroups⟩ := exists_parseGroups_error hys hbalanced style.isVoid_gap herror
    rw [ofFallback, hsolid, hgroups, hraw,
      reread_self (by simp only [unsigned]) (by simp only [recolored])]
    simp only [Bool.false_eq_true, if_false]
  obtain ⟨written, hwritten, hencloses⟩ := isWritten_var hname hbehind
    (fun _ => separates_cons rfl _) hwhole rfl (congrArg some hread)
  refine ⟨written, hwritten, _, .of_marks_eq ?_, hencloses⟩
  rw [marks_comma_gap, hys.marks_eq, marks_trim]

/-- `var()` with what it falls back on, which may be groups that are written. -/
theorem exists_isWritten_fallback {tail : Text} {fallback : List Lexeme}
    (h : IsSource style lineComments fallback x) (hx : x ≠ []) (hbalanced : Balanced fallback)
    (hname : Text.IsWord lineComments ('-' :: '-' :: tail))
    (hgroups : ∀ values, parseGroups (splitCommas fallback).toList = .ok values →
      ∃ lexemes, AreGroups style lineComments values lexemes ∧ Fits fallback lexemes) :
    ∃ written, IsWrittenCall style lineComments fallback
      (var ('-' :: '-' :: tail) (some (ofFallback fallback))) written := by
  have hempty : (raw []).reread style = raw [] :=
    reread_self (by simp only [unsigned]) (by simp only [recolored]) style
  unfold ofFallback
  split
  · rename_i hvoid
    have hnothing : Stand lineComments [] := .nil
    obtain ⟨written, hwritten, hencloses⟩ := @isWritten_var style _ _ (some (raw [])) _ _ hname
      hnothing.comma.inside (fun _ => separates_cons rfl _) (by rw [fallbackText]; rfl) rfl
      (congrArg some hempty.symm)
    refine ⟨written, hwritten, _, .of_marks_eq ?_, hencloses⟩
    rw [marks_of_isVoid hvoid]
    rfl
  · rename_i hsolid
    rw [Bool.not_eq_true] at hsolid
    split
    · rename_i values hread
      obtain ⟨lexemes, hlexemes, hfits⟩ := hgroups values hread
      have hparse : parse fallback = .ok (ofGroups values) := by
        rw [parse_of_balanced hbalanced.isBalanced, hread]
        rfl
      obtain ⟨written, hwritten, hencloses⟩ := hlexemes.isWritten_var hname fun hraw => by
        have hnone := isRaw_of_parse hparse
        rw [hraw] at hnone
        contradiction
      exact ⟨written, hwritten, _, hfits.congr_written (marks_comma_gap ..), hencloses⟩
    · rename_i herror
      exact exists_isWritten_raw h hx hbalanced hname hsolid herror

/-- What fits in place of a fallback fits in place of all that the brackets of `var()` hold. -/
theorem fits_of_cutVariable {inner written : List Lexeme} {name : Text}
    {fallback : Option (List Lexeme)} (hread : cutVariable inner = .ok (name, fallback))
    (h : Fits (fallback.getD []) written) : Fits inner written := by
  unfold cutVariable at hread
  split at hread
  · contradiction
  · rename_i tail rest hnext
    refine .of_next? hnext rfl ?_
    split at hread
    · rename_i hvoid
      obtain ⟨-, rfl⟩ := Prod.mk.inj (Except.ok.inj hread)
      exact h.of_subset (List.nil_subset _) (marks_of_isVoid (next?_eq_none hvoid))
    · rename_i behind hbehind
      obtain ⟨-, rfl⟩ := Prod.mk.inj (Except.ok.inj hread)
      exact .of_next? hbehind rfl h
    · contradiction
  · contradiction

/-- `var()` of what its brackets hold, where the groups of a fallback are written. -/
theorem exists_isWritten_variable {inner : List Lexeme} {value : Value}
    (h : IsSource style lineComments inner x) (hx : x ≠ []) (hbalanced : Balanced inner)
    (hgroups : ∀ {behind : List Lexeme} {values : List Value}, behind.length ≤ inner.length →
      IsSource style lineComments behind x → Balanced behind →
        parseGroups (splitCommas behind).toList = .ok values →
          ∃ lexemes, AreGroups style lineComments values lexemes ∧ Fits behind lexemes)
    (hread : (cutVariable inner).map (fun cut => var cut.1 (cut.2.map ofFallback)) = .ok value) :
    ∃ written, IsWrittenCall style lineComments inner value written := by
  obtain ⟨⟨property, fallback⟩, hcut, rfl⟩ := exists_of_map_eq_ok hread
  obtain ⟨⟨hname, tail, rfl⟩, hbehind⟩ := isSource_of_cutVariable h hbalanced hcut
  cases fallback with
  | none =>
    obtain ⟨written, hwritten, hencloses⟩ := @isWritten_var style _ _ none _ _ hname
      Stand.nil.inside (fun _ => separates_cons rfl _) rfl rfl rfl
    exact ⟨written, hwritten, _, fits_of_cutVariable hcut (.of_marks_eq rfl), hencloses⟩
  | some behind =>
    have hlength := length_of_cutVariable hcut
    obtain ⟨hsource, hbalanced'⟩ := hbehind behind rfl
    obtain ⟨written, hwritten, inside, hfits, hencloses⟩ :=
      exists_isWritten_fallback hsource hx hbalanced' hname fun _ =>
        hgroups (by omega) hsource hbalanced'
    exact ⟨written, hwritten, inside, fits_of_cutVariable hcut hfits, hencloses⟩

/-! ### Values -/

/-- What is read first as a sign is a sign. -/
theorem exists_next?_of_parseItems {lexemes : List Lexeme} {sign : Delimiter} {items : List Value}
    (h : parseItems lexemes = .ok (delimiter sign :: items)) :
    ∃ rest, next? lexemes = some (.delim sign.toChar, rest) := by
  induction lexemes with
  | nil =>
    rw [parseItems_nil] at h
    exact absurd (Except.ok.inj h).symm (List.cons_ne_nil _ _)
  | cons lexeme lexemes ih =>
    rw [parseItems_cons] at h
    split at h
    · rename_i htrivia
      rw [next?_of_isTrivia htrivia]
      exact ih h
    rename_i hsolid
    split at h
    · cases hcut : cutBlock? lexemes with
      | none =>
        rw [hcut] at h
        contradiction
      | some block =>
        rw [hcut] at h
        obtain ⟨value, more, hvalue, -, hcons⟩ := exists_of_cons_eq_ok h
        exact absurd (List.cons.inj hcons).1.symm (ne_sign_of_parseCall hvalue sign)
    · obtain ⟨value, more, hvalue, -, hcons⟩ := exists_of_cons_eq_ok h
      obtain ⟨rfl, -⟩ := List.cons.inj hcons
      rw [next?_of_not_isTrivia (Bool.eq_false_iff.2 hsolid), token_of_ofToken_sign hvalue]
      exact ⟨lexemes, rfl⟩

/-- Behind a slash that is to be minified no item is read that would make it the start of a
comment. -/
theorem isTight_of_slash {lexeme : Lexeme} {lexemes : List Lexeme} {next : Value}
    {items : List Value} (h : slashesApart (lexeme :: lexemes) = true)
    (hslash : ofToken lexeme.token = .ok (delimiter .slash))
    (hread : parseItems lexemes = .ok (next :: items)) : next.isTight = false := by
  rw [slashesApart, token_of_ofToken_sign hslash, Bool.and_eq_true] at h
  have hnext : ∀ sign : Delimiter, sign.isTight = true → next ≠ delimiter sign := by
    rintro sign htight rfl
    obtain ⟨rest, hfirst⟩ := exists_next?_of_parseItems hread
    rw [hfirst] at h
    cases sign with
    | slash => exact absurd h.1 (by simp [Delimiter.toChar])
    | star => exact absurd h.1 (by simp [Delimiter.toChar])
    | plus => contradiction
    | minus => contradiction
  cases next with
  | delimiter sign => exact Bool.eq_false_iff.2 fun htight => hnext sign htight rfl
  | _ => rfl

/-- Items behind a value, or none. -/
theorem IsWritten.exists_areItems {value : Value} {items : List Value} {lexemes more : List Lexeme}
    (h : IsWritten style lineComments value lexemes)
    (hitems : items = [] ∧ more = [] ∨ AreItems style lineComments items more)
    (hsigns : style.minify = true → value = delimiter .slash →
      ∀ next ∈ items.head?, next.isTight = false) :
    ∃ written, AreItems style lineComments (value :: items) written ∧
      marks written = marks lexemes ++ marks more := by
  obtain ⟨rfl, rfl⟩ | hmore := hitems
  · exact ⟨_, h.areItems, (List.append_nil _).symm⟩
  · obtain ⟨next, items, rfl⟩ := List.exists_cons_of_ne_nil hmore.ne_nil
    refine ⟨_, .cons h hmore fun hminify hslash => hsigns hminify hslash next rfl, ?_⟩
    rw [marks_append, marks_append, marks_of_isVoid (isVoid_itemGap ..), List.nil_append]

theorem AreItems.exists_areGroups {items values : List Value} {lexemes more : List Lexeme}
    (h : AreItems style lineComments items lexemes)
    (hvalues : values = [] ∧ more = [] ∨ AreGroups style lineComments values more) :
    ∃ written, AreGroups style lineComments (spaceList items :: values) written ∧
      marks written = marks lexemes ++ marks more := by
  obtain ⟨rfl, rfl⟩ | hmore := hvalues
  · exact ⟨_, h.areGroups, (List.append_nil _).symm⟩
  · obtain ⟨next, values, rfl⟩ := List.exists_cons_of_ne_nil hmore.ne_nil
    refine ⟨_, .cons h hmore, ?_⟩
    rw [marks_append, marks_comma_gap]

/-- A component on its own is no mark. -/
theorem mark?_of_ofToken {token : Token} {value : Value} (h : ofToken token = .ok value) :
    token.mark? = none := by
  obtain ⟨hopens, hcloses⟩ := no_bracket_of_ofToken h
  refine Token.mark?_eq_none.2 ⟨hopens, hcloses, ?_⟩
  rintro rfl
  contradiction

/-! Whatever is read as a value is written, by the recursion of the reader, as lexemes that fit in
place of those it is read from. -/

mutual

theorem exists_areItems {x : Text} {lexemes : List Lexeme} {items : List Value}
    (h : IsSource style lineComments lexemes x) (hbalanced : Balanced lexemes)
    (hread : parseItems lexemes = .ok items) :
    ∃ written, (items = [] ∧ written = [] ∨ AreItems style lineComments items written) ∧
      Fits lexemes written := by
  match lexemes with
  | [] =>
    rw [parseItems_nil] at hread
    exact ⟨[], .inl ⟨(Except.ok.inj hread).symm, rfl⟩, .of_marks_eq rfl⟩
  | lexeme :: lexemes =>
    rw [parseItems_cons] at hread
    split at hread
    · rename_i htrivia
      obtain ⟨written, hwritten, hfits⟩ :=
        exists_areItems h.tail (hbalanced.of_plain (Token.opens?_of_isTrivia htrivia)) hread
      exact ⟨written, hwritten, hfits.cons (Token.mark?_of_isTrivia htrivia)⟩
    split at hread
    · rename_i name htoken
      have hspells := h.read.1.spells_function htoken
      cases hcut : cutBlock? lexemes with
      | none =>
        rw [hcut] at hread
        contradiction
      | some block =>
        have hlength := length_of_cutBlock? hcut
        obtain ⟨hinner, hne, hrest⟩ := h.tail.of_cutBlock? hcut
        have hopens : lexeme.token.opens? = some .round := by
          rw [htoken]
          rfl
        obtain ⟨hinside, hbehind⟩ := hbalanced.of_cutBlock? hopens hcut
        rw [hcut] at hread
        obtain ⟨value, items, hvalue, hitems, rfl⟩ := exists_of_cons_eq_ok hread
        obtain ⟨call, hcall, inside, hfits, hencloses⟩ :=
          exists_isWritten hspells hinner hne hinside hvalue
        obtain ⟨more, hmore, hfitsMore⟩ := exists_areItems hrest hbehind hitems
        obtain ⟨written, hwritten, hmarks⟩ := hcall.exists_areItems hmore
          fun _ hslash => absurd hslash (ne_sign_of_parseCall hvalue .slash)
        refine ⟨written, .inr hwritten, ?_⟩
        obtain ⟨cut, hcut', hcloses⟩ := hbalanced.exists_cutBlock? hopens
        obtain rfl := Option.some.inj (hcut.symm.trans hcut')
        have hwhole := (hfits.call htoken hcloses hinside hencloses).append hfitsMore
        rw [cutBlock?_eq_some hcut, List.append_cons]
        exact hwhole.congr_written (by rw [hmarks, marks_append])
    · obtain ⟨value, items, hvalue, hitems, rfl⟩ := exists_of_cons_eq_ok hread
      obtain ⟨-, hexponent⟩ := h.good lexeme List.mem_cons_self
      have hplain := h.plain
      rw [text_cons, List.append_assoc] at hplain
      obtain ⟨first, hfirst, hplain⟩ :=
        exists_isWritten_of_isRead h.read.1 hplain hexponent hvalue
      have hopens := (no_bracket_of_ofToken hvalue).1
      obtain ⟨more, hmore, hfits⟩ := exists_areItems h.tail (hbalanced.of_plain hopens) hitems
      obtain ⟨written, hwritten, hmarks⟩ := hfirst.exists_areItems hmore <| by
        rintro hminify rfl next hnext
        obtain ⟨items, rfl⟩ := List.head?_eq_some_iff.1 hnext
        exact isTight_of_slash (h.apart hminify) hvalue hitems
      refine ⟨written, .inr hwritten, fun hurls => ?_⟩
      have hfirst := hplain (hurls lexeme List.mem_cons_self)
      have hwhole : Fits (lexeme :: lexemes) written :=
        (hfits.cons (mark?_of_ofToken hvalue)).congr_written
          (by rw [hmarks, hfirst, List.nil_append])
      exact hwhole hurls
termination_by 2 * lexemes.length
decreasing_by all_goals (simp only [List.length_cons]; omega)

theorem exists_areGroups {groups : List (List Lexeme)} {values : List Value}
    (h : ∀ group ∈ groups, Balanced group ∧ ∃ x, IsSource style lineComments group x)
    (hread : parseGroups groups = .ok values) :
    ∃ written, (values = [] ∧ written = [] ∨ AreGroups style lineComments values written) ∧
      Fits groups.flatten written := by
  match groups with
  | [] =>
    rw [parseGroups_nil] at hread
    exact ⟨[], .inl ⟨(Except.ok.inj hread).symm, rfl⟩, .of_marks_eq rfl⟩
  | group :: groups =>
    obtain ⟨items, values, hitems, hne, hvalues, rfl⟩ := exists_of_parseGroups_cons hread
    obtain ⟨hbalanced, x, hsource⟩ := h group List.mem_cons_self
    obtain ⟨left, hleft, hfits⟩ := exists_areItems hsource hbalanced hitems
    obtain ⟨right, hright, hfitsRight⟩ :=
      exists_areGroups (fun group hmem => h group (List.mem_cons_of_mem _ hmem)) hvalues
    obtain ⟨written, hwritten, hmarks⟩ :=
      (hleft.resolve_left fun hnil => hne hnil.1).exists_areGroups hright
    exact ⟨written, .inr hwritten,
      (hfits.append hfitsRight).congr_written (by rw [hmarks, marks_append])⟩
termination_by 2 * totalLength groups
decreasing_by all_goals (simp only [totalLength]; omega)

/-- A function of what its brackets hold. -/
theorem exists_isWritten {x y name raw : Text} {inner : List Lexeme} {value : Value}
    (hspells : Token.Spells lineComments y (.function name) raw)
    (h : IsSource style lineComments inner x) (hx : x ≠ []) (hbalanced : Balanced inner)
    (hread : parseCall name inner = .ok value) :
    ∃ written, IsWrittenCall style lineComments inner value written := by
  have hgroups : ∀ {part : List Lexeme} {z : Text} {values : List Value},
      part.length ≤ inner.length → IsSource style lineComments part z → Balanced part →
        parseGroups (splitCommas part).toList = .ok values →
          ∃ written, AreGroups style lineComments values written ∧ Fits part written := by
    intro part z values hlength hpart hbalanced hvalues
    obtain ⟨written, hwritten, hfits⟩ := exists_areGroups (hpart.splitCommas hbalanced) hvalues
    have hne := ne_nil_of_parseGroups hvalues
    exact ⟨written, hwritten.resolve_left fun hnil => hne hnil.1, .of_splitCommas hfits⟩
  cases hurl : name.isKeyword "url" with
  | true =>
    rw [parseCall_eq, if_pos hurl] at hread
    exact exists_isWritten_quotedUrl h hread
  | false =>
    cases hvar : name.isKeyword "var" with
    | true =>
      rw [parseCall_eq_var hurl hvar] at hread
      exact exists_isWritten_variable h hx hbalanced hgroups hread
    | false =>
      have hplain : isPlainCall name = true := by
        rw [isPlainCall, hurl, hvar]
        rfl
      exact exists_isWritten_plainCall hplain (spells_call hspells hurl)
        (hgroups (Nat.le_refl _) h hbalanced) hread
termination_by 2 * inner.length + 3
decreasing_by
  all_goals
    rw [totalLength_splitCommas]
    omega

end

/-- Groups that are written are read back from their text. -/
theorem AreGroups.parse_all {values : List Value} {lexemes : List Lexeme}
    (h : AreGroups style lineComments values lexemes) :
    parse ((Reading.all lineComments 0 ((ofGroups values).toText style)).map (·.lexeme)) =
      .ok ((ofGroups values).reread style) := by
  have hscanned := h.scanned [] (fun _ hmem => by contradiction)
  rw [toText_ofGroups, ← h.text_eq, ← moves_bare.value_map, Reading.bare_all hscanned.isRead,
    moves_bare.value_map]
  exact h.parse_eq

/-- A value that is read from a text is read back from what is written for it in any style. -/
theorem parse_all {text : Text} (hplain : '\\' ∉ text)
    (hgood : ∀ lexeme ∈ (Reading.all lineComments 0 text).map (·.lexeme),
      lexeme.token.isBad = false ∧ lexeme.token.hasExponent = false)
    (hapart : style.minify = true →
      slashesApart ((Reading.all lineComments 0 text).map (·.lexeme)) = true)
    {value : Value}
    (hread : parse ((Reading.all lineComments 0 text).map (·.lexeme)) = .ok value) :
    parse ((Reading.all lineComments 0 (value.toText style)).map (·.lexeme)) =
      .ok (value.reread style) := by
  have hall := Reading.areRead_all lineComments 0 hplain
  have hsource :
      IsSource style lineComments ((Reading.all lineComments 0 text).map (·.lexeme)) [] := by
    refine ⟨hall, fun lexeme hmem => ?_, hapart⟩
    obtain ⟨hbad, hexponent⟩ := hgood lexeme hmem
    exact ⟨hbad, hall.hasExponentUnit_eq_false hmem hexponent⟩
  obtain ⟨hbalanced, values, hvalues, rfl⟩ := exists_of_parse hread
  have hgroups := hsource.splitCommas (balanced_of_isBalanced hbalanced)
  obtain ⟨lexemes, hlexemes, -⟩ := exists_areGroups hgroups hvalues
  have hne := ne_nil_of_parseGroups hvalues
  exact (hlexemes.resolve_left fun hnil => hne hnil.1).parse_all

end Value

end Css
