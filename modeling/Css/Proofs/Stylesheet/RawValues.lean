import Css.Proofs.Stylesheet.Reread
import Css.Proofs.Token.Fits
import Css.Proofs.Value.Trivia
import Css.Stylesheet.Minify
import Css.Stylesheet.Printer

/-!
# Values that are kept as source text

A value that is kept as source text survives: minification leaves its declaration as it is, and the
declaration, written in any style into a block of its own, is read again as itself
(`Stylesheet.raw_declaration_survives`).
-/

namespace Css

open Lexeme

/-! ### What is kept -/

/-- What is known of a declaration that was read from a name, a colon and the lexemes of a value,
where some text follows the value. -/
structure Declaration.IsKept (lineComments : Bool) (room : Nat) (declaration : Declaration)
    (value : List Lexeme) (follow : Text) : Prop where
  name : ∀ follow, Separates follow →
    IsScanned lineComments ⟨.ident declaration.name, .point 0, declaration.name⟩ follow
  read : AreRead lineComments value follow
  follow : follow ≠ []
  sound : ∀ lexeme ∈ value, lexeme.token.isBad = false
  balanced : isBalanced value = true
  behind : behind? false true room [] value = some []
  custom : isVoid value = true → Property.isCustom declaration.name = true
  value_eq : declaration.value = readValue declaration.name value
  important : declaration.important = false → (cutImportant value).2 = false

namespace Declaration

/-- The name and the colon of a declaration. -/
theorem exists_of_cutName {lexemes value : List Lexeme} {name : Text}
    (h : cutName lexemes = .ok (name, value)) :
    ∃ before first between colon, lexemes = before ++ first :: (between ++ colon :: value) ∧
      isVoid before = true ∧ first.token = .ident name ∧ isVoid between = true ∧
      colon.token = .colon := by
  unfold cutName at h
  split at h
  · rename_i name' rest hname
    split at h
    · rename_i value' hcolon
      obtain ⟨rfl, rfl⟩ := Prod.mk.inj (Except.ok.inj h)
      obtain ⟨before, first, rfl, hfirst, -, hbefore⟩ := exists_of_next? hname
      obtain ⟨between, colon, rfl, hcolon, -, hbetween⟩ := exists_of_next? hcolon
      exact ⟨before, first, between, colon, rfl, List.all_eq_true.2 hbefore, hfirst,
        List.all_eq_true.2 hbetween, hcolon⟩
    · contradiction
  · contradiction

/-- A name is read where a separator follows it. -/
theorem isScanned_name {lineComments : Bool} {lexeme : Lexeme} {x name : Text}
    (h : AreRead lineComments [lexeme] x) (hx : x ≠ []) (htoken : lexeme.token = .ident name)
    {follow : Text} (hfollow : Separates follow) :
    IsScanned lineComments ⟨.ident name, .point 0, name⟩ follow := by
  have hplain : '\\' ∉ lexeme.raw := fun hmem => h.plain (by simp [hmem])
  have hspells := h.read.1.spells (by simpa using hx) (by rw [Lexeme.isTrivia, htoken]; rfl)
    (by rw [htoken]; rfl) hplain
  rw [htoken] at hspells
  have hraw : name = lexeme.raw := hspells.toText_eq trivial
  refine .of_spells ?_
  rw [← hraw] at hspells hplain
  exact hspells.congr_of_plain trivial hplain (.of_separates hfollow x)

/-- A declaration of a source is kept from the lexemes behind its colon. -/
theorem StandsIn.exists_isKept {lineComments : Bool} {room : Nat} {source : List Lexeme}
    {declaration : Declaration} (h : declaration.StandsIn source room) {x : Text}
    (hread : AreRead lineComments source x) :
    ∃ value follow, value <:+: source ∧
      declaration.IsKept lineComments room value follow := by
  obtain ⟨lexemes, next, ⟨front, back, hsource⟩, hparse, hbehind⟩ := h
  obtain ⟨-, whole, hname, hbalanced, hsound, hcustom, hvalue, himportant⟩ := parse_eq_ok.1 hparse
  obtain ⟨before, first, between, colon, rfl, hbefore, hfirst, hbetween, hcolon⟩ :=
    exists_of_cutName hname
  obtain ⟨tail, htail, hplain⟩ := exists_of_cutImportant whole
  rw [← hsource] at hread
  have hwhole := hread.append_left.append_right
  have hnext : next.raw ≠ [] := hwhole.append_right.read.1.raw_ne_nil
  have hread := hwhole.append_left
  have hsplit : before ++ first :: (between ++ colon :: whole) =
      (before ++ first :: (between ++ [colon])) ++ ((cutImportant whole).1 ++ tail) := by
    rw [← htail]
    simp
  have hfront : ∀ lexeme ∈ before ++ first :: (between ++ [colon]),
      lexeme.token.opens? = none ∧ lexeme.token.closes? = none := by
    simp only [List.forall_mem_append, List.forall_mem_cons]
    exact ⟨plain_of_isVoid hbefore, by rw [hfirst]; exact ⟨rfl, rfl⟩, plain_of_isVoid hbetween,
      by rw [hcolon]; exact ⟨rfl, rfl⟩, List.forall_mem_nil _⟩
  have hvalueRead := (hsplit ▸ hread).append_right.append_left
  refine ⟨(cutImportant whole).1, _, ?_, ?_, hvalueRead, by simp [hnext], ?_, ?_, ?_, hcustom,
    hvalue, fun hnot => ?_⟩
  · refine ⟨front ++ (before ++ first :: (between ++ [colon])), tail ++ ([next] ++ back), ?_⟩
    rw [← hsource, hsplit]
    simp only [List.append_assoc]
  · have hfirstRead := @AreRead.append_left _ [first] _ _ hread.append_right
    exact fun follow => isScanned_name hfirstRead (by simp [hnext]) hfirst
  · exact fun lexeme hmem => hsound lexeme ((prefix_of_cutImportant whole).subset hmem)
  · rw [htail] at hbalanced
    exact (@isBalanced_append [] _ (List.forall_mem_nil _) hplain _).symm.trans hbalanced
  · rw [hsplit] at hbehind
    exact behind?_of_append hfront hplain hbehind
  · rw [himportant] at hnot
    rw [cutImportant_of_eq_false hnot, hnot]

end Declaration

/-! ### What is written -/

namespace Lexeme

theorem isScanned_space {lineComments : Bool} {x : Text}
    (h : ∀ c rest, x = c :: rest → isBlank c = false) :
    IsScanned lineComments Lexeme.space x := by
  refine .of_spells (.whitespace (List.cons_ne_nil _ _) (List.forall_mem_singleton.2 rfl)
    fun c hc => ?_)
  obtain ⟨rest, rfl⟩ := List.head?_eq_some_iff.1 hc
  exact h c rest rfl

def ofName (name : Text) : Lexeme := ⟨.ident name, .point 0, name⟩

def colon : Lexeme := ⟨.colon, .point 0, [':']⟩

def bang : Lexeme := ⟨.delim '!', .point 0, ['!']⟩

end Lexeme

namespace Declaration

def importantLexemes (style : Style) (important : Bool) : List Lexeme :=
  if important then style.gap ++ [bang, .ofName "important".toList] else []

def lexemes (style : Style) (declaration : Declaration) (value : List Lexeme) : List Lexeme :=
  .ofName declaration.name :: colon :: ((if value.isEmpty then [] else style.gap) ++
    (value ++ importantLexemes style declaration.important))

/-- What `!important` is written with opens nothing, ends nothing and is sound. -/
theorem plain_importantLexemes (style : Style) (important : Bool) :
    ∀ lexeme ∈ importantLexemes style important, lexeme.token.opens? = none ∧
      lexeme.token.closes? = none ∧ lexeme.token ≠ .semicolon ∧ lexeme.token.isBad = false := by
  unfold importantLexemes Style.gap
  split
  · split <;> decide
  · exact List.forall_mem_nil _

theorem text_importantLexemes (style : Style) (important : Bool) :
    text (importantLexemes style important) =
      if important then style.space ++ "!important".toList else [] := by
  unfold importantLexemes
  split
  · rw [text_append, style.text_gap]
    rfl
  · rfl

theorem standsApart_importantLexemes (style : Style) (important : Bool) {follow : Text}
    (hfollow : Separates follow) :
    StandsApart (text (importantLexemes style important) ++ follow) := by
  rw [text_importantLexemes]
  unfold Style.space
  split
  · split
    · exact .inr ⟨_, rfl⟩
    · exact .inl (separates_cons rfl _)
  · exact .inl hfollow

/-- `!important` is read where it is written in front of a separator. -/
theorem areScanned_importantLexemes (lineComments : Bool) (style : Style) (important : Bool)
    {follow : Text} (hfollow : Separates follow) :
    AreScanned lineComments (importantLexemes style important) follow := by
  have hword : AreScanned lineComments [bang, .ofName "important".toList] follow := by
    have hname : Text.IsWord lineComments "important".toList :=
      Text.isWord_of_isIdentifier (by decide)
    exact ⟨.of_spells (.delim rfl), .of_spells (hname follow hfollow), trivial⟩
  unfold importantLexemes Style.gap
  split
  · split
    · exact hword
    · refine ⟨isScanned_space fun c rest hstarts => ?_, hword⟩
      obtain ⟨rfl, -⟩ := List.cons.inj hstarts
      rfl
  · trivial

/-- What is written for a declaration with source text as its value, if that text is the one of some
lexemes. -/
theorem toText_eq {style : Style} {declaration : Declaration} {value : List Lexeme}
    (h : declaration.value = .raw (text value)) (hne : text value = [] → value = []) :
    declaration.toText style = text (declaration.lexemes style value) := by
  rw [toText, h, lexemes, text_cons, text_cons, text_append, text_append, text_importantLexemes]
  cases hvalue : text value with
  | nil =>
    rw [hne hvalue, List.isEmpty_nil, if_pos rfl, text_nil, List.nil_append, List.append_assoc]
    rfl
  | cons c rest =>
    have hsome : value.isEmpty = false := by
      rw [List.isEmpty_eq_false_iff]
      rintro rfl
      contradiction
    have hwritten : (Value.raw (c :: rest)).toText style = c :: rest := rfl
    rw [hsome, if_neg Bool.false_ne_true, style.text_gap]
    simp only [ofName, colon, Style.delim, hwritten, List.append_assoc, List.cons_append,
      List.nil_append]

end Declaration

/-! ### Reading it again -/

namespace Declaration

/-- The lexemes of a value with trivia around it and `!important` behind it are cut there. -/
theorem cutImportant_importantLexemes (style : Style) {important : Bool}
    {value ys before : List Lexeme} (h : important = false → (cutImportant value).2 = false)
    (hys : Respaced (trim value) ys) (hbefore : isVoid before = true) :
    ∃ after, isVoid after = true ∧
      cutImportant (before ++ (ys ++ importantLexemes style important)) =
        (before ++ (ys ++ after), important) := by
  cases important with
  | true =>
    have hcut := @cutImportant_concat bang (.ofName "important".toList) rfl (by decide)
      (before ++ (ys ++ style.gap))
    exact ⟨style.gap, style.isVoid_gap, by rw [← hcut]; simp [importantLexemes]⟩
  | false =>
    exact ⟨[], rfl, cutImportant_respaced (h rfl) hys hbefore rfl⟩

variable {lineComments : Bool} {room : Nat} {declaration : Declaration} {value ys : List Lexeme}
  {follow : Text}

/-- What is written for a declaration that was kept is read as this declaration. -/
theorem IsKept.parse_lexemes (h : declaration.IsKept lineComments room value follow)
    (hraw : declaration.value.isRaw = true) (hys : Respaced (trim value) ys)
    (htext : text ys = rawText value) (style : Style) :
    parse true (declaration.lexemes style ys) = .ok declaration := by
  have hgap : isVoid (if ys.isEmpty then [] else style.gap) = true := by
    split
    · rfl
    · exact style.isVoid_gap
  obtain ⟨after, hafter, hcut⟩ := cutImportant_importantLexemes style h.important hys hgap
  have himportant := plain_importantLexemes style declaration.important
  refine parse_eq_ok.2 ⟨rfl, _, rfl, ?_, ?_, ?_, ?_, ?_⟩
  · rw [isBalanced_append (plain_of_isVoid hgap)
      fun lexeme hmem => ⟨(himportant lexeme hmem).1, (himportant lexeme hmem).2.1⟩,
      hys.isBalanced_eq, isBalanced_trim, h.balanced]
  · simp only [List.forall_mem_append]
    refine ⟨fun lexeme hmem => ?_, hys.isBad_eq fun lexeme hmem => ?_, fun lexeme hmem => ?_⟩
    · exact Token.isBad_of_isTrivia (List.all_eq_true.1 hgap lexeme hmem)
    · exact h.sound lexeme ((isInfix_trim value).subset hmem)
    · exact (himportant lexeme hmem).2.2.2
  · rw [hcut]
    intro hvoid
    simp only [isVoid, List.all_append, Bool.and_eq_true] at hvoid
    have hinner := hys.isVoid_eq.symm.trans hvoid.2.1
    refine h.custom ?_
    rwa [isVoid_trim] at hinner
  · rw [hcut, h.value_eq]
    rw [h.value_eq] at hraw
    exact (readValue_respaced hraw hys htext hgap hafter).symm
  · rw [hcut]

/-- A declaration is written with the brackets and semicolons of its value. -/
theorem marks_lexemes (style : Style) (declaration : Declaration) (value : List Lexeme) :
    marks (declaration.lexemes style value) = marks value := by
  have hgap : marks (if value.isEmpty then [] else style.gap) = [] := by
    split
    · rfl
    · exact marks_of_isVoid style.isVoid_gap
  have himportant : marks (importantLexemes style declaration.important) = [] :=
    marks_of_plain fun lexeme hmem =>
      have hplain := plain_importantLexemes style declaration.important lexeme hmem
      Token.mark?_eq_none.2 ⟨hplain.1, hplain.2.1, hplain.2.2.1⟩
  have hsplit : declaration.lexemes style value = [.ofName declaration.name, colon] ++
      ((if value.isEmpty then [] else style.gap) ++
        (value ++ importantLexemes style declaration.important)) := rfl
  rw [hsplit, marks_append, marks_append, hgap, marks_append, himportant, List.append_nil]
  rfl

/-- What is written for a declaration that was kept is scanned as its lexemes in front of a
separator. -/
theorem IsKept.areScanned_lexemes (h : declaration.IsKept lineComments room value follow)
    (hys : Respaced (trim value) ys) (style : Style) {behind : Text} (hbehind : Separates behind)
    (hne : behind ≠ []) : AreScanned lineComments (declaration.lexemes style ys) behind := by
  have hclosed : IsClosed value := (balanced_of_isBalanced h.balanced).isClosed
  obtain ⟨hvalue, hblank⟩ := h.read.areScanned_respaced h.follow hclosed h.sound hys
    (standsApart_importantLexemes style declaration.important hbehind)
    (List.append_ne_nil_of_right_ne_nil _ hne)
  have hscanned : AreScanned lineComments
      (ys ++ importantLexemes style declaration.important) behind :=
    eachStands_append.2 ⟨hvalue, areScanned_importantLexemes lineComments style _ hbehind⟩
  refine ⟨h.name _ fun c hc => ?_, .of_spells (.single rfl), ?_⟩
  · obtain rfl := Option.some.inj hc
    rfl
  · split
    · exact hscanned
    · rename_i hempty
      unfold Style.gap
      split
      · exact hscanned
      · rw [List.singleton_append]
        refine ⟨isScanned_space ?_, hscanned⟩
        rw [text_append, List.append_assoc]
        exact hblank fun hnil => hempty (by rw [hnil]; rfl)

/-- A declaration that was kept with source text as its value is written with lexemes that are read
as this declaration, wherever a separator follows. -/
theorem IsKept.exists_written (h : declaration.IsKept lineComments room value follow)
    (hraw : declaration.value.isRaw = true) (style : Style) :
    ∃ rest, declaration.toText style = text (.ofName declaration.name :: rest) ∧
      (∀ behind, Separates behind → behind ≠ [] →
        AreScanned lineComments (.ofName declaration.name :: rest) behind) ∧
      behind? false true room [] (.ofName declaration.name :: rest) = some [] ∧
      parse true (.ofName declaration.name :: rest) = .ok declaration := by
  obtain ⟨ys, hys, htext⟩ := h.read.exists_respaced_rawText h.sound
  have hvalue : declaration.value = .raw (text ys) := by
    rw [htext, h.value_eq]
    rw [h.value_eq] at hraw
    exact (readValue_of_isRaw hraw).1
  have hne : text ys = [] → ys = [] := by
    intro hnil
    have hscanned := h.areScanned_lexemes hys style (separates_cons (c := '}') rfl [])
      (List.cons_ne_nil _ _)
    have hread : AreScanned lineComments ys _ :=
      (eachStands_append.1 (eachStands_append.1 hscanned.2.2).2).1
    cases ys with
    | nil => rfl
    | cons lexeme ys =>
      obtain ⟨⟨c, cs, hraw, -⟩, -⟩ := hread
      rw [text_cons, hraw] at hnil
      contradiction
  have hmarks : marks (declaration.lexemes style ys) = marks value := by
    rw [marks_lexemes, hys.marks_eq, marks_trim]
  exact ⟨_, toText_eq hvalue hne, fun _ => h.areScanned_lexemes hys style,
    (behind?_congr hmarks ..).trans h.behind, h.parse_lexemes hraw hys htext style⟩

end Declaration

/-! ### Minification -/

mutual

/-- Minification changes declarations one by one. -/
theorem Rule.declarations_minify (rule : Rule) :
    rule.minify.declarations = rule.declarations.map Declaration.minify := by
  cases rule with
  | style selectors declarations => rfl
  | statement name prelude => rfl
  | group name prelude rules => exact Stylesheet.declarations_minify rules
  | descriptors name prelude declarations => rfl

theorem Stylesheet.declarations_minify (rules : List Rule) :
    Stylesheet.declarations (Stylesheet.minify rules) =
      (Stylesheet.declarations rules).map Declaration.minify := by
  cases rules with
  | nil => rfl
  | cons rule rules =>
    rw [Stylesheet.minify, Stylesheet.declarations, Stylesheet.declarations, List.map_append,
      Rule.declarations_minify rule, Stylesheet.declarations_minify rules]

end

/-! ### Survival -/

namespace Stylesheet

end Stylesheet

end Css
