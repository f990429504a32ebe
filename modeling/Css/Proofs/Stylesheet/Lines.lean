import Css.Proofs.Stylesheet.Layout
import Css.Proofs.Stylesheet.RawValues
import Css.Proofs.Value.Grammar
import Css.Proofs.Value.Roundtrip

/-!
# Declarations that are read back

What is written for a declaration in readable style is read as this declaration, with unsigned zeros
(`IsDeclaration.exists_written`), and what is written for a block of declarations is read as them
(`AreDeclarations.exists_block`).
-/

namespace Css

open Lexeme

variable {lineComments : Bool} {room : Nat}

/-- Whether lexemes stand in a source from which everything is read back: without backslashes,
nothing in it cut short, no url among them empty and no unit among them an exponent. -/
structure Lexeme.IsFaithful (lineComments : Bool) (lexemes : List Lexeme) : Prop where
  sound : IsSound lineComments lexemes
  exponents : ∀ lexeme ∈ lexemes, lexeme.token.hasExponentUnit = false

theorem Lexeme.IsFaithful.part {part lexemes : List Lexeme} (h : IsFaithful lineComments lexemes)
    (hpart : part <:+: lexemes) : IsFaithful lineComments part where
  sound := h.sound.part hpart
  exponents lexeme hmem := h.exponents lexeme (hpart.subset hmem)

/-! ### Importance -/

section Bang

variable {bang : Lexeme} {rest : List Lexeme} (hbang : bang.token = .delim '!')
  (hrest : ∀ lexeme ∈ rest, lexeme.token.closes? = none ∧ lexeme.token ≠ .comma)
include hbang hrest

/-- A suffix without brackets and commas does not reach back to one. -/
theorem Lexeme.suffix_of_suffix_append {front back : List Lexeme} {lexeme : Lexeme}
    (hlexeme : ¬(lexeme.token.closes? = none ∧ lexeme.token ≠ .comma))
    (h : bang :: rest <:+ front ++ lexeme :: back) : bang :: rest <:+ back := by
  have hplain : ∀ other ∈ bang :: rest, other.token.closes? = none ∧ other.token ≠ .comma := by
    refine List.forall_mem_cons.2 ⟨?_, hrest⟩
    rw [hbang]
    exact ⟨rfl, Token.noConfusion⟩
  obtain hshort | hlong := List.suffix_or_suffix_of_suffix h
    (List.suffix_append front (lexeme :: back))
  · obtain heq | hshort := List.suffix_cons_iff.1 hshort
    · exact absurd (hplain lexeme (heq ▸ List.mem_cons_self)) hlexeme
    · exact hshort
  · exact absurd (hplain lexeme (hlong.subset List.mem_cons_self)) hlexeme

omit hrest in
theorem Lexeme.not_suffix_cons {lexeme : Lexeme} {lexemes : List Lexeme}
    (hlexeme : lexeme.token ≠ .delim '!') (h : ¬bang :: rest <:+ lexemes) :
    ¬bang :: rest <:+ lexeme :: lexemes := by
  intro hsuffix
  obtain heq | hsuffix := List.suffix_cons_iff.1 hsuffix
  · obtain rfl := (List.cons.inj heq).1
    exact hlexeme hbang
  · exact h hsuffix

/-- A bang is no component of a value, so components do not end in one and plain lexemes. -/
theorem Value.AreComponents.not_suffix {lexemes : List Lexeme} (h : AreComponents lexemes) :
    ¬bang :: rest <:+ lexemes := by
  cases h with
  | nil => exact fun hsuffix => List.cons_ne_nil _ _ (List.suffix_nil.1 hsuffix)
  | trivia htrivia hmore =>
    refine not_suffix_cons hbang (fun htoken => ?_) hmore.not_suffix
    rw [isTrivia, htoken] at htrivia
    contradiction
  | token hcomponent hmore =>
    refine not_suffix_cons hbang (fun htoken => ?_) hmore.not_suffix
    rw [htoken] at hcomponent
    cases hcomponent with
    | delim hc => simp at hc
  | @call opener closer _ inner _ _ hcloser _ hmore =>
    intro hsuffix
    apply hmore.not_suffix
    refine @suffix_of_suffix_append bang rest hbang hrest (opener :: inner) _ closer ?_ hsuffix
    simp [hcloser, Token.closes?]
termination_by lexemes.length
decreasing_by all_goals (simp only [List.length_append, List.length_cons]; omega)

theorem Value.IsGroupList.not_suffix {lexemes : List Lexeme} (h : IsGroupList lexemes) :
    ¬bang :: rest <:+ lexemes := by
  cases h with
  | one hgroup _ => exact hgroup.not_suffix hbang hrest
  | more _ _ hcomma hmore =>
    intro hsuffix
    apply hmore.not_suffix
    exact suffix_of_suffix_append hbang hrest (fun hnot => hnot.2 hcomma) hsuffix
termination_by lexemes.length
decreasing_by simp only [List.length_append, List.length_cons]; omega

end Bang

/-- What is read as a value does not end in `!important`. -/
theorem Declaration.cutImportant_of_parse {value : List Lexeme} {read : Value}
    (h : Value.parse value = .ok read) : (cutImportant value).2 = false := by
  rw [Bool.eq_false_iff]
  intro himportant
  obtain ⟨word, between, before, hword, hbang, himportant⟩ := cutImportant_eq_true_iff.1 himportant
  obtain ⟨trivia, lexeme, hreverse, rfl, -, htrivia⟩ := exists_of_next? hword
  obtain ⟨trivia', bang, rfl, hbang, -, htrivia'⟩ := exists_of_next? hbang
  obtain ⟨hbalanced, -⟩ := Value.exists_of_parse h
  have hgroups : Value.IsGroupList value :=
    ((Value.parse_iff_isGroupList value).2 hbalanced).1.1 ⟨read, h⟩
  have hplain : ∀ {lexeme : Lexeme}, lexeme.isTrivia = true →
      lexeme.token.closes? = none ∧ lexeme.token ≠ .comma := fun {lexeme} h =>
    ⟨Token.closes?_of_isTrivia h, fun hcomma => by
      rw [isTrivia, hcomma] at h
      contradiction⟩
  refine @Value.IsGroupList.not_suffix bang (trivia'.reverse ++ lexeme :: trivia.reverse) hbang ?_
    value hgroups ?_
  · intro other hmem
    rw [List.mem_append, List.mem_cons, List.mem_reverse, List.mem_reverse] at hmem
    obtain hmem | rfl | hmem := hmem
    · exact hplain (htrivia' other hmem)
    · generalize other.token = token at himportant ⊢
      cases token <;> first | exact ⟨rfl, Token.noConfusion⟩ | contradiction
    · exact hplain (htrivia other hmem)
  · rw [← List.reverse_reverse value, hreverse]
    simp

/-! ### Declarations -/

namespace Declaration

variable {declaration : Declaration} {value ys : List Lexeme} {follow : Text}

def reread (declaration : Declaration) : Declaration :=
  { declaration with value := declaration.value.reread .pretty }

theorem same_reread (declaration : Declaration) :
    declaration.same declaration.reread = true := by
  rw [same, reread, BEq.rfl, BEq.rfl, Bool.true_and, Bool.and_true]
  exact declaration.value.same_unsigned

/-- A value with a structure is read from groups that are written again in its place. -/
theorem IsKept.exists_areGroups (h : declaration.IsKept lineComments room value follow)
    (hfaithful : IsFaithful lineComments value) (hraw : declaration.value.isRaw = false) :
    Property.isKnown declaration.name = true ∧ ∃ values ys,
      Value.AreGroups .pretty lineComments values ys ∧ declaration.value = Value.ofGroups values ∧
        behind? false true room [] ys = some [] := by
  have hvalue := h.value_eq
  unfold readValue at hvalue
  split at hvalue
  · rename_i hknown
    cases hread : Value.parse value with
    | error error =>
      rw [hread] at hvalue
      rw [hvalue] at hraw
      contradiction
    | ok read =>
      rw [hread] at hvalue
      have hsource : IsSource .pretty lineComments value follow :=
        ⟨h.read, fun lexeme hmem => ⟨h.sound lexeme hmem, hfaithful.exponents lexeme hmem⟩,
          fun hminify => by contradiction⟩
      obtain ⟨hbalanced, values, hvalues, rfl⟩ := Value.exists_of_parse hread
      obtain ⟨ys, hys, hfits⟩ := Value.exists_areGroups
        (hsource.splitCommas (balanced_of_isBalanced hbalanced)) hvalues
      have hne := Value.ne_nil_of_parseGroups hvalues
      have hurls : ∀ lexeme ∈ value, lexeme.token ≠ .url [] := by
        obtain ⟨x, hgood⟩ := hfaithful.sound
        exact hgood.ne_url
      exact ⟨hknown, values, ys, hys.resolve_left fun hnil => hne hnil.1, hvalue,
        Fits.of_splitCommas hfits hurls _ _ _ _ _ h.behind⟩
  · rw [hvalue] at hraw
    contradiction

theorem separates_importantLexemes (important : Bool) {behind : Text} (hbehind : Separates behind) :
    Separates (text (importantLexemes .pretty important) ++ behind) := by
  cases important with
  | true => exact separates_cons rfl _
  | false => exact hbehind

theorem toText_lexemes (hraw : declaration.value.isRaw = false) (hne : ys ≠ [])
    (htext : text ys = declaration.value.toText .pretty) :
    declaration.toText .pretty = text (declaration.lexemes .pretty ys) := by
  have hempty : ys.isEmpty = false := List.isEmpty_eq_false_iff.2 hne
  rw [lexemes, text_cons, text_cons, text_append, text_append, text_importantLexemes, hempty,
    if_neg Bool.false_ne_true, Style.text_gap, htext, toText]
  split
  · rename_i hvalue
    rw [hvalue] at hraw
    contradiction
  · simp only [ofName, colon, Style.delim, List.append_assoc, List.cons_append, List.nil_append]

variable {values : List Value}

theorem IsKept.areScanned_areGroups (h : declaration.IsKept lineComments room value follow)
    (hys : Value.AreGroups .pretty lineComments values ys) {behind : Text}
    (hbehind : Separates behind) :
    AreScanned lineComments (declaration.lexemes .pretty ys) behind := by
  have hseparates := separates_importantLexemes declaration.important hbehind
  have hscanned : AreScanned lineComments
      (ys ++ importantLexemes .pretty declaration.important) behind :=
    eachStands_append.2 ⟨hys.scanned _ hseparates,
      areScanned_importantLexemes lineComments .pretty _ hbehind⟩
  have hname : Separates (text (colon :: ((if ys.isEmpty then [] else Style.pretty.gap) ++
      (ys ++ importantLexemes .pretty declaration.important))) ++ behind) :=
    separates_cons rfl _
  refine ⟨h.name _ hname, .of_spells (.single rfl), ?_⟩
  rw [List.isEmpty_eq_false_iff.2 hys.solid.ne_nil, if_neg Bool.false_ne_true]
  exact ⟨isScanned_blanks (List.cons_ne_nil _ _) (List.forall_mem_singleton.2 rfl)
    ((hys.solid.append _).isBlank_head hscanned), hscanned⟩

theorem IsKept.parse_areGroups (h : declaration.IsKept lineComments room value follow)
    (hknown : Property.isKnown declaration.name = true)
    (hys : Value.AreGroups .pretty lineComments values ys)
    (hvalues : declaration.value = Value.ofGroups values) :
    parse true (declaration.lexemes .pretty ys) = .ok declaration.reread := by
  have hgap : isVoid (if ys.isEmpty then [] else Style.pretty.gap) = true := by
    split <;> rfl
  have himportant := plain_importantLexemes .pretty declaration.important
  have hparse : ∀ {after : List Lexeme}, isVoid after = true →
      Value.parse ((if ys.isEmpty then [] else Style.pretty.gap) ++ (ys ++ after)) =
        .ok (declaration.value.reread .pretty) := by
    intro after hafter
    rw [Value.parse_append_void hgap hafter, hys.parse_eq, hvalues]
  obtain ⟨after, hafter, hcut⟩ : ∃ after, isVoid after = true ∧
      cutImportant ((if ys.isEmpty then [] else Style.pretty.gap) ++
        (ys ++ importantLexemes .pretty declaration.important)) =
          ((if ys.isEmpty then [] else Style.pretty.gap) ++ (ys ++ after),
            declaration.important) := by
    cases declaration.important with
    | true =>
      refine ⟨Style.pretty.gap, rfl, ?_⟩
      rw [← @cutImportant_concat bang (.ofName "important".toList) rfl (by decide)]
      simp [importantLexemes]
    | false =>
      exact ⟨[], rfl, cutImportant_of_eq_false (cutImportant_of_parse (@hparse [] rfl))⟩
  refine parse_eq_ok.2 ⟨rfl, _, rfl, ?_, ?_, ?_, ?_, ?_⟩
  · rw [isBalanced_append (plain_of_isVoid hgap)
      fun lexeme hmem => ⟨(himportant lexeme hmem).1, (himportant lexeme hmem).2.1⟩]
    exact hys.balanced.isBalanced
  · have hscanned := h.areScanned_areGroups hys (separates_cons (c := ';') rfl [])
    exact fun lexeme hmem => hscanned.isBad_eq_false lexeme
      (List.mem_cons_of_mem _ (List.mem_cons_of_mem _ hmem))
  · rw [hcut]
    intro hvoid
    simp only [isVoid, List.all_append, Bool.and_eq_true] at hvoid
    exact absurd (hys.solid.isVoid_eq.symm.trans hvoid.2.1) Bool.false_ne_true
  · rw [hcut, readValue, reread, if_pos hknown, hparse hafter]
  · rw [hcut, reread]

end Declaration

/-- What is written for a declaration is read as this declaration, with unsigned zeros. -/
theorem IsDeclaration.exists_written {source : List Lexeme} {next : Lexeme}
    {declaration : Declaration} (h : IsDeclaration room source declaration)
    (hfaithful : IsFaithful lineComments (source ++ [next])) :
    ∃ lexemes, Writes lineComments (lexemes ++ [semicolon])
        (declaration.toText .pretty ++ [';']) ∧ StartsSolid lexemes ∧
      IsDeclaration room lexemes declaration.reread := by
  obtain ⟨x, hsound⟩ := hfaithful.sound
  obtain ⟨value, follow, hpart, hkept⟩ := Declaration.StandsIn.exists_isKept
    ⟨source, next, List.infix_rfl, h.parse, h.goesOn⟩ hsound.toAreRead
  have hwrites : ∀ {rest : List Lexeme},
      declaration.toText .pretty = text (.ofName declaration.name :: rest) →
      (∀ behind, Separates behind → behind ≠ [] →
        AreScanned lineComments (.ofName declaration.name :: rest) behind) →
      Writes lineComments (.ofName declaration.name :: rest ++ [semicolon])
        (declaration.toText .pretty ++ [';']) := by
    intro rest htext hscanned
    refine ⟨by rw [text_append, htext]; rfl, fun behind _ => eachStands_append.2 ⟨?_, ?_⟩⟩
    · exact hscanned _ (separates_cons rfl _) (List.cons_ne_nil _ _)
    · exact ⟨isScanned_semicolon lineComments behind, trivial⟩
  cases hraw : declaration.value.isRaw with
  | true =>
    obtain ⟨rest, htext, hscanned, hbehind, hparse⟩ := hkept.exists_written hraw .pretty
    have hreread : declaration.reread = declaration := by
      obtain ⟨name, value, important⟩ := declaration
      cases value with
      | raw content => rfl
      | _ => contradiction
    refine ⟨_, hwrites htext hscanned, ⟨_, rfl, rfl⟩, ⟨_, rfl, rfl⟩, hbehind, ?_⟩
    rw [hparse, hreread]
  | false =>
    obtain ⟨hknown, values, ys, hys, hvalues, hbehind⟩ :=
      hkept.exists_areGroups (hfaithful.part hpart) hraw
    have htext : text ys = declaration.value.toText .pretty := by
      rw [hys.text_eq, hvalues, Value.toText_ofGroups]
    refine ⟨declaration.lexemes .pretty ys,
      hwrites (Declaration.toText_lexemes hraw hys.solid.ne_nil htext) ?_, ⟨_, rfl, rfl⟩,
      ⟨_, rfl, rfl⟩, ?_, hkept.parse_areGroups hknown hys hvalues⟩
    · exact fun behind hbehind _ => hkept.areScanned_areGroups hys hbehind
    · rw [behind?_congr (Declaration.marks_lexemes .pretty declaration ys), hbehind]

/-! ### Blocks of declarations -/

section Layout

variable {layout : Layout} (hstyle : layout.style = .pretty)
include hstyle

/-- What is written for declarations, one to a line, is read as them. -/
theorem AreDeclarations.exists_written {body : List Lexeme} {closer : Lexeme}
    {declarations : List Declaration} (h : AreDeclarations room body declarations)
    (hfaithful : IsFaithful lineComments (body ++ [closer])) :
    ∃ lexemes, Writes lineComments lexemes (Declaration.linesText layout declarations) ∧
      (declarations = [] ∧ lexemes = [] ∨ declarations ≠ [] ∧ StartsSolid lexemes) ∧
      ∀ rest more, AreDeclarations room rest more →
        AreDeclarations room (lexemes ++ rest) (declarations.map Declaration.reread ++ more) := by
  have hlast : ∀ {source : List Lexeme} {next : Lexeme} {declaration : Declaration},
      IsDeclaration room source declaration → IsFaithful lineComments (source ++ [next]) →
      ∃ lexemes, Writes lineComments lexemes (Declaration.linesText layout [declaration]) ∧
        StartsSolid lexemes ∧ ∀ rest more, AreDeclarations room rest more →
          AreDeclarations room (lexemes ++ rest) (declaration.reread :: more) := by
    intro source next declaration hread hsource
    obtain ⟨lexemes, hwrites, hsolid, hagain⟩ := hread.exists_written hsource
    refine ⟨lexemes ++ [semicolon], ?_, hsolid.append _, fun rest more hrest => ?_⟩
    · rw [Declaration.linesText, hstyle]
      exact hwrites
    · rw [List.append_assoc]
      exact .more hagain rfl hrest
  induction h with
  | nil => exact ⟨[], .nil lineComments, .inl ⟨rfl, rfl⟩, fun _ _ hrest => hrest⟩
  | idle _ _ ih => exact ih (hfaithful.part (List.suffix_cons ..).isInfix)
  | last hread =>
    obtain ⟨lexemes, hwrites, hsolid, hagain⟩ := hlast hread hfaithful
    exact ⟨lexemes, hwrites, .inr ⟨List.cons_ne_nil _ _, hsolid⟩, hagain⟩
  | @more source rest next declaration declarations hread _ _ ih =>
    rw [List.append_assoc, List.cons_append] at hfaithful
    have hsource : source ++ [next] <:+: source ++ next :: (rest ++ [closer]) :=
      ⟨[], rest ++ [closer], by simp⟩
    have hrest : rest ++ [closer] <:+: source ++ next :: (rest ++ [closer]) :=
      ⟨source ++ [next], [], by simp⟩
    obtain ⟨first, hfirst, hsolid, hagain⟩ := hlast hread (hfaithful.part hsource)
    obtain ⟨others, hothers, hnone, hothersAgain⟩ := ih (hfaithful.part hrest)
    cases declarations with
    | nil => exact ⟨first, hfirst, .inr ⟨List.cons_ne_nil _ _, hsolid⟩, hagain⟩
    | cons second declarations =>
      have hline := hothers.line (hnone.resolve_left fun hnil => List.cons_ne_nil _ _ hnil.1).2
        (Layout.newline_ne_nil hstyle) (Layout.isBlank_newline hstyle)
      refine ⟨first ++ blanks layout.newline :: others, ?_,
        .inr ⟨List.cons_ne_nil _ _, hsolid.append _⟩, fun after more hafter => ?_⟩
      · have htext : Declaration.linesText layout (declaration :: second :: declarations) =
            Declaration.linesText layout [declaration] ++
              (layout.newline ++ Declaration.linesText layout (second :: declarations)) := by
          rw [Declaration.linesText, Declaration.linesText, hstyle]
          simp [Style.pretty]
        rw [htext]
        refine hfirst.append hline ?_
        rw [Layout.newline_eq hstyle]
        exact separates_cons rfl _
      · rw [List.append_assoc]
        exact hagain _ _ (.idle (.inl rfl) (hothersAgain after more hafter))

/-- What is written for a block of declarations holds lexemes that are read as them. -/
theorem AreDeclarations.exists_block {body : List Lexeme} {closer : Lexeme}
    {declarations : List Declaration} (h : AreDeclarations room body declarations)
    (hfaithful : IsFaithful lineComments (body ++ [closer])) :
    ∃ body', Writes lineComments (openCurly :: (body' ++ [closeCurly]))
        (Declaration.blockText layout declarations) ∧
      AreDeclarations room body' (declarations.map Declaration.reread) := by
  have hdeeper : layout.deeper.style = .pretty := hstyle
  obtain ⟨lexemes, hwrites, hitems, hagain⟩ := h.exists_written hdeeper hfaithful
  have hend : AreDeclarations room [blanks layout.newline] [] := .idle (.inl rfl) .nil
  have hlines := hagain _ _ hend
  rw [List.append_nil] at hlines
  exact ⟨layout.blockLexemes lexemes, Layout.writes_block hwrites hitems hstyle,
    Layout.derives_blockLexemes (.idle (.inl rfl)) hlines⟩

end Layout

end Css
