import Css.Proofs.Stylesheet.Accepted
import Css.Proofs.Stylesheet.Derived
import Css.Proofs.Stylesheet.Heads
import Css.Proofs.Stylesheet.Lines

/-!
# Style sheets that are read back

What is written for a style sheet in readable style is read as this sheet, with unsigned zeros
(`AreRules.exists_areWritten`), so a text that is read without diagnostics is written and read again
as a sheet that is the same (`Stylesheet.parse_serialize_pretty`). The proof goes along the
derivation of the rules from their source: each rule is written as lexemes that derive it again in
front of whatever derives the rules behind it.
-/

namespace Css

open Lexeme

/-! ### What is read back -/

mutual

/-- What is read back of a rule: zeros lose their signs. -/
def Rule.reread : Rule → Rule
  | .style selectors declarations =>
    .style (SelectorList.unsigned selectors) (declarations.map Declaration.reread)
  | .statement name prelude => .statement name prelude
  | .group name prelude rules => .group name prelude (Stylesheet.reread rules)
  | .descriptors name prelude declarations =>
    .descriptors name prelude (declarations.map Declaration.reread)

def Stylesheet.reread : List Rule → List Rule
  | [] => []
  | rule :: rules => rule.reread :: Stylesheet.reread rules

end

theorem Declaration.sameAll_reread (declarations : List Declaration) :
    sameAll declarations (declarations.map reread) = true := by
  induction declarations with
  | nil => rfl
  | cons declaration declarations ih =>
    rw [List.map_cons, sameAll, same_reread, ih]
    rfl

mutual

theorem MediaCondition.same_self : (condition : MediaCondition) → condition.same condition = true
  | .feature _ => by
    rw [same]
    exact BEq.rfl
  | .negation condition => by rw [same, condition.same_self]
  | .conjunction conditions => by rw [same, sameAll_self conditions]
  | .disjunction conditions => by rw [same, sameAll_self conditions]

theorem MediaCondition.sameAll_self : (conditions : List MediaCondition) →
    sameAll conditions conditions = true
  | [] => by rw [sameAll]
  | condition :: conditions => by
    rw [sameAll, condition.same_self, sameAll_self conditions]
    rfl

end

theorem MediaQuery.same_self (query : MediaQuery) : query.same query = true := by
  rw [same, BEq.rfl, BEq.rfl]
  cases query.condition with
  | none => rfl
  | some condition => exact condition.same_self

theorem Prelude.same_self (prelude : Prelude) : prelude.same prelude = true := by
  cases prelude with
  | media queries =>
    rw [same]
    induction queries with
    | nil => rfl
    | cons query queries ih =>
      rw [MediaList.same, query.same_self, ih]
      rfl
  | tokens run => exact BEq.rfl

mutual

theorem Rule.same_reread : (rule : Rule) → rule.same rule.reread = true
  | .style selectors declarations => by
    rw [Rule.reread, Rule.same, SelectorList.same_unsigned, Declaration.sameAll_reread]
    rfl
  | .statement name prelude => by
    rw [Rule.reread, Rule.same, BEq.rfl, prelude.same_self]
    rfl
  | .group name prelude rules => by
    rw [Rule.reread, Rule.same, BEq.rfl, prelude.same_self, Stylesheet.same_reread rules]
    rfl
  | .descriptors name prelude declarations => by
    rw [Rule.reread, Rule.same, BEq.rfl, prelude.same_self, Declaration.sameAll_reread]
    rfl

/-- What is read back of a style sheet is the same but for the signs of zeros. -/
theorem Stylesheet.same_reread : (rules : List Rule) →
    Stylesheet.same rules (Stylesheet.reread rules) = true
  | [] => by rw [Stylesheet.reread, Stylesheet.same]
  | rule :: rules => by
    rw [Stylesheet.reread, Stylesheet.same, rule.same_reread, Stylesheet.same_reread rules]
    rfl

end

/-! ### Rules -/

variable {lineComments : Bool} {limit depth : Nat} {layout : Layout}

structure Rule.IsWritten (lineComments : Bool) (limit depth : Nat) (layout : Layout) (rule : Rule)
    (lexemes : List Lexeme) : Prop where
  writes : Writes lineComments lexemes (rule.toText layout)
  solid : StartsSolid lexemes
  read : ∀ rest rules, AreRules limit depth rest rules →
    AreRules limit depth (lexemes ++ rest) (rule.reread :: rules)

structure Stylesheet.AreWritten (lineComments : Bool) (limit depth : Nat) (layout : Layout)
    (rules : List Rule) (lexemes : List Lexeme) : Prop where
  writes : Writes lineComments lexemes (Stylesheet.textAt layout rules)
  solid : rules = [] ∧ lexemes = [] ∨ rules ≠ [] ∧ StartsSolid lexemes
  read : ∀ rest more, AreRules limit depth rest more →
    AreRules limit depth (lexemes ++ rest) (Stylesheet.reread rules ++ more)

open Stylesheet (AreWritten)

theorem Stylesheet.areWritten_nil (lineComments : Bool) (limit depth : Nat) (layout : Layout) :
    AreWritten lineComments limit depth layout [] [] where
  writes := .nil lineComments
  solid := .inl ⟨rfl, rfl⟩
  read _ _ h := h

/-- Rules are written with a blank line between each two of them. -/
theorem Rule.IsWritten.exists_cons {rule : Rule} {rules : List Rule} {first others : List Lexeme}
    (hrule : rule.IsWritten lineComments limit depth layout first)
    (hrules : AreWritten lineComments limit depth layout rules others)
    (hstyle : layout.style = .pretty) :
    ∃ lexemes, AreWritten lineComments limit depth layout (rule :: rules) lexemes := by
  cases rules with
  | nil =>
    refine ⟨first, ?_, .inr ⟨List.cons_ne_nil _ _, hrule.solid⟩, hrule.read⟩
    rw [Stylesheet.textAt]
    exact hrule.writes
  | cons next rules =>
    have hsolid := (hrules.solid.resolve_left fun hnil => List.cons_ne_nil _ _ hnil.1).2
    have hblank : ∀ c ∈ layout.blankLine ++ layout.newline, isBlank c = true := by
      rw [Layout.blankLine, hstyle, List.forall_mem_append]
      exact ⟨List.forall_mem_singleton.2 rfl, Layout.isBlank_newline hstyle⟩
    have hline := hrules.writes.line hsolid
      (List.append_ne_nil_of_right_ne_nil _ (Layout.newline_ne_nil hstyle)) hblank
    refine ⟨first ++ blanks (layout.blankLine ++ layout.newline) :: others, ?_,
      .inr ⟨List.cons_ne_nil _ _, hrule.solid.append _⟩, fun rest more hrest => ?_⟩
    · rw [Stylesheet.textAt, List.append_assoc, List.append_assoc,
        ← List.append_assoc layout.blankLine]
      refine hrule.writes.append hline ?_
      rw [Layout.blankLine, hstyle]
      exact separates_cons rfl _
    · rw [List.append_assoc]
      exact hrule.read _ _ (.idle rfl (hrules.read rest more hrest))

/-- A rule with a block is written as its head, a space and the block. -/
theorem Rule.IsWritten.of_block {rule : Rule} {head body : List Lexeme} {x y : Text}
    (hhead : Writes lineComments head x) (hsolid : StartsSolid head)
    (hbody : Writes lineComments (openCurly :: (body ++ [closeCurly])) y)
    (htext : rule.toText layout = x ++ [' '] ++ y)
    (hread : ∀ rest rules, AreRules limit depth rest rules →
      AreRules limit depth (head ++ [blanks [' ']] ++ openCurly :: (body ++ closeCurly :: rest))
        (rule.reread :: rules)) :
    rule.IsWritten lineComments limit depth layout
      (head ++ blanks [' '] :: openCurly :: (body ++ [closeCurly])) where
  writes := by
    have hspace := hbody.line ⟨_, rfl, rfl⟩ (List.cons_ne_nil ' ' [])
      (List.forall_mem_singleton.2 rfl)
    rw [htext, List.append_assoc]
    exact hhead.append hspace (separates_cons rfl _)
  solid := hsolid.append _
  read rest rules hrest := by
    have hrule := hread rest rules hrest
    simpa only [List.append_assoc, List.cons_append, List.nil_append] using hrule

theorem IsHead.exists_style {head body : List Lexeme} {closer : Lexeme}
    {selectors : SelectorList} {declarations : List Declaration} (hdepth : depth < limit)
    (hhead : IsHead limit depth head selectors)
    (hbody : AreDeclarations (limit - (depth + 1)) body declarations)
    (hsound : IsSound lineComments head)
    (hfaithful : IsFaithful lineComments (body ++ [closer]))
    (hapart : SelectorList.percentagesApart selectors = true) (hstyle : layout.style = .pretty) :
    ∃ lexemes,
      (Rule.style selectors declarations).IsWritten lineComments limit depth layout lexemes := by
  obtain ⟨written, hwritten, hsolid, hagain⟩ := hhead.exists_written hsound hapart
  obtain ⟨body', hblock, hbody'⟩ := hbody.exists_block hstyle hfaithful
  refine ⟨_, .of_block hwritten hsolid hblock ?_ fun rest rules hrest => ?_⟩
  · rw [Rule.toText, hstyle]
    rfl
  · rw [Rule.reread]
    exact .style hdepth (hagain [blanks [' ']] rfl) rfl hbody' rfl hrest

section AtRules

variable {head : List Lexeme} {name : Text} {prelude : Prelude}
  (hhead : IsAtHead limit depth head name prelude) (hsound : IsSound lineComments head)
  (hback : (Part.prelude prelude).readsBack = true) (hstyle : layout.style = .pretty)
include hhead hsound hback hstyle

theorem IsAtHead.exists_descriptors {body : List Lexeme} {closer : Lexeme}
    {declarations : List Declaration} (hdepth : depth < limit)
    (hkind : BlockKind.ofAtRule name = .declarations)
    (hbody : AreDeclarations (limit - (depth + 1)) body declarations)
    (hfaithful : IsFaithful lineComments (body ++ [closer])) :
    ∃ lexemes, (Rule.descriptors name prelude declarations).IsWritten lineComments limit depth
      layout lexemes := by
  obtain ⟨written, hwritten, hsolid, hagain⟩ := hhead.exists_written hsound hback
  obtain ⟨body', hblock, hbody'⟩ := hbody.exists_block hstyle hfaithful
  refine ⟨_, .of_block hwritten hsolid hblock ?_ fun rest rules hrest => ?_⟩
  · rw [Rule.toText, hstyle]
    rfl
  · rw [Rule.reread]
    exact .descriptors hdepth (hagain [blanks [' ']] rfl) hkind rfl hbody' rfl hrest

theorem IsAtHead.exists_group {lexemes : List Lexeme} {rules : List Rule} (hdepth : depth < limit)
    (hkind : BlockKind.ofAtRule name = .rules)
    (hrules : AreWritten lineComments limit (depth + 1) layout.deeper rules lexemes) :
    ∃ lexemes, (Rule.group name prelude rules).IsWritten lineComments limit depth layout
      lexemes := by
  obtain ⟨written, hwritten, hsolid, hagain⟩ := hhead.exists_written hsound hback
  have hblock := Layout.writes_block hrules.writes hrules.solid hstyle
  have hend : AreRules limit (depth + 1) [blanks layout.newline] [] := .idle rfl .nil
  have hlines := hrules.read _ _ hend
  rw [List.append_nil] at hlines
  have hbody : AreRules limit (depth + 1) (layout.blockLexemes lexemes)
      (Stylesheet.reread rules) := Layout.derives_blockLexemes (.idle rfl) hlines
  refine ⟨_, .of_block hwritten hsolid hblock ?_ fun rest more hrest => ?_⟩
  · rw [Rule.toText, hstyle]
    rfl
  · rw [Rule.reread]
    exact .group hdepth (hagain [blanks [' ']] rfl) hkind rfl hbody rfl hrest

theorem IsAtHead.exists_statement :
    ∃ lexemes, (Rule.statement name prelude).IsWritten lineComments limit depth layout
      lexemes := by
  obtain ⟨written, hwritten, hsolid, hagain⟩ := hhead.exists_written hsound hback
  refine ⟨written ++ [semicolon], ?_, hsolid.append _, fun rest rules hrest => ?_⟩
  · rw [Rule.toText, hstyle]
    exact hwritten.semicolon
  · have hwhole := hagain [] rfl
    rw [List.append_nil] at hwhole
    rw [Rule.reread, List.append_assoc]
    exact .statement hwhole rfl hrest

end AtRules

/-! ### Whole style sheets -/

/-- The head, the body and what stands behind a block are parts of the same source. -/
theorem Lexeme.IsFaithful.block {head body rest : List Lexeme} {opener closer : Lexeme}
    (h : IsFaithful lineComments (head ++ opener :: (body ++ closer :: rest))) :
    IsFaithful lineComments head ∧ IsFaithful lineComments (body ++ [closer]) ∧
      IsFaithful lineComments rest :=
  ⟨h.part ⟨[], _, rfl⟩, h.part ⟨head ++ [opener], rest, by simp⟩,
    h.part ⟨head ++ opener :: (body ++ [closer]), [], by simp⟩⟩

/-- What is written for rules whose parts are read back is read as these rules. -/
theorem AreRules.exists_areWritten {source : List Lexeme} {rules : List Rule}
    (h : AreRules limit depth source rules) (hfaithful : IsFaithful lineComments source)
    (hback : Stylesheet.EachPart (fun _ part => part.readsBack = true) depth rules)
    (hstyle : layout.style = .pretty) :
    ∃ lexemes, AreWritten lineComments limit depth layout rules lexemes := by
  induction h generalizing layout with
  | nil => exact ⟨[], Stylesheet.areWritten_nil ..⟩
  | idle _ _ ih => exact ih (hfaithful.part (List.suffix_cons _ _).isInfix) hback hstyle
  | style hdepth hhead _ hbody _ _ ih =>
    obtain ⟨hrule, hrules⟩ := hback
    obtain ⟨hsource, hinside, hrest⟩ := hfaithful.block
    obtain ⟨first, hfirst⟩ := hhead.exists_style hdepth hbody hsource.sound hinside hrule.1 hstyle
    obtain ⟨others, hothers⟩ := ih hrest hrules hstyle
    exact hfirst.exists_cons hothers hstyle
  | descriptors hdepth hhead hkind _ hbody _ _ ih =>
    obtain ⟨hrule, hrules⟩ := hback
    obtain ⟨hsource, hinside, hrest⟩ := hfaithful.block
    obtain ⟨first, hfirst⟩ :=
      hhead.exists_descriptors hsource.sound hrule.1 hstyle hdepth hkind hbody hinside
    obtain ⟨others, hothers⟩ := ih hrest hrules hstyle
    exact hfirst.exists_cons hothers hstyle
  | group hdepth hhead hkind _ _ _ _ ihinner ih =>
    obtain ⟨hrule, hrules⟩ := hback
    obtain ⟨hsource, hinside, hrest⟩ := hfaithful.block
    obtain ⟨inner, hinner⟩ := @ihinner layout.deeper
      (hinside.part (List.prefix_append _ _).isInfix) hrule.2 hstyle
    obtain ⟨first, hfirst⟩ :=
      hhead.exists_group hsource.sound hrule.1 hstyle hdepth hkind hinner
    obtain ⟨others, hothers⟩ := ih hrest hrules hstyle
    exact hfirst.exists_cons hothers hstyle
  | last hhead =>
    obtain ⟨first, hfirst⟩ := hhead.exists_statement hfaithful.sound hback.1 hstyle
    exact hfirst.exists_cons (Stylesheet.areWritten_nil ..) hstyle
  | statement hhead _ _ ih =>
    obtain ⟨hrule, hrules⟩ := hback
    have hsource := hfaithful.part ⟨[], _, rfl⟩
    obtain ⟨first, hfirst⟩ := hhead.exists_statement hsource.sound hrule hstyle
    have hrest := hfaithful.part ((List.suffix_cons _ _).trans (List.suffix_append _ _)).isInfix
    obtain ⟨others, hothers⟩ := ih hrest hrules hstyle
    exact hfirst.exists_cons hothers hstyle

namespace Stylesheet

/-- The lexemes of a text that is read without diagnostics are faithful if the text is without
backslashes, empty urls and units that are exponents. -/
theorem isFaithful_of_no_diagnostics {options : ParseOptions} {source : Text}
    (hplain : '\\' ∉ source) (hclean : (parse options source).diagnostics = [])
    (hfaithful : ∀ lexeme ∈ (Reading.all options.lineComments 0 source).map (·.lexeme),
      lexeme.token ≠ .url [] ∧ lexeme.token.hasExponentUnit = false) :
    IsFaithful options.lineComments
      ((Reading.all options.lineComments 0 source).map (·.lexeme)) := by
  obtain ⟨hproblems, -⟩ := areRules_of_no_diagnostics hclean
  refine ⟨⟨[], ?_⟩, fun lexeme hmem => (hfaithful lexeme hmem).2⟩
  apply Reading.areSound_all hplain
  intro reading hmem
  have hreads := Reading.reads_of_mem_all hmem
  rw [hproblems reading hmem] at hreads
  exact ⟨hreads.isBad_eq_false, (hfaithful _ (List.mem_map_of_mem hmem)).1⟩

/-- What is written for a whole style sheet is read as it, with the line break at its end. -/
theorem parse_serialize_of_areWritten {options : ParseOptions} {sheet : Stylesheet}
    {lexemes : List Lexeme}
    (h : AreWritten options.lineComments options.maxDepth 0 (Layout.ofStyle .pretty) sheet
      lexemes) :
    parse options (sheet.serialize .pretty) = { sheet := reread sheet, diagnostics := [] } := by
  have htext : text lexemes = sheet.toText .pretty := h.writes.text_eq
  obtain rfl | hsolid := h.solid.imp And.right And.right
  · have hrules := h.read [] [] .nil
    rw [List.append_nil, List.append_nil] at hrules
    rw [serialize, ← htext]
    exact AreRules.parse_text (show AreScanned options.lineComments [] [] from trivial) hrules
  · have hlines := h.writes.scanned ['\n'] (separates_cons rfl [])
    have hend : AreScanned options.lineComments [blanks ['\n']] [] :=
      ⟨isScanned_blanks (List.cons_ne_nil _ _) (List.forall_mem_singleton.2 rfl) (by simp),
        trivial⟩
    have hrules := h.read [blanks ['\n']] [] (.idle rfl .nil)
    -- Nothing but a blank is left of an empty text, which no lexemes with a solid front give.
    have hne : (sheet.toText .pretty).isEmpty = false := by
      rw [List.isEmpty_eq_false_iff]
      intro hempty
      have hhead := hsolid.isBlank_head hlines
      rw [htext, hempty] at hhead
      exact absurd (hhead '\n' rfl) (by decide)
    have hserialize : sheet.serialize .pretty = text (lexemes ++ [blanks ['\n']]) := by
      rw [serialize, hne, text_append, htext]
      rfl
    rw [List.append_nil] at hrules
    rw [hserialize]
    exact AreRules.parse_text (eachStands_append.2 ⟨hlines, hend⟩) hrules

/-- A text that is read without diagnostics, without backslashes, empty urls and units that are
exponents is written in readable style and read again as the same style sheet, but for the signs of
zeros, if no percentage is a part of a compound selector and no disjunction stands behind a media
type. -/
theorem parse_serialize_pretty (options : ParseOptions) (source : Text) (hplain : '\\' ∉ source)
    (hclean : (parse options source).diagnostics = [])
    (hfaithful : ∀ lexeme ∈ (Reading.all options.lineComments 0 source).map (·.lexeme),
      lexeme.token ≠ .url [] ∧ lexeme.token.hasExponentUnit = false)
    (hback : EachPart (fun _ part => part.readsBack = true) 0 (parse options source).sheet) :
    (parse options (serialize .pretty (parse options source).sheet)).diagnostics = [] ∧
      same (parse options source).sheet
        (parse options (serialize .pretty (parse options source).sheet)).sheet = true := by
  obtain ⟨-, hrules⟩ := areRules_of_no_diagnostics hclean
  have hstyle : (Layout.ofStyle .pretty).style = .pretty := rfl
  obtain ⟨lexemes, hwritten⟩ := hrules.exists_areWritten
    (isFaithful_of_no_diagnostics hplain hclean hfaithful) hback hstyle
  rw [parse_serialize_of_areWritten hwritten]
  exact ⟨rfl, same_reread _⟩

/-- A rule in a rule, values with a structure, one of them a dimension with an exponent, a run of
tokens and a zero that loses its sign. -/
theorem parse_serialize_pretty_media :
    let source :=
      ("@import 'a' ;@media all and (b)" ++
        "\x7bc>d:e(2n)\x7bcolor:-0;width:1e1px;--x:\x7by;\x7d\x7d\x7d").toList
    let sheet := (parse { } source).sheet
    (parse { } (serialize .pretty sheet)).diagnostics = [] ∧
      same sheet (parse { } (serialize .pretty sheet)).sheet = true :=
  parse_serialize_pretty { } _ (by decide +kernel) (by decide +kernel) (by decide +kernel)
    (by decide +kernel)

/-- A disjunction behind a media type is written without its brackets, and is no media list when it
is read again. -/
theorem not_same_serialize_pretty :
    let result := parse { } "@media screen and ((a) or (b))\x7b\x7d".toList
    let again := parse { } (serialize .pretty result.sheet)
    result.diagnostics = [] ∧ again.diagnostics = [] ∧ same result.sheet again.sheet = false := by
  decide +kernel

end Stylesheet

end Css
