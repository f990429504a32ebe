import Css.Proofs.Stylesheet.Grammar
import Css.Proofs.Token.Standing
import Css.Proofs.Value.Written
import Css.Stylesheet.Printer

/-!
# Lexemes laid out in lines

What is written in readable style is scanned piece by piece: each piece is scanned as its own
lexemes in front of a separator (`Lexeme.Writes`), and a line break stands in front of a piece that
starts with no trivia (`Lexeme.Writes.line`). So are the lines of a block, between its brackets
(`Layout.writes_block`).
-/

namespace Css

namespace Lexeme

/-- Whether lexemes are what a text is scanned as in front of a separator. -/
structure Writes (lineComments : Bool) (lexemes : List Lexeme) (written : Text) : Prop where
  text_eq : text lexemes = written
  scanned : ∀ follow, Separates follow → AreScanned lineComments lexemes follow

def blanks (raw : Text) : Lexeme := ⟨.whitespace, .point 0, raw⟩

def openCurly : Lexeme := ⟨.opening .curly, .point 0, ['{']⟩

def closeCurly : Lexeme := ⟨.closing .curly, .point 0, ['}']⟩

def semicolon : Lexeme := ⟨.semicolon, .point 0, [';']⟩

variable {lineComments : Bool} {lexemes lexemes' : List Lexeme} {written written' raw : Text}

theorem isScanned_openCurly (lineComments : Bool) (follow : Text) :
    IsScanned lineComments openCurly follow :=
  .of_spells (.single rfl)

theorem isScanned_closeCurly (lineComments : Bool) (follow : Text) :
    IsScanned lineComments closeCurly follow :=
  .of_spells (.single rfl)

theorem isScanned_semicolon (lineComments : Bool) (follow : Text) :
    IsScanned lineComments semicolon follow :=
  .of_spells (.single rfl)

/-- Blanks are scanned in front of what is none. -/
theorem isScanned_blanks (hne : raw ≠ []) (hblank : ∀ c ∈ raw, isBlank c = true) {follow : Text}
    (hfollow : ∀ c ∈ follow.head?, isBlank c = false) :
    IsScanned lineComments (blanks raw) follow :=
  .of_spells (.whitespace hne hblank hfollow)

/-- What is scanned is not cut short. -/
theorem AreScanned.isBad_eq_false {follow : Text} (h : AreScanned lineComments lexemes follow) :
    ∀ lexeme ∈ lexemes, lexeme.token.isBad = false := by
  induction lexemes with
  | nil => exact List.forall_mem_nil _
  | cons lexeme lexemes ih =>
    obtain ⟨⟨c, cs, hraw, hscan⟩, hrest⟩ := h
    have hreads := Token.reads_scan lineComments c (cs ++ (text lexemes ++ follow))
    rw [hscan] at hreads
    exact List.forall_mem_cons.2 ⟨hreads.isBad_eq_false, ih hrest⟩

namespace Writes

theorem nil (lineComments : Bool) : Writes lineComments [] [] := ⟨rfl, fun _ _ => trivial⟩

theorem of_stands {run : TokenRun} (h : run.Stands lineComments) :
    Writes lineComments run.toLexemes (run.toText .pretty) :=
  ⟨TokenRun.text_toLexemes run, h.scanned⟩

/-- Pieces stand side by side where the second one starts with a separator. -/
theorem append (h : Writes lineComments lexemes written)
    (h' : Writes lineComments lexemes' written') (hseparates : Separates written') :
    Writes lineComments (lexemes ++ lexemes') (written ++ written') where
  text_eq := by rw [text_append, h.text_eq, h'.text_eq]
  scanned := by
    intro follow hfollow
    refine eachStands_append.2 ⟨h.scanned _ ?_, h'.scanned follow hfollow⟩
    rw [h'.text_eq]
    exact hseparates.append hfollow

/-- A line break or a space stands in front of a piece that starts with no trivia. -/
theorem line (h : Writes lineComments lexemes written) (hsolid : StartsSolid lexemes)
    (hne : raw ≠ []) (hblank : ∀ c ∈ raw, isBlank c = true) :
    Writes lineComments (blanks raw :: lexemes) (raw ++ written) where
  text_eq := by rw [text_cons, h.text_eq, blanks]
  scanned := by
    intro follow hfollow
    have hscanned := h.scanned follow hfollow
    exact ⟨isScanned_blanks hne hblank (hsolid.isBlank_head hscanned), hscanned⟩

theorem semicolon (h : Writes lineComments lexemes written) :
    Writes lineComments (lexemes ++ [Lexeme.semicolon]) (written ++ [';']) :=
  h.append ⟨rfl, fun follow _ => ⟨isScanned_semicolon lineComments follow, trivial⟩⟩
    (separates_cons rfl [])

end Writes

end Lexeme

/-! ### Blocks -/

open Lexeme

namespace Layout

variable {lineComments : Bool} {layout : Layout} {lexemes : List Lexeme} {written : Text}

theorem newline_eq (h : layout.style = .pretty) :
    layout.newline = '\n' :: List.replicate layout.indent ' ' := by
  rw [newline, h]
  rfl

theorem newline_ne_nil (h : layout.style = .pretty) : layout.newline ≠ [] := by
  rw [newline_eq h]
  exact List.cons_ne_nil _ _

theorem isBlank_newline (h : layout.style = .pretty) : ∀ c ∈ layout.newline, isBlank c = true := by
  rw [newline_eq h, List.forall_mem_cons]
  refine ⟨rfl, fun c hc => ?_⟩
  rw [List.eq_of_mem_replicate hc]
  rfl

def blockLexemes (layout : Layout) (lexemes : List Lexeme) : List Lexeme :=
  (if lexemes.isEmpty then [] else blanks layout.deeper.newline :: lexemes) ++
    [blanks layout.newline]

/-- A block around the lines of some items. -/
theorem writes_block {α : Type} {items : List α} (h : Writes lineComments lexemes written)
    (hitems : items = [] ∧ lexemes = [] ∨ items ≠ [] ∧ StartsSolid lexemes)
    (hstyle : layout.style = .pretty) :
    Writes lineComments (openCurly :: (layout.blockLexemes lexemes ++ [closeCurly]))
      (layout.block (if items.isEmpty then none else some written)) where
  text_eq := by
    rw [blockLexemes, text_cons, text_append, text_append, block]
    obtain ⟨rfl, rfl⟩ | ⟨hne, hsolid⟩ := hitems
    · simp [openCurly, closeCurly, blanks]
    · rw [List.isEmpty_eq_false_iff.2 hne, List.isEmpty_eq_false_iff.2 hsolid.ne_nil,
        if_neg Bool.false_ne_true, if_neg Bool.false_ne_true, text_cons, h.text_eq]
      simp [openCurly, closeCurly, blanks]
  scanned := by
    intro follow _
    have hend : AreScanned lineComments [blanks layout.newline, closeCurly] follow := by
      refine ⟨isScanned_blanks (newline_ne_nil hstyle) (isBlank_newline hstyle) ?_,
        isScanned_closeCurly lineComments follow, trivial⟩
      rintro c ⟨rfl⟩
      rfl
    refine ⟨isScanned_openCurly .., ?_⟩
    rw [blockLexemes, List.append_assoc, List.singleton_append]
    obtain ⟨-, rfl⟩ | ⟨-, hsolid⟩ := hitems
    · exact hend
    · rw [List.isEmpty_eq_false_iff.2 hsolid.ne_nil, if_neg Bool.false_ne_true]
      have hdeeper : layout.deeper.style = .pretty := hstyle
      have hlines :=
        (h.line hsolid (newline_ne_nil hdeeper) (isBlank_newline hdeeper)).scanned
      refine eachStands_append.2 ⟨hlines _ ?_, hend⟩
      rw [text_cons, blanks, newline_eq hstyle]
      exact separates_cons rfl _

/-- What the lines of a block derive, the lexemes between its brackets derive. -/
theorem derives_blockLexemes {α : Type} {derives : List Lexeme → List α → Prop}
    (hidle : ∀ {raw : Text} {lexemes : List Lexeme} {items : List α},
      derives lexemes items → derives (blanks raw :: lexemes) items)
    {items : List α} (h : derives (lexemes ++ [blanks layout.newline]) items) :
    derives (layout.blockLexemes lexemes) items := by
  rw [blockLexemes]
  split
  · rename_i hnil
    rwa [List.isEmpty_iff.1 hnil] at h
  · exact hidle h

end Layout

end Css
