import Css.Proofs.Token.Grammar
import Css.Proofs.Token.Tiles

/-!
# Lexemes that are scanned again

Lexemes whose characters stand one after the other in a text are what the text is read as, if each
of them is scanned as its token where it stands (`Reading.all_append`).
-/

namespace Css

namespace Lexeme

def text (lexemes : List Lexeme) : Text := lexemes.flatMap (·.raw)

@[simp]
theorem text_nil : text [] = [] := rfl

@[simp]
theorem text_cons (lexeme : Lexeme) (lexemes : List Lexeme) :
    text (lexeme :: lexemes) = lexeme.raw ++ text lexemes := rfl

@[simp]
theorem text_append (left right : List Lexeme) :
    text (left ++ right) = text left ++ text right := by
  simp [text]

def IsScanned (lineComments : Bool) (lexeme : Lexeme) (follow : Text) : Prop :=
  ∃ c cs, lexeme.raw = c :: cs ∧
    Token.scan lineComments c (cs ++ follow) =
      { token := lexeme.token, length := lexeme.raw.length }

def EachStands (holds : Lexeme → Text → Prop) : List Lexeme → (follow : Text) → Prop
  | [], _ => True
  | lexeme :: lexemes, follow =>
    holds lexeme (text lexemes ++ follow) ∧ EachStands holds lexemes follow

theorem eachStands_append {holds : Lexeme → Text → Prop} {left right : List Lexeme}
    {follow : Text} :
    EachStands holds (left ++ right) follow ↔
      EachStands holds left (text right ++ follow) ∧ EachStands holds right follow := by
  induction left with
  | nil => simp [EachStands]
  | cons lexeme left ih => simp [EachStands, ih, and_assoc]

def AreScanned (lineComments : Bool) : List Lexeme → (follow : Text) → Prop :=
  EachStands (IsScanned lineComments)

variable {lineComments : Bool}

theorem AreScanned.text_ne_nil {lexemes : List Lexeme} {follow : Text}
    (h : AreScanned lineComments lexemes follow) (hne : lexemes ≠ []) : text lexemes ≠ [] := by
  obtain ⟨lexeme, lexemes, rfl⟩ := List.exists_cons_of_ne_nil hne
  obtain ⟨⟨c, cs, hraw, -⟩, -⟩ := h
  rw [text_cons, hraw]
  exact List.cons_ne_nil _ _

theorem IsScanned.of_spells {lexeme : Lexeme} {follow : Text}
    (h : Token.Spells lineComments follow lexeme.token lexeme.raw) :
    IsScanned lineComments lexeme follow := h.scan_eq

def placed : (offset : Nat) → List Lexeme → List Reading
  | _, [] => []
  | offset, lexeme :: lexemes =>
    { lexeme := { lexeme with span :=
        ⟨.ofPlace offset, .ofPlace (offset + Text.byteLength lexeme.raw)⟩ }
      problem := none } :: placed (offset + Text.byteLength lexeme.raw) lexemes

def bare (lexeme : Lexeme) : Lexeme := { lexeme with span := .point 0 }

theorem bare_placed (offset : Nat) (lexemes : List Lexeme) :
    ((placed offset lexemes).map (·.lexeme)).map bare = lexemes.map bare := by
  induction lexemes generalizing offset with
  | nil => rfl
  | cons lexeme lexemes ih => simp only [placed, List.map_cons, ih, bare]

theorem problem_placed {offset : Nat} {lexemes : List Lexeme} :
    ∀ reading ∈ placed offset lexemes, reading.problem = none := by
  induction lexemes generalizing offset with
  | nil => exact List.forall_mem_nil _
  | cons lexeme lexemes ih => exact List.forall_mem_cons.2 ⟨rfl, ih⟩

end Lexeme

namespace Reading

open Lexeme

variable {lineComments : Bool}

/-- Lexemes that are scanned where they stand are what their text is read as. -/
theorem all_append {lexemes : List Lexeme} {follow : Text}
    (h : AreScanned lineComments lexemes follow) (offset : Nat) :
    all lineComments offset (text lexemes ++ follow) =
      placed offset lexemes ++
        all lineComments (offset + Text.byteLength (text lexemes)) follow := by
  induction lexemes generalizing offset with
  | nil => rfl
  | cons lexeme lexemes ih =>
    obtain ⟨⟨c, cs, hraw, hscan⟩, hrest⟩ := h
    have htake : (c :: (cs ++ (text lexemes ++ follow))).take lexeme.raw.length = lexeme.raw := by
      rw [← List.cons_append, ← hraw, List.take_left]
    have hdrop : (c :: (cs ++ (text lexemes ++ follow))).drop lexeme.raw.length =
        text lexemes ++ follow := by
      rw [← List.cons_append, ← hraw, List.drop_left]
    rw [text_cons, List.append_assoc]
    conv => lhs; rw [hraw, List.cons_append, all_cons, hscan]
    simp only [htake, hdrop, ih hrest]
    simp only [first, hscan, htake, placed, Text.byteLength_append, List.cons_append, Nat.add_assoc]

theorem text_all (offset : Nat) (source : Text) :
    text ((all lineComments offset source).map (·.lexeme)) = source := by
  fun_induction all lineComments offset source with
  | case1 => rfl
  | case2 offset c cs reading ih =>
    rw [List.map_cons, text_cons, ih]
    exact List.take_append_drop ..

end Reading

end Css
