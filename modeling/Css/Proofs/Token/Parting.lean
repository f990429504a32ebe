import Css.Proofs.Token.Barrier
import Css.Proofs.Token.Reprint

/-!
# Texts that part at a semicolon

The lexemes of a text without their places (`Lexeme.unplaced`) are all that its brackets and its
style sheet depend on. A text parts at a semicolon where its lexemes are those in front, a semicolon
and those behind (`Lexeme.Parts`). Then the lexemes in front are read where they stand, so they are
the same whatever else follows in place of the semicolon, if it starts with a barrier too.
-/

namespace Css

namespace Lexeme

variable {lineComments : Bool} {lexemes : List Lexeme} {x y : Text}

/-! ### Lexemes without their places -/

def unplaced (lineComments : Bool) (text : Text) : List Lexeme :=
  ((Reading.all lineComments 0 text).map (·.lexeme)).map bare

theorem text_map_bare (lexemes : List Lexeme) : text (lexemes.map bare) = text lexemes := by
  induction lexemes with
  | nil => rfl
  | cons lexeme lexemes ih => rw [List.map_cons, text_cons, text_cons, ih]; rfl

theorem text_unplaced (lineComments : Bool) (source : Text) :
    text (unplaced lineComments source) = source := by
  rw [unplaced, text_map_bare, Reading.text_all]

/-- Whether a lexeme is read does not depend on its place. -/
theorem eachStands_map_bare :
    EachStands (IsRead lineComments) (lexemes.map bare) x ↔
      EachStands (IsRead lineComments) lexemes x := by
  induction lexemes with
  | nil => exact Iff.rfl
  | cons lexeme lexemes ih =>
    rw [List.map_cons]
    exact and_congr (by rw [text_map_bare]; exact Iff.rfl) ih

theorem eachStands_unplaced (lineComments : Bool) (source : Text) :
    EachStands (IsRead lineComments) (unplaced lineComments source) [] :=
  eachStands_map_bare.2 (Reading.eachStands_all lineComments 0 source)

/-- Whether the lexemes of two texts with a semicolon between them are those of the first text, the
semicolon and those of the second. -/
def Parts (lineComments : Bool) (front back : Text) : Prop :=
  unplaced lineComments (front ++ ';' :: back) =
    unplaced lineComments front ++ unplaced lineComments [';'] ++ unplaced lineComments back

instance (lineComments : Bool) (front back : Text) : Decidable (Parts lineComments front back) :=
  inferInstanceAs (Decidable (_ = _))

theorem Parts.eachStands {front back : Text} (h : Parts lineComments front back) :
    EachStands (IsRead lineComments) (unplaced lineComments front) (';' :: back) := by
  have hread := eachStands_unplaced lineComments (front ++ ';' :: back)
  rw [h, List.append_assoc] at hread
  have hfront := (eachStands_append.1 hread).1
  rwa [text_append, text_unplaced, text_unplaced, List.append_nil] at hfront

end Lexeme

end Css
