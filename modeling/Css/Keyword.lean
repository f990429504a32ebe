import Css.Text

/-!
# Keyword types

A keyword type has finitely many members, each spelled by one keyword in lower case.
-/

namespace Css

class Keyword (α : Type) where
  all : List α
  spelling : α → String

namespace Keyword

variable {α : Type} [Keyword α]

def ofName? (name : Text) : Option α :=
  (all : List α).find? fun member => name.isKeyword (spelling member)

end Keyword

end Css
