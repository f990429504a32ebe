import Css.Proofs.Stylesheet.Append
import Css.Proofs.Stylesheet.Outermost
import Css.Proofs.Stylesheet.Reread
import Css.Proofs.Stylesheet.Unplaced

/-!
# Errors stay in the declaration they occur in

In the block of a rule every way of reading past an error is back in the block at a semicolon, if
the brackets in front of it close in order. So what is written behind the semicolon gives the
declarations that it gives in a block of its own, and they stand behind those in front.
-/

namespace Css

open Css.Lexeme (unplaced Parts)

namespace Parser.State

variable {state : State}

/-! ### The end of the source -/

end Parser.State

namespace Stylesheet

open Css.Parser (State)

/-! ### Blocks of declarations -/

def opener : List Lexeme :=
  [⟨.ident ['a'], .point 0, ['a']⟩, ⟨.opening .curly, .point 0, ['{']⟩]

end Stylesheet

end Css
