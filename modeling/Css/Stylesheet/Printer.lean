import Css.Media.Printer
import Css.Selector.Printer
import Css.Stylesheet
import Css.Value.Printer

/-!
# Writing style sheets

The text of a style sheet at some indentation. Readable output has one declaration to a line and a
blank line between rules; minified output has neither lines nor a semicolon before a closing
bracket.
-/

namespace Css

def Layout.block (layout : Layout) (body : Option Text) : Text :=
  '{' :: (body.map (layout.deeper.newline ++ ·)).getD [] ++ layout.newline ++ ['}']

def Declaration.toText (style : Style) (declaration : Declaration) : Text :=
  declaration.name ++
    (match declaration.value with
      | .raw [] => [':']
      | value => style.delim ':' ++ value.toText style) ++
    (if declaration.important then style.space ++ "!important".toList else [])

namespace Declaration

/-- Declarations, one to a line, each with a semicolon behind it; in minified output the last one
has none. -/
def linesText (layout : Layout) : List Declaration → Text
  | [] => []
  | [declaration] =>
    declaration.toText layout.style ++ if layout.style.minify then [] else [';']
  | declaration :: next :: declarations =>
    declaration.toText layout.style ++ ';' :: layout.newline ++
      linesText layout (next :: declarations)

def blockText (layout : Layout) (declarations : List Declaration) : Text :=
  layout.block
    (if declarations.isEmpty then none else some (linesText layout.deeper declarations))

end Declaration

def Prelude.toText (style : Style) : Prelude → Text
  | media queries => queries.toText style
  | tokens run => run.toText style

def Prelude.headText (style : Style) (name : Text) (prelude : Prelude) : Text :=
  '@' :: name ++ if prelude.isEmpty then [] else ' ' :: prelude.toText style

mutual

def Rule.toText (layout : Layout) : Rule → Text
  | .style selectors declarations =>
    SelectorList.toText layout.style selectors ++ layout.style.space ++
      Declaration.blockText layout declarations
  | .statement name prelude => prelude.headText layout.style name ++ [';']
  | .group name prelude rules =>
    prelude.headText layout.style name ++ layout.style.space ++
      layout.block (if rules.isEmpty then none else some (Stylesheet.textAt layout.deeper rules))
  | .descriptors name prelude declarations =>
    prelude.headText layout.style name ++ layout.style.space ++
      Declaration.blockText layout declarations

def Stylesheet.textAt (layout : Layout) : List Rule → Text
  | [] => []
  | [rule] => rule.toText layout
  | rule :: next :: rules =>
    rule.toText layout ++ layout.blankLine ++ layout.newline ++
      Stylesheet.textAt layout (next :: rules)

end

def Stylesheet.toText (style : Style) (sheet : Stylesheet) : Text :=
  Stylesheet.textAt (Layout.ofStyle style) sheet

/-- The text of a style sheet as a file: readable output ends with a newline. -/
def Stylesheet.serialize (style : Style) (sheet : Stylesheet) : Text :=
  let text := sheet.toText style
  if style.minify || text.isEmpty then text else text ++ ['\n']

end Css
