import Css.TextProperty.Parser

/-!
# Canonical values of the text properties

A text property and a value that it takes have a canonical value: keywords in lower case, parts in
a fixed order, and parts left out that have their initial value.
-/

namespace Css

/-! ### Values of the types -/

def TextTransform.toValue (transform : TextTransform) : Value :=
  let wide := transform.fullWidth || transform.fullSizeKana
  Value.spaceList
    ((if transform.letterCase = .none && wide then [] else [Value.ofMember transform.letterCase]) ++
      (if transform.fullWidth then [Value.ofSpelling "full-width"] else []) ++
      (if transform.fullSizeKana then [Value.ofSpelling "full-size-kana"] else []))

def Spacing.toValue : Spacing → Value
  | normal => Value.ofSpelling "normal"
  | length value => value

def TextIndent.toValue (indent : TextIndent) : Value :=
  Value.spaceList (indent.length ::
    ((if indent.hanging then [Value.ofSpelling "hanging"] else []) ++
      (if indent.eachLine then [Value.ofSpelling "each-line"] else [])))

namespace DecorationLine

def items : DecorationLine → List Value
  | lines set =>
    if set = LineSet.empty then [Value.ofMember SoleLine.none] else set.toList.map Value.ofMember
  | spellingError => [Value.ofMember SoleLine.spellingError]
  | grammarError => [Value.ofMember SoleLine.grammarError]

def toValue (line : DecorationLine) : Value := Value.spaceList line.items

end DecorationLine

namespace DecorationThickness

def toValue : DecorationThickness → Value
  | auto => Value.ofSpelling "auto"
  | fromFont => Value.ofSpelling "from-font"
  | length value => value

def isAuto : DecorationThickness → Bool
  | auto => true
  | _ => false

end DecorationThickness

def TextDecoration.toValue (decoration : TextDecoration) : Value :=
  if decoration.line = .noLine then decoration.line.toValue
  else Value.spaceList (decoration.line.items ++
    (if decoration.thickness.isAuto then [] else [decoration.thickness.toValue]) ++
    (if decoration.style = .solid then [] else [Value.ofMember decoration.style]) ++
    decoration.color.toList)

/-! ### Properties -/

inductive TextProperty where
  | textTransform
  | whiteSpace
  | wordBreak
  | lineBreak
  | hyphens
  | overflowWrap
  | wordWrap
  | textAlign
  | textAlignLast
  | textJustify
  | wordSpacing
  | letterSpacing
  | textIndent
  | decorationLine
  | decorationStyle
  | decorationThickness
  | textDecoration
  deriving DecidableEq, Repr

namespace TextProperty

instance : Keyword TextProperty where
  all := [textTransform, whiteSpace, wordBreak, lineBreak, hyphens, overflowWrap, wordWrap,
    textAlign, textAlignLast, textJustify, wordSpacing, letterSpacing, textIndent, decorationLine,
    decorationStyle, decorationThickness, textDecoration]
  spelling
    | textTransform => "text-transform"
    | whiteSpace => "white-space"
    | wordBreak => "word-break"
    | lineBreak => "line-break"
    | hyphens => "hyphens"
    | overflowWrap => "overflow-wrap"
    | wordWrap => "word-wrap"
    | textAlign => "text-align"
    | textAlignLast => "text-align-last"
    | textJustify => "text-justify"
    | wordSpacing => "word-spacing"
    | letterSpacing => "letter-spacing"
    | textIndent => "text-indent"
    | decorationLine => "text-decoration-line"
    | decorationStyle => "text-decoration-style"
    | decorationThickness => "text-decoration-thickness"
    | textDecoration => "text-decoration"

def respell? (α : Type) [Keyword α] (value : Value) : Option Value :=
  (Keyword.ofValue? (α := α) value).map Value.ofMember

def canonical? : TextProperty → Value → Option Value
  | textTransform, value => (TextTransform.ofValue? value).map (·.toValue)
  | whiteSpace, value => respell? WhiteSpace value
  | wordBreak, value => respell? WordBreak value
  | lineBreak, value => respell? LineBreak value
  | hyphens, value => respell? Hyphens value
  | overflowWrap, value => respell? OverflowWrap value
  | wordWrap, value => respell? OverflowWrap value
  | textAlign, value => respell? TextAlign value
  | textAlignLast, value => respell? TextAlignLast value
  | textJustify, value => respell? TextJustify value
  | wordSpacing, value => (Spacing.ofValue? value).map (·.toValue)
  | letterSpacing, value => (Spacing.ofValue? value).map (·.toValue)
  | textIndent, value => (TextIndent.ofValue? value).map (·.toValue)
  | decorationLine, value => (DecorationLine.ofValue? value).map (·.toValue)
  | decorationStyle, value => respell? DecorationStyle value
  | decorationThickness, value => (DecorationThickness.ofValue? value).map (·.toValue)
  | textDecoration, value => (TextDecoration.ofValue? value).map (·.toValue)

end TextProperty

/-- The canonical form of a value, if the name is that of a text property that takes the value. -/
def Value.canonical? (property : Text) (value : Value) : Option Value :=
  (Keyword.ofName? property : Option TextProperty).bind (·.canonical? value)

end Css
