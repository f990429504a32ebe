import Css.Value

/-!
# Values of the text properties

The types of the CSS Text and Text Decoration properties: keyword types for most of them,
structures for those that combine several parts.
-/

namespace Css

/-! ### Keyword types -/

inductive TextCase where
  | none
  | uppercase
  | lowercase
  | capitalize
  deriving DecidableEq, Repr

instance : Keyword TextCase where
  all := [.none, .uppercase, .lowercase, .capitalize]
  spelling
    | .none => "none"
    | .uppercase => "uppercase"
    | .lowercase => "lowercase"
    | .capitalize => "capitalize"

inductive WhiteSpace where
  | normal
  | pre
  | nowrap
  | preWrap
  | breakSpaces
  | preLine
  deriving DecidableEq, Repr

instance : Keyword WhiteSpace where
  all := [.normal, .pre, .nowrap, .preWrap, .breakSpaces, .preLine]
  spelling
    | .normal => "normal"
    | .pre => "pre"
    | .nowrap => "nowrap"
    | .preWrap => "pre-wrap"
    | .breakSpaces => "break-spaces"
    | .preLine => "pre-line"

inductive WordBreak where
  | normal
  | keepAll
  | breakAll
  | breakWord
  deriving DecidableEq, Repr

instance : Keyword WordBreak where
  all := [.normal, .keepAll, .breakAll, .breakWord]
  spelling
    | .normal => "normal"
    | .keepAll => "keep-all"
    | .breakAll => "break-all"
    | .breakWord => "break-word"

inductive LineBreak where
  | auto
  | loose
  | normal
  | strict
  | anywhere
  deriving DecidableEq, Repr

instance : Keyword LineBreak where
  all := [.auto, .loose, .normal, .strict, .anywhere]
  spelling
    | .auto => "auto"
    | .loose => "loose"
    | .normal => "normal"
    | .strict => "strict"
    | .anywhere => "anywhere"

inductive Hyphens where
  | none
  | manual
  | auto
  deriving DecidableEq, Repr

instance : Keyword Hyphens where
  all := [.none, .manual, .auto]
  spelling
    | .none => "none"
    | .manual => "manual"
    | .auto => "auto"

/-- Also the values of `word-wrap`. -/
inductive OverflowWrap where
  | normal
  | breakWord
  | anywhere
  deriving DecidableEq, Repr

instance : Keyword OverflowWrap where
  all := [.normal, .breakWord, .anywhere]
  spelling
    | .normal => "normal"
    | .breakWord => "break-word"
    | .anywhere => "anywhere"

inductive TextAlign where
  | start
  | «end»
  | left
  | right
  | center
  | justify
  | matchParent
  | justifyAll
  deriving DecidableEq, Repr

instance : Keyword TextAlign where
  all := [.start, .end, .left, .right, .center, .justify, .matchParent, .justifyAll]
  spelling
    | .start => "start"
    | .end => "end"
    | .left => "left"
    | .right => "right"
    | .center => "center"
    | .justify => "justify"
    | .matchParent => "match-parent"
    | .justifyAll => "justify-all"

inductive TextAlignLast where
  | auto
  | start
  | «end»
  | left
  | right
  | center
  | justify
  | matchParent
  deriving DecidableEq, Repr

instance : Keyword TextAlignLast where
  all := [.auto, .start, .end, .left, .right, .center, .justify, .matchParent]
  spelling
    | .auto => "auto"
    | .start => "start"
    | .end => "end"
    | .left => "left"
    | .right => "right"
    | .center => "center"
    | .justify => "justify"
    | .matchParent => "match-parent"

inductive TextJustify where
  | auto
  | none
  | interWord
  | interCharacter
  deriving DecidableEq, Repr

instance : Keyword TextJustify where
  all := [.auto, .none, .interWord, .interCharacter]
  spelling
    | .auto => "auto"
    | .none => "none"
    | .interWord => "inter-word"
    | .interCharacter => "inter-character"

inductive DecorationStyle where
  | solid
  | double
  | dotted
  | dashed
  | wavy
  deriving DecidableEq, Repr

instance : Keyword DecorationStyle where
  all := [.solid, .double, .dotted, .dashed, .wavy]
  spelling
    | .solid => "solid"
    | .double => "double"
    | .dotted => "dotted"
    | .dashed => "dashed"
    | .wavy => "wavy"

/-! ### Structures -/

structure TextTransform where
  letterCase : TextCase
  fullWidth : Bool
  fullSizeKana : Bool
  deriving DecidableEq

inductive Spacing where
  | normal
  | length (length : Value)

structure TextIndent where
  length : Value
  hanging : Bool
  eachLine : Bool

inductive Line where
  | underline
  | overline
  | lineThrough
  | blink
  deriving DecidableEq, Repr

instance : Keyword Line where
  all := [.underline, .overline, .lineThrough, .blink]
  spelling
    | .underline => "underline"
    | .overline => "overline"
    | .lineThrough => "line-through"
    | .blink => "blink"

inductive SoleLine where
  | none
  | spellingError
  | grammarError
  deriving DecidableEq, Repr

instance : Keyword SoleLine where
  all := [.none, .spellingError, .grammarError]
  spelling
    | .none => "none"
    | .spellingError => "spelling-error"
    | .grammarError => "grammar-error"

structure LineSet where
  underline : Bool
  overline : Bool
  lineThrough : Bool
  blink : Bool
  deriving DecidableEq, Repr

namespace LineSet

def empty : LineSet := ⟨false, false, false, false⟩

def contains (lines : LineSet) : Line → Bool
  | .underline => lines.underline
  | .overline => lines.overline
  | .lineThrough => lines.lineThrough
  | .blink => lines.blink

def insert (lines : LineSet) : Line → LineSet
  | .underline => { lines with underline := true }
  | .overline => { lines with overline := true }
  | .lineThrough => { lines with lineThrough := true }
  | .blink => { lines with blink := true }

def toList (lines : LineSet) : List Line := (Keyword.all : List Line).filter lines.contains

end LineSet

inductive DecorationLine where
  | lines (lines : LineSet)
  | spellingError
  | grammarError
  deriving DecidableEq, Repr

namespace DecorationLine

def noLine : DecorationLine := lines LineSet.empty

def ofSole : SoleLine → DecorationLine
  | .none => noLine
  | .spellingError => spellingError
  | .grammarError => grammarError

end DecorationLine

inductive DecorationThickness where
  | auto
  | fromFont
  | length (length : Value)

/-- The parts of a decoration; a colour that is left out is that of the text. -/
structure TextDecoration where
  line : DecorationLine
  thickness : DecorationThickness
  style : DecorationStyle
  color : Option Value

end Css
