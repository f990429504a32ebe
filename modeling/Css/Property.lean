import Css.Text

/-!
# Properties and at-rules by name

Which properties have values that are read, which of them hold colours, and which at-rules hold
declarations. Names count in any letter case.
-/

namespace Css

namespace Property

def known : List String := [
  "align-content", "align-items", "align-self", "animation", "animation-delay",
  "animation-direction", "animation-duration", "animation-fill-mode",
  "animation-iteration-count", "animation-name", "animation-play-state",
  "animation-timing-function", "aspect-ratio", "background", "background-attachment",
  "background-clip", "background-color", "background-image", "background-origin",
  "background-position", "background-repeat", "background-size", "border", "border-bottom",
  "border-bottom-color", "border-bottom-left-radius", "border-bottom-right-radius",
  "border-bottom-style", "border-bottom-width", "border-collapse", "border-color", "border-left",
  "border-left-color", "border-left-style", "border-left-width", "border-radius", "border-right",
  "border-right-color", "border-right-style", "border-right-width", "border-spacing",
  "border-style", "border-top", "border-top-color", "border-top-left-radius",
  "border-top-right-radius", "border-top-style", "border-top-width", "border-width", "bottom",
  "box-shadow", "box-sizing", "caret-color", "clear", "color", "column-gap", "content", "cursor",
  "display", "fill", "flex", "flex-basis", "flex-direction", "flex-flow", "flex-grow",
  "flex-shrink", "flex-wrap", "float", "font", "font-family", "font-size", "font-style",
  "font-variant", "font-weight", "gap", "grid-column", "grid-column-gap", "grid-gap", "grid-row",
  "grid-row-gap", "grid-template-columns", "grid-template-rows", "height", "hyphens", "inset",
  "justify-content", "justify-items", "justify-self", "left", "letter-spacing", "line-break",
  "line-height", "list-style", "list-style-type", "margin", "margin-bottom", "margin-left",
  "margin-right", "margin-top", "max-height", "max-width", "min-height", "min-width",
  "object-fit", "opacity", "order", "outline", "outline-color", "outline-offset",
  "outline-style", "outline-width", "overflow", "overflow-wrap", "overflow-x", "overflow-y",
  "padding", "padding-bottom", "padding-left", "padding-right", "padding-top", "pointer-events",
  "position", "right", "row-gap", "stroke", "stroke-width", "text-align", "text-align-last",
  "text-decoration", "text-decoration-color", "text-decoration-line", "text-decoration-style",
  "text-decoration-thickness", "text-indent", "text-justify", "text-overflow", "text-shadow",
  "text-transform", "top", "transform", "transform-origin", "transition", "transition-delay",
  "transition-duration", "transition-property", "transition-timing-function", "user-select",
  "vertical-align", "visibility", "white-space", "width", "word-break", "word-spacing",
  "word-wrap", "z-index"
]

def colored : List String := [
  "background", "background-color", "border", "border-bottom", "border-bottom-color",
  "border-color", "border-left", "border-left-color", "border-right", "border-right-color",
  "border-top", "border-top-color", "box-shadow", "caret-color", "color", "fill", "outline",
  "outline-color", "stroke", "text-decoration", "text-decoration-color", "text-shadow"
]

def isCustom : Text → Bool
  | '-' :: '-' :: _ => true
  | _ => false

/-- Whether the values of a property are read; those of others are kept as source text. -/
def isKnown (name : Text) : Bool := !isCustom name && name.isOneOf known

def isColored (name : Text) : Bool := name.isOneOf colored

end Property

inductive BlockKind where
  | rules
  | declarations
  deriving DecidableEq, Repr

namespace BlockKind

def declarationRules : List String := [
  "font-face", "page", "property", "counter-style", "font-palette-values", "viewport",
  "font-feature-values"
]

def withoutVendor : Text → Text
  | '-' :: name =>
    match name.dropWhile (· != '-') with
    | [] => '-' :: name
    | _ :: rest => rest
  | name => name

def ofAtRule (name : Text) : BlockKind :=
  if (withoutVendor name).isOneOf declarationRules then declarations else rules

end BlockKind

end Css
