import Css.Color
import Css.Color.Function
import Css.Color.Names
import Css.Cursor
import Css.Diagnostic
import Css.Keyword
import Css.Media
import Css.Media.Parser
import Css.Media.Printer
import Css.Number
import Css.Number.Decimal
import Css.Proofs.Color.Optimal
import Css.Proofs.Color.Shortest
import Css.Proofs.Location
import Css.Proofs.Media.Boolean
import Css.Proofs.Media.Features
import Css.Proofs.Media.Fits
import Css.Proofs.Media.Nesting
import Css.Proofs.Media.Printing
import Css.Proofs.Media.Queries
import Css.Proofs.Media.Reading
import Css.Proofs.Media.Roundtrip
import Css.Proofs.Media.Tokens
import Css.Proofs.Media.Trivia
import Css.Proofs.Number.Longest
import Css.Proofs.Number.Rounding
import Css.Proofs.Number.Text
import Css.Proofs.Pos
import Css.Proofs.Selector.Cutting
import Css.Proofs.Selector.Marks
import Css.Proofs.Selector.Nesting
import Css.Proofs.Selector.Parsing
import Css.Proofs.Selector.Printing
import Css.Proofs.Selector.Reading
import Css.Proofs.Selector.Roundtrip
import Css.Proofs.Selector.Shape
import Css.Proofs.Selector.Tokens
import Css.Proofs.Selector.Trivia
import Css.Proofs.Selector.Unsigned
import Css.Proofs.Selector.WellFormed
import Css.Proofs.Shift
import Css.Proofs.Stylesheet.Accepted
import Css.Proofs.Stylesheet.Append
import Css.Proofs.Stylesheet.Blocks
import Css.Proofs.Stylesheet.Clean
import Css.Proofs.Stylesheet.Collected
import Css.Proofs.Stylesheet.Conditions
import Css.Proofs.Stylesheet.Declarations
import Css.Proofs.Stylesheet.Derived
import Css.Proofs.Stylesheet.Diagnostics
import Css.Proofs.Stylesheet.Enclosing
import Css.Proofs.Stylesheet.Frame
import Css.Proofs.Stylesheet.Grammar
import Css.Proofs.Stylesheet.Heads
import Css.Proofs.Stylesheet.Layout
import Css.Proofs.Stylesheet.Leading
import Css.Proofs.Stylesheet.Lexical
import Css.Proofs.Stylesheet.Limit
import Css.Proofs.Stylesheet.Lines
import Css.Proofs.Stylesheet.Located
import Css.Proofs.Stylesheet.Minify
import Css.Proofs.Stylesheet.Neighbours
import Css.Proofs.Stylesheet.Outermost
import Css.Proofs.Stylesheet.Parts
import Css.Proofs.Stylesheet.Places
import Css.Proofs.Stylesheet.Raising
import Css.Proofs.Stylesheet.RawValues
import Css.Proofs.Stylesheet.Recast
import Css.Proofs.Stylesheet.Reread
import Css.Proofs.Stylesheet.Resume
import Css.Proofs.Stylesheet.Roundtrip
import Css.Proofs.Stylesheet.Segment
import Css.Proofs.Stylesheet.Spaced
import Css.Proofs.Stylesheet.Steps
import Css.Proofs.Stylesheet.Tracking
import Css.Proofs.Stylesheet.Unplaced
import Css.Proofs.Text.Lossy
import Css.Proofs.Text.Utf8
import Css.Proofs.TextProperty.Colors
import Css.Proofs.TextProperty.Decoration
import Css.Proofs.TextProperty.Keywords
import Css.Proofs.TextProperty.Lines
import Css.Proofs.TextProperty.Order
import Css.Proofs.TextProperty.Roles
import Css.Proofs.TextProperty.Roundtrip
import Css.Proofs.Token.Alike
import Css.Proofs.Token.Balanced
import Css.Proofs.Token.Barrier
import Css.Proofs.Token.Cutting
import Css.Proofs.Token.Depth
import Css.Proofs.Token.Excerpt
import Css.Proofs.Token.Faults
import Css.Proofs.Token.Fits
import Css.Proofs.Token.Follow
import Css.Proofs.Token.Grammar
import Css.Proofs.Token.Iteration
import Css.Proofs.Token.Level
import Css.Proofs.Token.Lookahead
import Css.Proofs.Token.Malformed
import Css.Proofs.Token.Marks
import Css.Proofs.Token.Minified
import Css.Proofs.Token.OpenString
import Css.Proofs.Token.Parting
import Css.Proofs.Token.Plain
import Css.Proofs.Token.RawText
import Css.Proofs.Token.Recast
import Css.Proofs.Token.Reduced
import Css.Proofs.Token.Replacement
import Css.Proofs.Token.Reprint
import Css.Proofs.Token.Requoted
import Css.Proofs.Token.Respaced
import Css.Proofs.Token.Restart
import Css.Proofs.Token.Roundtrip
import Css.Proofs.Token.Run
import Css.Proofs.Token.Scanned
import Css.Proofs.Token.Scanning
import Css.Proofs.Token.Spaced
import Css.Proofs.Token.Standing
import Css.Proofs.Token.Tiles
import Css.Proofs.Transform
import Css.Proofs.Transform.Fitting
import Css.Proofs.Value.Colors
import Css.Proofs.Value.Components
import Css.Proofs.Value.Grammar
import Css.Proofs.Value.Nesting
import Css.Proofs.Value.Parts
import Css.Proofs.Value.Raw
import Css.Proofs.Value.Reading
import Css.Proofs.Value.Recolored
import Css.Proofs.Value.Roundtrip
import Css.Proofs.Value.Trivia
import Css.Proofs.Value.Unsigned
import Css.Proofs.Value.Written
import Css.Property
import Css.Selector
import Css.Selector.Parser
import Css.Selector.Printer
import Css.Style
import Css.Stylesheet
import Css.Stylesheet.Declaration
import Css.Stylesheet.Minify
import Css.Stylesheet.Parser
import Css.Stylesheet.Printer
import Css.Stylesheet.Segment
import Css.Text
import Css.Text.Utf8
import Css.TextProperty
import Css.TextProperty.Basic
import Css.TextProperty.Parser
import Css.Token
import Css.Token.Block
import Css.Token.Reading
import Css.Token.Run
import Css.Token.Scan
import Css.Token.ScanLength
import Css.Tokenizer
import Css.Transform
import Css.Value
import Css.Value.Parser
import Css.Value.Printer
