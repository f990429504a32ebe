import Css.Media.Parser
import Css.Selector.Parser
import Css.Stylesheet.Declaration
import Css.Stylesheet.Segment
import Css.Token.Reading

/-!
# Reading style sheets

A style sheet is read one lexeme at a time. The state holds the blocks that are open, innermost
first, and the segment that is being collected, if there is one. Every error is noted and read
past, except nesting beyond the limit, which ends the reading.
-/

namespace Css

structure ParseOptions where
  /-- The greatest number of brackets and blocks inside one another. -/
  maxDepth : Nat := 128
  /-- Whether `//` starts a comment up to the end of the line. -/
  lineComments : Bool := true

/-- A style sheet with what was wrong with its source, in the order of the source. -/
structure ParseResult where
  sheet : Stylesheet
  diagnostics : List Diagnostic

namespace Parser

inductive Purpose where
  | selector
  | atRule (start : Span) (name : Text)
  | declaration

def Purpose.endsAtBlock : Purpose → Bool
  | declaration => false
  | _ => true

def Purpose.endsAtSemicolon : Purpose → Bool
  | selector => false
  | _ => true

/-- An open block. The selectors of a style rule were read when its block opened; `span` is where
they stand. -/
inductive Frame where
  | style (selectors : Except SelectorError SelectorList) (span : Span)
      (declarations : Array Declaration)
  | group (start : Span) (name : Text) (prelude : Prelude) (rules : Array Rule)
  | descriptors (start : Span) (name : Text) (prelude : Prelude)
      (declarations : Array Declaration)

def Frame.holdsDeclarations : Frame → Bool
  | group .. => false
  | _ => true

structure State where
  limit : Nat
  /-- The rules outside every block. -/
  rules : Array Rule
  /-- The open blocks, innermost first. -/
  frames : List Frame
  /-- The segment that is being collected. -/
  segment : Option (Purpose × Segment)
  diagnostics : Array Diagnostic
  /-- Whether the nesting limit was passed. -/
  aborted : Bool

namespace State

def initial (limit : Nat) : State where
  limit := limit
  rules := #[]
  frames := []
  segment := none
  diagnostics := #[]
  aborted := false

def report (state : State) (span : Span) (problem : Problem) : State :=
  { state with diagnostics := state.diagnostics.push ⟨span, problem⟩ }

def inDeclarations (state : State) : Bool :=
  (state.frames.head?.map Frame.holdsDeclarations).getD false

/-! ### Adding what has been read -/

def addDeclaration (state : State) (declaration : Declaration) : State :=
  match state.frames with
  | .style selectors span declarations :: frames =>
    { state with frames := .style selectors span (declarations.push declaration) :: frames }
  | .descriptors start name prelude declarations :: frames =>
    { state with
      frames := .descriptors start name prelude (declarations.push declaration) :: frames }
  | _ => state

def addRule (state : State) (rule : Rule) : State :=
  match state.frames with
  | [] => { state with rules := state.rules.push rule }
  | .group start name prelude rules :: frames =>
    { state with frames := .group start name prelude (rules.push rule) :: frames }
  | _ => state

/-- Adds an at-rule that starts at a span. Among declarations it is dropped. -/
def addAtRule (state : State) (start : Span) (rule : Rule) : State :=
  if state.inDeclarations then
    if state.aborted then state
    else state.report start (.invalidDeclaration DeclarationError.atRule.message)
  else state.addRule rule

/-! ### Closing blocks -/

def closeFrame (state : State) : State :=
  match state.frames with
  | [] => state
  | frame :: frames =>
    let state := { state with frames }
    match frame with
    | .style (.ok selectors) _ declarations =>
      state.addRule (.style selectors declarations.toList)
    | .style (.error error) span _ => state.report span (.invalidSelector error.message)
    | .group start name prelude rules =>
      state.addAtRule start (.group name prelude rules.toList)
    | .descriptors start name prelude declarations =>
      state.addAtRule start (.descriptors name prelude declarations.toList)

/-- Closes every block, innermost first. At the end of the source each lacks its bracket. -/
def closeFrames (atEnd : Option Span) : List Frame → State → State
  | [], state => state
  | _ :: frames, state =>
    let state := match atEnd with
      | some span => state.report span (.unbalancedBlock Bracket.curly.closing)
      | none => state
    closeFrames atEnd frames state.closeFrame

/-! ### Ending segments -/

def reportUnmatched (state : State) (start : Span) (segment : Segment) (stop : Span) : State :=
  match segment.unmatched with
  | some bracket =>
    state.report (start.join (segment.span stop)) (.unbalancedBlock bracket.closing)
  | none => state

def readPrelude (name : Text) (lexemes : List Lexeme) : Prelude :=
  let queries := if name.isKeyword "media" then MediaList.parse? lexemes else none
  match queries with
  | some queries => .media queries
  | none => .tokens (TokenRun.ofLexemes lexemes)

def addStatement (state : State) (start : Span) (name : Text) (segment : Segment) (stop : Span) :
    State :=
  (state.reportUnmatched start segment stop).addAtRule start
    (.statement name (readPrelude name segment.lexemes.toList))

def endSegment (state : State) (purpose : Purpose) (segment : Segment) (stop : Span) : State :=
  let state := { state with segment := none }
  let segment := segment.finish
  match purpose with
  | .selector =>
    state.report (segment.span stop) (.invalidSelector SelectorError.missingBlock.message)
  | .atRule start name => state.addStatement start name segment stop
  | .declaration =>
    match Declaration.parse segment.unmatched.isNone segment.lexemes.toList with
    | .ok declaration => state.addDeclaration declaration
    | .error error => state.report (segment.span stop) (.invalidDeclaration error.message)

def abort (state : State) (span : Span) : State :=
  { state.report span (.depthExceeded state.limit) with aborted := true, segment := none }

/-- Gives up inside a segment. What was read of an at-rule is kept. -/
def abortSegment (state : State) (purpose : Purpose) (segment : Segment) (stop : Span) : State :=
  let state := state.abort stop
  let state := match purpose with
    | .atRule start name => state.addStatement start name segment stop
    | _ => state
  closeFrames none state.frames state

def isTooDeep (state : State) (depth : Nat) : Bool := state.limit < state.frames.length + depth + 1

def frame? (purpose : Purpose) (segment : Segment) (stop : Span) : Option Frame :=
  let lexemes := segment.lexemes.toList
  match purpose with
  | .selector =>
    let selectors :=
      if segment.unmatched.isSome then .error .unbalanced else SelectorList.parse lexemes
    some (.style selectors (segment.span stop) #[])
  | .atRule start name =>
    match BlockKind.ofAtRule name with
    | .rules => some (.group start name (readPrelude name lexemes) #[])
    | .declarations => some (.descriptors start name (readPrelude name lexemes) #[])
  | .declaration => none

def openBlock (state : State) (purpose : Purpose) (segment : Segment) (stop : Span) : State :=
  let state := { state with segment := none }
  let state := match purpose with
    | .atRule start _ => state.reportUnmatched start segment stop
    | _ => state
  if state.isTooDeep 0 then
    let state := state.abort stop
    closeFrames none state.frames state
  else { state with frames := (frame? purpose segment stop).toList ++ state.frames }

/-! ### Steps -/

def extend (state : State) (purpose : Purpose) (segment : Segment) (lexeme : Lexeme) : State :=
  if lexeme.token.opens?.isSome && state.isTooDeep segment.stack.length then
    state.abortSegment purpose segment lexeme.span
  else { state with segment := some (purpose, segment.push lexeme) }

/-- A lexeme at the start of a segment, or in one that it does not close. -/
def collect (state : State) (purpose : Purpose) (segment : Segment) (lexeme : Lexeme) : State :=
  if lexeme.token = .opening .curly ∧ segment.stack = [] ∧ purpose.endsAtBlock then
    state.openBlock purpose segment lexeme.span
  else if lexeme.token = .semicolon ∧ !segment.inCurly ∧ purpose.endsAtSemicolon then
    state.endSegment purpose segment lexeme.span
  else state.extend purpose segment lexeme

def closeCurly (state : State) (span : Span) : State :=
  if state.frames.isEmpty then state.report span (.unbalancedBlock Bracket.curly.opening)
  else state.closeFrame

def isIdle (state : State) (token : Token) : Bool :=
  token.isTrivia || (state.inDeclarations && token == .semicolon) ||
    (state.frames.isEmpty && (token == .cdo || token == .cdc))

def begin (state : State) (lexeme : Lexeme) : State :=
  if state.isIdle lexeme.token then state
  else match lexeme.token with
    | .closing .curly => state.closeCurly lexeme.span
    | .atKeyword name => { state with segment := some (.atRule lexeme.span name, .empty) }
    | _ =>
      state.collect (if state.inDeclarations then .declaration else .selector) .empty lexeme

def step (state : State) (reading : Reading) : State :=
  if state.aborted then state
  else
    let lexeme := reading.lexeme
    let state := { state with
      diagnostics := state.diagnostics ++ reading.diagnostic?.toList.toArray }
    match state.segment with
    | none => state.begin lexeme
    | some (purpose, segment) =>
      if lexeme.token = .closing .curly ∧ !segment.inCurly then
        (state.endSegment purpose segment lexeme.span).closeCurly lexeme.span
      else state.collect purpose segment lexeme

def finish (state : State) (place : Pos) : State :=
  if state.aborted then state
  else
    let stop := Span.point place
    let state := match state.segment with
      | some (purpose, segment) => state.endSegment purpose segment stop
      | none => state
    closeFrames (some stop) state.frames state

end State

end Parser

def Stylesheet.parse (options : ParseOptions) (text : Text) : ParseResult :=
  let readings := Reading.all options.lineComments 0 text
  let state := readings.foldl Parser.State.step (Parser.State.initial options.maxDepth)
  let state := state.finish (.ofPlace text.byteLength)
  { sheet := state.rules.toList
    diagnostics := Diagnostic.sort state.diagnostics.toList }

end Css
