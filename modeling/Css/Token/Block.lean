import Css.Token

/-!
# Blocks and groups of lexemes

How a run of lexemes is cut: at the bracket that ends a block, at commas outside every bracket, and
around the trivia at both ends. Cutting counts brackets and does not look at their shape;
`isBalanced` is what makes sure that the shapes agree.
-/

namespace Css

namespace Lexeme

def isTrivia (lexeme : Lexeme) : Bool := lexeme.token.isTrivia

def dropTrivia (lexemes : List Lexeme) : List Lexeme := lexemes.dropWhile isTrivia

def trim (lexemes : List Lexeme) : List Lexeme :=
  (dropTrivia (dropTrivia lexemes).reverse).reverse

def isVoid (lexemes : List Lexeme) : Bool := lexemes.all isTrivia

def next? : List Lexeme → Option (Token × List Lexeme)
  | [] => none
  | lexeme :: lexemes => if lexeme.isTrivia then next? lexemes else some (lexeme.token, lexemes)

theorem length_of_next? {lexemes rest : List Lexeme} {token : Token}
    (h : next? lexemes = some (token, rest)) : rest.length < lexemes.length := by
  induction lexemes with
  | nil => simp [next?] at h
  | cons lexeme lexemes ih =>
    unfold next? at h
    split at h
    · exact Nat.lt_succ_of_lt (ih h)
    · simp only [Option.some.injEq, Prod.mk.injEq] at h
      obtain ⟨-, rfl⟩ := h
      simp

def tokens (lexemes : List Lexeme) : List Token := lexemes.map (·.token)

/-! ### Brackets -/

/-- Whether the brackets that are open, innermost first, and those of some lexemes close in
order, each by its own shape. -/
def closesAll : List Bracket → List Lexeme → Bool
  | stack, [] => stack.isEmpty
  | stack, lexeme :: lexemes =>
    match lexeme.token.opens?, lexeme.token.closes? with
    | some bracket, _ => closesAll (bracket :: stack) lexemes
    | none, some bracket =>
      match stack with
      | top :: stack => top == bracket && closesAll stack lexemes
      | [] => false
    | none, none => closesAll stack lexemes

def isBalanced (lexemes : List Lexeme) : Bool := closesAll [] lexemes

/-- A block cut out of a run: what it holds, what closes it, and what follows. -/
structure Block where
  inner : List Lexeme
  closer : Lexeme
  rest : List Lexeme

def Block.cons (lexeme : Lexeme) (block : Block) : Block :=
  { block with inner := lexeme :: block.inner }

/-- The block that ends in some lexemes, `depth` brackets deep in it. -/
def cutBlockFrom? : (depth : Nat) → List Lexeme → Option Block
  | _, [] => none
  | depth, lexeme :: lexemes =>
    if lexeme.token.opens?.isSome then (cutBlockFrom? (depth + 1) lexemes).map (Block.cons lexeme)
    else if lexeme.token.closes?.isSome then
      match depth with
      | 0 => some ⟨[], lexeme, lexemes⟩
      | depth + 1 => (cutBlockFrom? depth lexemes).map (Block.cons lexeme)
    else (cutBlockFrom? depth lexemes).map (Block.cons lexeme)

def cutBlock? (lexemes : List Lexeme) : Option Block := cutBlockFrom? 0 lexemes

theorem cutBlockFrom?_eq_some {depth : Nat} {lexemes : List Lexeme} {block : Block}
    (h : cutBlockFrom? depth lexemes = some block) :
    lexemes = block.inner ++ block.closer :: block.rest := by
  induction lexemes generalizing depth block with
  | nil => simp [cutBlockFrom?] at h
  | cons lexeme lexemes ih =>
    have hcons : ∀ {depth}, (cutBlockFrom? depth lexemes).map (Block.cons lexeme) = some block →
        lexeme :: lexemes = block.inner ++ block.closer :: block.rest := by
      intro depth h
      obtain ⟨found, hfound, rfl⟩ := Option.map_eq_some_iff.1 h
      simp [Block.cons, ih hfound]
    unfold cutBlockFrom? at h
    split at h
    · exact hcons h
    · split at h
      · split at h
        · obtain rfl := Option.some.inj h
          simp
        · exact hcons h
      · exact hcons h

/-- Cutting loses nothing. -/
theorem cutBlock?_eq_some {lexemes : List Lexeme} {block : Block}
    (h : cutBlock? lexemes = some block) :
    lexemes = block.inner ++ block.closer :: block.rest :=
  cutBlockFrom?_eq_some h

theorem length_of_cutBlock? {lexemes : List Lexeme} {block : Block}
    (h : cutBlock? lexemes = some block) :
    block.inner.length + block.rest.length + 1 = lexemes.length := by
  rw [cutBlock?_eq_some h]
  simp
  omega

/-! ### Commas -/

structure Groups where
  first : List Lexeme
  more : List (List Lexeme)

namespace Groups

def toList (groups : Groups) : List (List Lexeme) := groups.first :: groups.more

def cons (lexeme : Lexeme) (groups : Groups) : Groups :=
  { groups with first := lexeme :: groups.first }

def startGroup (groups : Groups) : Groups := ⟨[], groups.toList⟩

end Groups

def splitCommasFrom : (depth : Nat) → List Lexeme → Groups
  | _, [] => ⟨[], []⟩
  | depth, lexeme :: lexemes =>
    if lexeme.token.opens?.isSome then (splitCommasFrom (depth + 1) lexemes).cons lexeme
    else if lexeme.token.closes?.isSome then (splitCommasFrom (depth - 1) lexemes).cons lexeme
    else if lexeme.token = .comma ∧ depth = 0 then (splitCommasFrom depth lexemes).startGroup
    else (splitCommasFrom depth lexemes).cons lexeme

def splitCommas (lexemes : List Lexeme) : Groups := splitCommasFrom 0 lexemes

def totalLength : List (List Lexeme) → Nat
  | [] => 0
  | group :: groups => group.length + 1 + totalLength groups

theorem totalLength_cons (lexeme : Lexeme) (groups : Groups) :
    totalLength (groups.cons lexeme).toList = totalLength groups.toList + 1 := by
  simp only [Groups.cons, Groups.toList, totalLength, List.length_cons]
  omega

theorem totalLength_startGroup (groups : Groups) :
    totalLength groups.startGroup.toList = totalLength groups.toList + 1 := by
  simp only [Groups.startGroup, Groups.toList, totalLength, List.length_nil]
  omega

theorem totalLength_splitCommasFrom (depth : Nat) (lexemes : List Lexeme) :
    totalLength (splitCommasFrom depth lexemes).toList = lexemes.length + 1 := by
  induction lexemes generalizing depth with
  | nil => rfl
  | cons lexeme lexemes ih =>
    unfold splitCommasFrom
    split
    · rw [totalLength_cons, ih, List.length_cons]
    split
    · rw [totalLength_cons, ih, List.length_cons]
    split
    · rw [totalLength_startGroup, ih, List.length_cons]
    · rw [totalLength_cons, ih, List.length_cons]

theorem totalLength_splitCommas (lexemes : List Lexeme) :
    totalLength (splitCommas lexemes).toList = lexemes.length + 1 :=
  totalLength_splitCommasFrom 0 lexemes

/-! ### Source text -/

/-- The source text of some lexemes, with a space for trivia that does not follow a space. -/
def joinSpaced : Text → List Lexeme → Text
  | text, [] => text
  | text, lexeme :: lexemes =>
    if lexeme.isTrivia then
      joinSpaced (if text.getLast? = some ' ' then text else text ++ [' ']) lexemes
    else joinSpaced (text ++ lexeme.raw) lexemes

def isComment (lexeme : Lexeme) : Bool :=
  match lexeme.token with
  | .comment _ => true
  | _ => false

/-- The source text of some lexemes without the trivia at both ends. It is as written where there
is no comment in it; otherwise all trivia in it become single spaces. -/
def rawText (lexemes : List Lexeme) : Text :=
  let inner := trim lexemes
  if inner.any isComment then joinSpaced [] inner else inner.flatMap (·.raw)

end Lexeme

end Css
