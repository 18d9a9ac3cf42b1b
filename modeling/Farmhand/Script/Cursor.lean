import Farmhand.Script.Token

/-!
# Reading Positions

A position among the tokens of a script: what is still to be read, and the place of what was read
last. The end of input is never read over, so a position there stays. Every step forward comes with
the fact that fewer tokens are left, which is why the parser built on it ends.

## Main definitions

* `Cursor`: A position.
* `Cursor.Shorter`, `Cursor.AtMost`: Positions further on, or not behind.
* `Cursor.take?`: The next token.
* `Cursor.skip?`, `Cursor.expect`: A given mark, which may or must be next.
* `Cursor.skipLine`, `Cursor.skipBlock`: The rest of a line, and a whole block.
* `ParseError`, `Fault`: What can be wrong with a line.
-/

namespace Farmhand

namespace Script

/-- What can be wrong with a line. -/
inductive ParseError where
  | unexpectedToken (found : Token.Kind)
  | expectedToken (expected : Mark) (found : Token.Kind)
  /-- A header without a block under it. -/
  | expectedBlock
  /-- A block without a header above it. -/
  | unexpectedIndent
deriving Inhabited

/-- The text of an error. -/
def ParseError.message : ParseError → String
  | unexpectedToken found => s!"Unexpected token: {found.describe}"
  | expectedToken expected found =>
    s!"Expected token: {expected.describe}, found: {found.describe}"
  | expectedBlock => "Expected an indented block"
  | unexpectedIndent => "Unexpected indent"

/-- An error with the line of the token at which it was noticed. -/
structure Fault where
  line : Nat
  error : ParseError
deriving Inhabited

/-- A position among tokens: the place of the token read last, and the tokens left. -/
structure Cursor where
  last : Span
  rest : List Token

namespace Cursor

/-- The number of tokens left. -/
def size (c : Cursor) : Nat :=
  c.rest.length

/-- A position with fewer tokens left. -/
abbrev Shorter (c : Cursor) : Type :=
  { d : Cursor // d.size < c.size }

/-- A position with no more tokens left. -/
abbrev AtMost (c : Cursor) : Type :=
  { d : Cursor // d.size ≤ c.size }

/-- The position itself. -/
def here (c : Cursor) : c.AtMost :=
  ⟨c, Nat.le_refl _⟩

/-- A position further on is not behind. -/
def Shorter.atMost {c : Cursor} (d : c.Shorter) : c.AtMost :=
  ⟨d.1, Nat.le_of_lt d.2⟩

/-- A step forward, then no step back. -/
def Shorter.andThen {c : Cursor} (d : c.Shorter) (e : d.1.AtMost) : c.Shorter :=
  ⟨e.1, Nat.lt_of_le_of_lt e.2 d.2⟩

/-- No step back, twice. -/
def AtMost.andThen {c : Cursor} (d : c.AtMost) (e : d.1.AtMost) : c.AtMost :=
  ⟨e.1, Nat.le_trans e.2 d.2⟩

/-- The start of a token list. -/
def start (tokens : List Token) : Cursor :=
  ⟨.nowhere, tokens⟩

/-- The kind of the next token; past the last one, the end of input. -/
def kind (c : Cursor) : Token.Kind :=
  match c.rest with
  | [] => .mark .endOfInput
  | t :: _ => t.kind

/-- The line of the next token. -/
def line (c : Cursor) : Nat :=
  match c.rest with
  | [] => 0
  | t :: _ => t.span.line

/-- Whether a mark is next. -/
def isAt (c : Cursor) (m : Mark) : Bool :=
  match c.rest with
  | [] => false
  | t :: _ => t.kind.isMark m

/-- The next token, unless it is the end of input, and the position after it. -/
def take? (c : Cursor) : Option (Token × c.Shorter) :=
  match h : c.rest with
  | [] => none
  | t :: rest =>
    if t.kind.isMark .endOfInput then none
    else some (t, ⟨⟨t.span, rest⟩, by simp [size, h]⟩)

/-- Steps over a mark if it is next. -/
def skip? (c : Cursor) (m : Mark) : Option c.Shorter :=
  match c.take? with
  | some (t, next) => if t.kind.isMark m then some next else none
  | none => none

/-- The error that the next token has no place here. -/
def unexpected (c : Cursor) : Fault :=
  ⟨c.line, .unexpectedToken c.kind⟩

/-- Steps over a mark, which has to be next. -/
def expect (c : Cursor) (m : Mark) : Except Fault c.Shorter :=
  match c.skip? m with
  | some next => .ok next
  | none => .error ⟨c.line, .expectedToken m c.kind⟩

/-- Skips the rest of a line, its end included. A line also ends where the block around it does. -/
def skipLineFrom (last : Span) : List Token → Cursor
  | [] => ⟨last, []⟩
  | t :: rest =>
    if t.kind.isMark .newline then ⟨t.span, rest⟩
    else if t.kind.isMark .dedent || t.kind.isMark .endOfInput then ⟨last, t :: rest⟩
    else skipLineFrom t.span rest

/-- Skips to the end of the block that is open `depth + 1` deep, its closing included. -/
def skipBlockFrom (depth : Nat) (last : Span) : List Token → Cursor
  | [] => ⟨last, []⟩
  | t :: rest =>
    if t.kind.isMark .endOfInput then ⟨last, t :: rest⟩
    else if t.kind.isMark .indent then skipBlockFrom (depth + 1) t.span rest
    else if t.kind.isMark .dedent then
      match depth with
      | 0 => ⟨t.span, rest⟩
      | depth + 1 => skipBlockFrom depth t.span rest
    else skipBlockFrom depth t.span rest

theorem size_skipLineFrom_le (last : Span) (tokens : List Token) :
    (skipLineFrom last tokens).size ≤ tokens.length := by
  fun_induction skipLineFrom last tokens <;> simp_all [size]
  omega

theorem size_skipBlockFrom_le (depth : Nat) (last : Span) (tokens : List Token) :
    (skipBlockFrom depth last tokens).size ≤ tokens.length := by
  fun_induction skipBlockFrom depth last tokens <;> simp_all [size] <;> omega

/-- Skips the rest of the line. -/
def skipLine (c : Cursor) : c.AtMost :=
  ⟨skipLineFrom c.last c.rest, size_skipLineFrom_le c.last c.rest⟩

/-- Skips to the end of the block that has just been opened. -/
def skipBlock (c : Cursor) : c.AtMost :=
  ⟨skipBlockFrom 0 c.last c.rest, size_skipBlockFrom_le 0 c.last c.rest⟩

/-- Skips a block if one opens here. -/
def skipNested (c : Cursor) : c.AtMost :=
  match c.skip? .indent with
  | some next => (next.andThen next.1.skipBlock).atMost
  | none => c.here

/-- Where reading goes on after a line that starts with a given token and is no statement: behind
    the line, and behind the block under it. -/
def recover {c : Cursor} (first : Token) (next : c.Shorter) : c.Shorter :=
  let behind := if first.kind.isMark .newline then next.1.here else next.1.skipLine
  next.andThen (behind.andThen behind.1.skipNested)

end Cursor

end Script

end Farmhand
