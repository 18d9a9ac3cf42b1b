import Mathlib
import Farmhand.Proofs.Script.Tiles

/-!
# Reading Step by Step

The parser once more, as a loop that goes through the tokens by number and notes what is wrong as it
goes. A part of it that cannot be read gives up with what it has noted, wherever it is by then, and
the line is given up from there. Nothing in its form says that it goes forward, or that whoever
gives up has noted a fault, once: such things have to be shown of it. Nor does anything say that it
ends. Each of its loops is given a number of rounds and comes to nothing when they are used up, and
that some number is enough has to be shown as well. What it reads is what the parser reads.

## Main definitions

* `Reader`: A position, by its number, and the faults noted so far.
* `Reader.Trial`, `Reader.Pass`: Reading that may give up, and reading that always answers.
* `Reader.bump`, `Reader.skip`, `Reader.expect`: Single steps.
* `Reader.expression`, `Reader.parseExpression`: Expressions.
* `Reader.synchronize`, `Reader.skipBlock`: What is passed over.
* `Reader.statement`, `Reader.statements`, `Reader.topLevel`, `Reader.parse`: Programs.
* `Reader.cursor`, `Reader.Over`: Positions as the parser has them, and the tokens between two.
-/

namespace Farmhand

namespace Script

open Text (SourceLines)

/-- A position among tokens, by its number, and the faults noted so far. -/
structure Reader where
  tokens : List Token
  pos : Nat
  faults : List Fault

namespace Reader

/-! ## Looking -/

/-- The first position, with nothing noted. -/
def start (tokens : List Token) : Reader :=
  ⟨tokens, 0, []⟩

/-- The next token. -/
def current? (r : Reader) : Option Token :=
  r.tokens[r.pos]?

/-- The kind of the next token; past the last one, the end of input. -/
def kind (r : Reader) : Token.Kind :=
  match r.current? with
  | some t => t.kind
  | none => .mark .endOfInput

/-- The place of the next token. -/
def span (r : Reader) : Span :=
  match r.current? with
  | some t => t.span
  | none => .nowhere

/-- The place of the token in front of the position. -/
def prevSpan (r : Reader) : Span :=
  match r.pos with
  | 0 => .nowhere
  | n + 1 =>
    match r.tokens[n]? with
    | some t => t.span
    | none => .nowhere

/-- Whether a mark is next. -/
def isAt (r : Reader) (m : Mark) : Bool :=
  match r.current? with
  | some t => t.kind.isMark m
  | none => false

/-- Whether nothing is left. -/
def atEnd (r : Reader) : Bool :=
  match r.current? with
  | some t => t.kind.isMark .endOfInput
  | none => true

/-- The way in which the token behind the next one assigns, if it does. -/
def assignment? (r : Reader) : Option AssignOp :=
  r.tokens[r.pos + 1]?.bind fun t => AssignOp.ofKind? t.kind

/-! ## Single steps -/

/-- Reading that always comes to an answer, if it ends. -/
abbrev Pass (α : Type) : Type :=
  StateT Reader Option α

/-- Reading that may give up, if it ends. What was read and noted until then stays. -/
abbrev Trial (α : Type) : Type :=
  OptionT (StateT Reader Option) α

/-- One token further, unless nothing is left. -/
def bump : Pass Unit :=
  modify fun r => if r.atEnd then r else { r with pos := r.pos + 1 }

/-- Notes a fault at the line of the next token. -/
def note (error : ParseError) : Pass Unit :=
  modify fun r => { r with faults := r.faults ++ [⟨r.span.line, error⟩] }

/-- Steps over a mark if it is next, and tells whether it was. -/
def skip (m : Mark) : Pass Bool := do
  if (← get).isAt m then
    bump
    pure true
  else
    pure false

/-- Gives up for a reason. -/
def refuse {α : Type} (error : ParseError) : Trial α := do
  note error
  failure

/-- Steps over a mark, which has to be next. -/
def expect (m : Mark) : Trial Unit := do
  if ← skip m then
    pure ()
  else
    refuse (.expectedToken m (← get).kind)

/-- There are no rounds left. -/
def unfinished {α : Type} : Pass α :=
  fun _ => none

/-! ## Expressions -/

mutual

/-- An expression whose operators bind tighter than `floor`. -/
def expression : Nat → Nat → Trial Expr
  | 0, _ => OptionT.lift unfinished
  | n + 1, floor => do
    let left ← operand n
    operators n floor left

/-- What an expression can start with. -/
def operand : Nat → Trial Expr
  | 0 => OptionT.lift unfinished
  | n + 1 => do
    let r ← get
    match r.kind with
    | .int m => do
      bump
      pure (.lit (.int m) r.span)
    | .float x => do
      bump
      pure (.lit (.float x) r.span)
    | .str text => do
      bump
      pure (.lit (.str text) r.span)
    | .bool b => do
      bump
      pure (.lit (.bool b) r.span)
    | .none => do
      bump
      pure (.lit .none r.span)
    | .name name => do
      bump
      if ← skip leftParen then
        let args ← items n rightParen
        expect rightParen
        pure (.call name args (r.span.through (← get).prevSpan))
      else
        pure (.var name r.span)
    | .mark (.punctuation .minus) => do
      bump
      let e ← expression n unaryPower
      pure (.unary .neg e (r.span.through e.span))
    | .mark (.punctuation .plus) => do
      bump
      expression n unaryPower
    | .mark (.keyword .notWord) => do
      bump
      let e ← expression n notPower
      pure (.unary .not e (r.span.through e.span))
    | .mark (.punctuation .leftParen) => do
      bump
      let e ← expression n 0
      expect rightParen
      pure e
    | .mark (.punctuation .leftBracket) => do
      bump
      let es ← items n rightBracket
      expect rightBracket
      pure (.list es (r.span.through (← get).prevSpan))
    | _ => refuse (.unexpectedToken r.kind)

/-- The operators and indices that follow a left operand and bind tighter than `floor`. -/
def operators : Nat → Nat → Expr → Trial Expr
  | 0, _, _ => OptionT.lift unfinished
  | n + 1, floor, left => do
    let r ← get
    if r.atEnd then
      pure left
    else
      match BinaryOp.ofKind? r.kind with
      | some op =>
        if op.power ≤ floor then
          pure left
        else do
          bump
          let right ← expression n op.power
          operators n floor (.binary op left right (left.span.through right.span))
      | none =>
        if r.isAt leftBracket && floor < indexPower then do
          bump
          let position ← expression n 0
          expect rightBracket
          operators n floor (.index left position (left.span.through (← get).prevSpan))
        else
          pure left

/-- The expressions of a call or a list, up to its closing mark. -/
def items : Nat → Mark → Trial (List Expr)
  | 0, _ => OptionT.lift unfinished
  | n + 1, closing => do
    if (← get).isAt closing then
      pure []
    else
      let e ← expression n 0
      if ← skip comma then
        let es ← items n closing
        pure (e :: es)
      else
        pure [e]

end

/-- Why there is no expression at the start of a token list. -/
inductive Refusal where
  /-- The first fault that was noted. -/
  | noted (error : ParseError)
  /-- Nothing was noted. -/
  | invalid

/-- What is answered, by the expression that was read, if one was, and the faults noted. -/
def verdict : Option Expr → List Fault → Except Refusal Expr
  | some e, [] => .ok e
  | _, fault :: _ => .error (.noted fault.error)
  | none, [] => .error .invalid

/-- The expression at the start of a token list, if nothing was noted. -/
def parseExpression (n : Nat) (tokens : List Token) : Option (Except Refusal Expr) :=
  ((expression n 0).run.run (start tokens)).map fun (answer, r) => verdict answer r.faults

/-! ## Lines -/

/-- The end of a header: a colon and the end of the line. -/
def headerEnd : Trial Unit := do
  expect colon
  expect .newline

/-- An expression and the end of a header. -/
def header (n : Nat) : Trial Expr := do
  let e ← expression n 0
  headerEnd
  pure e

/-- An expression and the end of the line. -/
def lineExpression (n : Nat) : Trial Expr := do
  let e ← expression n 0
  expect .newline
  pure e

/-- The header of a loop over items, behind its first word. -/
def forHeader (n : Nat) : Trial (String × Expr) := do
  let r ← get
  match r.kind with
  | .name name => do
    bump
    expect (.keyword .inWord)
    let e ← header n
    pure (name, e)
  | kind => refuse (.unexpectedToken kind)

/-- A line of one word. -/
def wordLine (s : Stmt) : Trial Stmt := do
  bump
  expect .newline
  pure s

/-- A line that returns. -/
def returnLine (n : Nat) (first : Span) : Trial Stmt := do
  bump
  if ← skip .newline then
    pure (.returnWith none (first.through (← get).prevSpan))
  else
    let e ← lineExpression n
    pure (.returnWith (some e) (first.through (← get).prevSpan))

/-- A line that assigns to a name. -/
def assignLine (n : Nat) (first : Span) (name : String) (op : AssignOp) : Trial Stmt := do
  bump
  bump
  let e ← lineExpression n
  pure (.assign name op e (first.through (← get).prevSpan))

/-- A line that is an expression. -/
def expressionLine (n : Nat) (first : Span) : Trial Stmt := do
  let e ← lineExpression n
  pure (.expr e (first.through (← get).prevSpan))

/-- A statement of one line. -/
def lineStatement (n : Nat) : Trial Stmt := do
  let r ← get
  match r.kind with
  | .mark (.keyword .returnWord) => returnLine n r.span
  | .mark (.keyword .breakWord) => wordLine (.breakLoop r.span)
  | .mark (.keyword .continueWord) => wordLine (.continueLoop r.span)
  | .mark (.keyword .passWord) => wordLine (.pass r.span)
  | .name name =>
    match r.assignment? with
    | some op => assignLine n r.span name op
    | none => expressionLine n r.span
  | _ => expressionLine n r.span

/-! ## What is passed over -/

/-- Skips the rest of a line, its end included. A line also ends where the block around it does. -/
def skipLine : Nat → Pass Unit
  | 0 => unfinished
  | n + 1 => do
    let r ← get
    if r.atEnd || r.isAt .dedent then
      pure ()
    else if r.isAt .newline then
      bump
    else do
      bump
      skipLine n

/-- Skips a block to its closing, with `depth` blocks open so far. -/
def skipBlock : Nat → Nat → Pass Unit
  | 0, _ => unfinished
  | n + 1, depth => do
    let r ← get
    if r.atEnd then
      pure ()
    else if r.isAt .indent then do
      bump
      skipBlock n (depth + 1)
    else if r.isAt .dedent then do
      bump
      if depth - 1 = 0 then
        pure ()
      else
        skipBlock n (depth - 1)
    else do
      bump
      skipBlock n depth

/-- Skips the rest of a line and the block under it. -/
def synchronize (n : Nat) : Pass Unit := do
  skipLine n
  if (← get).isAt .indent then
    skipBlock n 0
  else
    pure ()

/-! ## Programs -/

mutual

/-- A statement, or a line or a block that is none, kept with its text. -/
def statement : Nat → SourceLines → Pass Stmt
  | 0, _ => unfinished
  | n + 1, source => do
    let r ← get
    let skipped := Stmt.skipped ((source.line? r.span.line).getD "") r.span
    if r.isAt .indent then
      note .unexpectedIndent
      skipBlock n 0
      pure skipped
    else
      match ← attempt n source with
      | some s => pure s
      | none => do
        synchronize n
        pure skipped

/-- A statement by its first token, if it is one. Past the last token there is none, and that is no
    fault. -/
def attempt : Nat → SourceLines → Pass (Option Stmt)
  | 0, _ => unfinished
  | n + 1, source => do
    let r ← get
    match r.current? with
    | none => pure none
    | some t =>
      match t.kind with
      | .mark (.keyword .ifWord) => do
        bump
        match ← (header n).run with
        | none => pure none
        | some condition => do
          let body ← block n source
          match ← branches n source with
          | none => pure none
          | some (others, otherwise) =>
            pure (some (.cond ((condition, body) :: others) otherwise t.span))
      | .mark (.keyword .whileWord) => do
        bump
        match ← (header n).run with
        | none => pure none
        | some condition => do
          let body ← block n source
          pure (some (.whileLoop condition body t.span))
      | .mark (.keyword .forWord) => do
        bump
        match ← (forHeader n).run with
        | none => pure none
        | some (name, items) => do
          let body ← block n source
          pure (some (.forLoop name items body t.span))
      | _ => (lineStatement n).run

/-- The further branches of a conditional and the block for the case that none holds, unless one of
    the headers cannot be read. -/
def branches : Nat → SourceLines → Pass (Option (List (Expr × Block) × Option Block))
  | 0, _ => unfinished
  | n + 1, source => do
    if ← skip (.keyword .elifWord) then
      match ← (header n).run with
      | none => pure none
      | some condition => do
        let body ← block n source
        match ← branches n source with
        | none => pure none
        | some (others, otherwise) => pure (some ((condition, body) :: others, otherwise))
    else if ← skip (.keyword .elseWord) then
      match ← headerEnd.run with
      | none => pure none
      | some () => do
        let body ← block n source
        pure (some ([], some body))
    else
      pure (some ([], none))

/-- The block under a header. -/
def block : Nat → SourceLines → Pass Block
  | 0, _ => unfinished
  | n + 1, source => do
    if ← skip .indent then
      let body ← statements n source
      let _ ← skip .dedent
      pure body
    else
      note .expectedBlock
      pure []

/-- The statements up to the end of the block. -/
def statements : Nat → SourceLines → Pass Block
  | 0, _ => unfinished
  | n + 1, source => do
    let r ← get
    if r.atEnd || r.isAt .dedent then
      pure []
    else
      let first ← statement n source
      let others ← statements n source
      pure (first :: others)

end

/-- The statements of a whole script. A block that closes without having been opened is passed
    over. -/
def topLevel : Nat → SourceLines → Pass Block
  | 0, _ => unfinished
  | n + 1, source => do
    let r ← get
    if r.atEnd then
      pure []
    else if r.isAt .dedent then
      bump
      topLevel n source
    else
      let first ← statement n source
      let others ← topLevel n source
      pure (first :: others)

/-- The program of a token list, with the source that its lines are quoted from. -/
def parse (n : Nat) (tokens : List Token) (source : String) : Option Parsed :=
  ((topLevel n (.ofString source)).run (start tokens)).map fun (body, r) => ⟨body, r.faults⟩

/-! ## Positions -/

variable {α β γ : Type} {r r' r'' : Reader} {c : Cursor} {t : Token} {m : Mark}
  {P Q : Token → Prop}

/-- The position as the parser has it: what is left, and the place of what was read last. -/
def cursor (r : Reader) : Cursor :=
  ⟨r.prevSpan, r.tokens.drop r.pos⟩

/-- One token further. -/
def next (r : Reader) : Reader :=
  { r with pos := r.pos + 1 }

/-- A fault more, at the line of the next token. -/
def noting (r : Reader) (error : ParseError) : Reader :=
  { r with faults := r.faults ++ [⟨r.span.line, error⟩] }

-- Looking by number and looking at what is left is the same.
theorem current?_eq_head? (r : Reader) : r.current? = r.cursor.rest.head? := by
  rw [current?, cursor, List.head?_drop]

theorem kind_cursor (r : Reader) : r.cursor.kind = r.kind := by
  rw [kind, current?_eq_head?, Cursor.kind]
  cases r.cursor.rest <;> rfl

theorem line_cursor (r : Reader) : r.cursor.line = r.span.line := by
  rw [span, current?_eq_head?, Cursor.line]
  cases r.cursor.rest <;> rfl

theorem isAt_cursor (r : Reader) (m : Mark) : r.cursor.isAt m = r.isAt m := by
  rw [isAt, current?_eq_head?, Cursor.isAt]
  cases r.cursor.rest <;> rfl

/-- A token at a position, which can be taken. -/
structure Faces (r : Reader) (t : Token) : Prop where
  current : r.current? = some t
  more : t.kind.isMark .endOfInput = false

-- What a reader sees of the token that it faces.
theorem Faces.kind (h : r.Faces t) : r.kind = t.kind := by
  rw [Reader.kind, h.current]

theorem Faces.span (h : r.Faces t) : r.span = t.span := by
  rw [Reader.span, h.current]

theorem Faces.isAt (h : r.Faces t) (m : Mark) : r.isAt m = t.kind.isMark m := by
  rw [Reader.isAt, h.current]

theorem Faces.atEnd (h : r.Faces t) : r.atEnd = false := by
  rw [Reader.atEnd, h.current]
  exact h.more

-- One number further is one token less.
theorem cursor_next (h : r.current? = some t) : r.next.cursor = ⟨t.span, r.cursor.rest.tail⟩ := by
  have hlast : r.next.prevSpan = t.span := by
    rw [current?] at h
    change (match r.tokens[r.pos]? with | some t => t.span | none => Span.nowhere) = t.span
    rw [h]
  rw [cursor, hlast, cursor, List.tail_drop]
  rfl

-- What the parser can take, the reader faces.
theorem faces_of_take? (hr : r.cursor = c) {d : c.Shorter} (htake : c.take? = some (t, d)) :
    r.Faces t ∧ r.next.cursor = d.1 := by
  subst hr
  rcases Cursor.take?_eq_some htake with ⟨hrest, hend⟩
  rcases exists_take? hrest hend with ⟨d', htake', hd'⟩
  have hcurrent : r.current? = some t := by
    rw [current?_eq_head?, hrest, List.head?_cons]
  rw [htake, Option.some.injEq, Prod.mk.injEq] at htake'
  exact ⟨⟨hcurrent, hend⟩, by rw [cursor_next hcurrent, hrest, List.tail_cons, htake'.2, hd']⟩

-- Where the parser can take nothing, the reader is at the end.
theorem atEnd_of_take? (hr : r.cursor = c) (htake : c.take? = none) : r.atEnd = true := by
  subst hr
  rw [atEnd, current?_eq_head?]
  cases hrest : r.cursor.rest with
  | nil => rfl
  | cons t more =>
      by_cases hend : t.kind.isMark .endOfInput = true
      · exact hend
      · rcases exists_take? hrest (Bool.eq_false_iff.mpr hend) with ⟨d, htake', _⟩
        rw [htake] at htake'
        cases htake'

-- The token is the first of what is left.
theorem Faces.rest (h : r.Faces t) : r.cursor.rest = t :: r.next.cursor.rest := by
  have hhead := h.current
  rw [current?_eq_head?] at hhead
  rw [cursor_next h.current, List.cons_head?_tail hhead]

-- One of the two is always the case.
theorem atEnd_or_faces (r : Reader) : r.atEnd = true ∨ ∃ t, r.Faces t := by
  cases hcurrent : r.current? with
  | none => exact Or.inl (by rw [atEnd, hcurrent])
  | some t =>
      by_cases hend : t.kind.isMark .endOfInput = true
      · exact Or.inl (by rw [atEnd, hcurrent]; exact hend)
      · exact Or.inr ⟨t, hcurrent, Bool.eq_false_iff.mpr hend⟩

-- The end of the input is a kind as well, also behind the last token.
theorem kind_of_atEnd (h : r.atEnd = true) : r.kind = .mark .endOfInput := by
  rw [atEnd] at h
  rw [kind]
  cases hcurrent : r.current? with
  | none => rfl
  | some t =>
      rw [hcurrent] at h
      exact isMark_eq_true_iff.mp h

/-! ## What is read over -/

/-- A position that is not behind, with a token of a certain sort at every number in between. -/
structure Over (P : Token → Prop) (r r' : Reader) : Prop where
  tokens : r'.tokens = r.tokens
  le : r.pos ≤ r'.pos
  all : ∀ i, r.pos ≤ i → i < r'.pos → ∃ t, r.tokens[i]? = some t ∧ P t

theorem Over.refl (P : Token → Prop) (r : Reader) : r.Over P r :=
  ⟨rfl, le_rfl, fun _ hle hlt => absurd hlt (Nat.not_lt.mpr hle)⟩

theorem Over.mono (h : r.Over P r') (hPQ : ∀ t, P t → Q t) : r.Over Q r' := by
  refine ⟨h.tokens, h.le, fun i hle hlt => ?_⟩
  rcases h.all i hle hlt with ⟨t, hget, ht⟩
  exact ⟨t, hget, hPQ t ht⟩

-- A number in between two positions lies before or behind a third one between them.
theorem Over.trans (h : r.Over P r') (h' : r'.Over P r'') : r.Over P r'' := by
  refine ⟨h'.tokens.trans h.tokens, h.le.trans h'.le, fun i hle hlt => ?_⟩
  by_cases hi : i < r'.pos
  · exact h.all i hle hi
  · rw [← h.tokens]
    exact h'.all i (Nat.not_lt.mp hi) hlt

-- One step reads over one token.
theorem over_next (h : r.Faces t) (ht : P t) : r.Over P r.next := by
  refine ⟨rfl, Nat.le_succ r.pos, fun i hle hlt => ⟨t, ?_, ht⟩⟩
  rw [Nat.le_antisymm (Nat.le_of_lt_succ hlt) hle]
  exact h.current

/-- Fewer tokens are left further on. -/
theorem pos_lt_of_size_lt (htokens : r'.tokens = r.tokens) (h : r'.cursor.size < r.cursor.size) :
    r.pos < r'.pos := by
  rw [Cursor.size, Cursor.size, cursor, cursor, List.length_drop, List.length_drop, htokens] at h
  omega

end Reader

end Script

end Farmhand
