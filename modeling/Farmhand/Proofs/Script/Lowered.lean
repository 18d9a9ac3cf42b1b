import Farmhand.Proofs.Script.Indented

/-!
# Further Down

The parser looks at the kinds of tokens. Of the places it only takes the line, to note a fault at
it and to quote it, and the ends of spans, to put spans together; so if all tokens stand further
down by the same number of lines, what is read from them stands further down as well and is the
same otherwise. It is shown along the recursion of the parser, once for each of its functions.

The places that stand nowhere are left alone: they stand nowhere still, and a span put together
with one of them is the other one.

## Main definitions

* `Span.down`, `Token.down`, `Expr.down`, `Stmt.down`, `Fault.down`: The same, further down.
* `Cursor.down`: The same position among tokens further down.
* `answerDown`: The same answer of a part of the parser.
* `QuotedDown`: A source that quotes lines as another one does further up.

## Theorems

* `Span.through_down`: Spans are put together alike.
* `expression_down`: Expressions are read alike.
* `statement_down`, `topLevel_down`: Statements and whole scripts are read alike.
-/

namespace Farmhand

namespace Script

open Text (SourceLines)

/-! ## Definitions -/

/-- The number of a line further down by `n` lines. Line 0 is none. -/
def lineDown (n : Nat) : Nat → Nat
  | 0 => 0
  | line + 1 => line + 1 + n

/-- A place further down. -/
def Place.down (n : Nat) (p : Place) : Place :=
  ⟨lineDown n p.line, p.column⟩

/-- A span further down. -/
def Span.down (n : Nat) (s : Span) : Span :=
  ⟨s.start.down n, s.stop.down n⟩

/-- A token further down. -/
def Token.down (n : Nat) (t : Token) : Token :=
  ⟨t.kind, t.span.down n⟩

/-- A fault further down. -/
def Fault.down (n : Nat) (f : Fault) : Fault :=
  ⟨lineDown n f.line, f.error⟩

mutual

/-- An expression further down. -/
def Expr.down (n : Nat) : Expr → Expr
  | .lit value span => .lit value (span.down n)
  | .var name span => .var name (span.down n)
  | .list items span => .list (Expr.downAll n items) (span.down n)
  | .index container position span => .index (container.down n) (position.down n) (span.down n)
  | .unary op operand span => .unary op (operand.down n) (span.down n)
  | .binary op left right span => .binary op (left.down n) (right.down n) (span.down n)
  | .call name args span => .call name (Expr.downAll n args) (span.down n)

/-- Expressions further down. -/
def Expr.downAll (n : Nat) : List Expr → List Expr
  | [] => []
  | e :: rest => e.down n :: Expr.downAll n rest

end

mutual

/-- A statement further down. -/
def Stmt.down (n : Nat) : Stmt → Stmt
  | .assign name op value span => .assign name op (value.down n) (span.down n)
  | .expr value span => .expr (value.down n) (span.down n)
  | .cond branches otherwise span =>
    .cond (Stmt.downBranches n branches)
      (match otherwise with
        | some body => some (Stmt.downBlock n body)
        | none => none) (span.down n)
  | .whileLoop condition body span =>
    .whileLoop (condition.down n) (Stmt.downBlock n body) (span.down n)
  | .forLoop name items body span =>
    .forLoop name (items.down n) (Stmt.downBlock n body) (span.down n)
  | .returnWith value span => .returnWith (value.map (Expr.down n)) (span.down n)
  | .breakLoop span => .breakLoop (span.down n)
  | .continueLoop span => .continueLoop (span.down n)
  | .pass span => .pass (span.down n)
  | .skipped text span => .skipped text (span.down n)

/-- The branches of a conditional further down. -/
def Stmt.downBranches (n : Nat) : List (Expr × List Stmt) → List (Expr × List Stmt)
  | [] => []
  | (condition, body) :: rest =>
    (condition.down n, Stmt.downBlock n body) :: Stmt.downBranches n rest

/-- A block further down. -/
def Stmt.downBlock (n : Nat) : List Stmt → List Stmt
  | [] => []
  | s :: rest => s.down n :: Stmt.downBlock n rest

end

namespace Cursor

/-- The same position among tokens further down. -/
def down (n : Nat) (c : Cursor) : Cursor :=
  ⟨c.last.down n, c.rest.map (Token.down n)⟩

-- As many tokens are left, so what is proved by their number goes on alike.
theorem size_down (n : Nat) (c : Cursor) : (c.down n).size = c.size := by
  simp [size, down]

/-- A position further on, among tokens further down. -/
def Shorter.down (n : Nat) {c : Cursor} (d : c.Shorter) : (c.down n).Shorter :=
  ⟨d.1.down n, by simpa [size_down] using d.2⟩

/-- A position that is not behind, among tokens further down. -/
def AtMost.down (n : Nat) {c : Cursor} (d : c.AtMost) : (c.down n).AtMost :=
  ⟨d.1.down n, by simpa [size_down] using d.2⟩

end Cursor

/-- The same answer of a part of the parser further down: a fault, or a result that is changed by a
    given function. -/
def answerDown {α β : Type} (n : Nat) (f : α → β) : Except Fault α → Except Fault β
  | .error fault => .error (fault.down n)
  | .ok a => .ok (f a)

/-- A source whose lines are quoted as those of another one, further up. -/
def QuotedDown (n : Nat) (source source' : SourceLines) : Prop :=
  ∀ line, (source'.line? (lineDown n line)).getD "" = (source.line? line).getD ""

/-! ## Positions -/

variable (n : Nat)

-- What stands nowhere stands nowhere still, and nothing else comes to stand there.
theorem lineDown_eq_zero_iff {line : Nat} : lineDown n line = 0 ↔ line = 0 := by
  cases line with
  | zero => exact ⟨fun _ => rfl, fun _ => rfl⟩
  | succ line => exact ⟨fun h => absurd h (by rw [lineDown]; omega), nofun⟩

-- The line of a span is that of its first place.
theorem Span.line_down (s : Span) : (s.down n).line = lineDown n s.line :=
  rfl

/-- Spans are put together alike. -/
theorem Span.through_down (first second : Span) :
    (first.down n).through (second.down n) = (first.through second).down n := by
  simp only [Span.through, Span.line_down, lineDown_eq_zero_iff]
  split
  · rfl
  · split <;> rfl

-- The span of an expression moves with it.
theorem Expr.span_down (e : Expr) : (e.down n).span = e.span.down n := by
  cases e <;> rfl

open Cursor

variable (c : Cursor)

-- What the parser looks at is the same.
theorem kind_down : (c.down n).kind = c.kind := by
  rcases c with ⟨last, rest⟩
  cases rest <;> rfl

-- Faults are noted at this line.
theorem line_down : (c.down n).line = lineDown n c.line := by
  rcases c with ⟨last, rest⟩
  cases rest <;> rfl

-- Spans are put together with the end of this one.
theorem last_down : (c.down n).last = c.last.down n :=
  rfl

-- Hence no question about a kind is answered otherwise.
theorem isAt_down (m : Mark) : (c.down n).isAt m = c.isAt m := by
  rcases c with ⟨last, rest⟩
  cases rest <;> rfl

-- A complaint about the token in front is the same one further down.
theorem unexpected_down : (c.down n).unexpected = c.unexpected.down n := by
  rw [unexpected, kind_down, line_down]
  rfl

/-- The next token is the same one, further down. -/
theorem take?_down :
    (c.down n).take? = c.take?.map fun next => (next.1.down n, next.2.down n) := by
  rcases c with ⟨last, rest⟩
  cases rest with
  | nil => rfl
  | cons t rest =>
      by_cases ht : t.kind.isMark .endOfInput = true
      · have hnone : Cursor.take? ⟨last, t :: rest⟩ = none := take?_eq_none rfl ht
        have hnone' : (Cursor.down n ⟨last, t :: rest⟩).take? = none :=
          take?_eq_none (t := t.down n) rfl ht
        rw [hnone, hnone']
        rfl
      · rw [Bool.not_eq_true] at ht
        have hfirst : (Cursor.mk last (t :: rest)).rest = t :: rest := rfl
        have hfirst' : (Cursor.down n ⟨last, t :: rest⟩).rest =
          t.down n :: rest.map (Token.down n) := rfl
        rcases exists_take? hfirst ht with ⟨next, htake, hnext⟩
        rcases exists_take? hfirst' ht with ⟨next', htake', hnext'⟩
        rw [htake, htake', Option.map_some]
        have hsame : next' = next.down n := by
          refine Subtype.ext ?_
          change next'.1 = next.1.down n
          rw [hnext', hnext]
          rfl
        rw [hsame]

-- A mark is there in the one place if it is in the other.
theorem skip?_down (m : Mark) : (c.down n).skip? m = (c.skip? m).map (Shorter.down n) := by
  rw [skip?, skip?, take?_down]
  cases c.take? with
  | none => rfl
  | some next =>
      by_cases hm : next.1.kind.isMark m = true
      · simp [Token.down, hm]
      · simp [Token.down, hm]

-- A mark is expected alike further down.
theorem expect_down (m : Mark) :
    (c.down n).expect m = answerDown n (Shorter.down n) (c.expect m) := by
  rw [expect, expect, skip?_down]
  cases c.skip? m with
  | none =>
      rw [line_down, kind_down]
      rfl
  | some next => rfl

-- How far a line is skipped depends on kinds alone. By induction on the tokens.
theorem skipLineFrom_down (last : Span) (tokens : List Token) :
    skipLineFrom (last.down n) (tokens.map (Token.down n)) = (skipLineFrom last tokens).down n := by
  induction tokens generalizing last with
  | nil => rfl
  | cons t rest ih =>
      rw [List.map_cons, skipLineFrom, skipLineFrom]
      simp only [Token.down, ih]
      split
      · rfl
      · split <;> rfl

-- How far a block is skipped depends on the kinds of its tokens alone.
theorem skipBlockFrom_down (depth : Nat) (last : Span) (tokens : List Token) :
    skipBlockFrom depth (last.down n) (tokens.map (Token.down n)) =
      (skipBlockFrom depth last tokens).down n := by
  induction tokens generalizing depth last with
  | nil => rfl
  | cons t rest ih =>
      rw [List.map_cons, skipBlockFrom.eq_def, skipBlockFrom.eq_def]
      simp only [Token.down, ih]
      split
      · rfl
      · split
        · rfl
        · split
          · cases depth <;> rfl
          · rfl

-- The rest of a line is skipped alike further down.
theorem skipLine_down : (c.down n).skipLine = c.skipLine.down n :=
  Subtype.ext (skipLineFrom_down n c.last c.rest)

-- A block is skipped alike further down.
theorem skipBlock_down : (c.down n).skipBlock = c.skipBlock.down n :=
  Subtype.ext (skipBlockFrom_down n 0 c.last c.rest)

-- A block under a line is there in both places, or in none.
theorem skipNested_down : (c.down n).skipNested = c.skipNested.down n := by
  rw [skipNested, skipNested, skip?_down]
  cases c.skip? .indent with
  | none => rfl
  | some next => exact Subtype.ext (congrArg Subtype.val (skipBlock_down n next.1) :)

theorem recover_down (t : Token) (next : c.Shorter) :
    recover (t.down n) (next.down n) = (recover t next).down n := by
  -- Whatever was skipped of the line, what is nested under it is skipped alike.
  have hnested : ∀ (d : next.1.AtMost) (d' : (next.down n).1.AtMost), d'.1 = d.1.down n →
      d'.1.skipNested.1 = d.1.skipNested.1.down n := by
    intro d d' h
    rw [h, skipNested_down]
    rfl
  refine Subtype.ext ?_
  unfold recover
  refine hnested _ _ ?_
  change (if t.kind.isMark .newline then (next.1.down n).here else (next.1.down n).skipLine).1 = _
  split
  · rfl
  · rw [skipLine_down]
    rfl

/-! ## Expressions -/

mutual

/-- Expressions are read alike. -/
theorem expression_down (floor : Nat) (c : Cursor) :
    expression floor (c.down n) =
      answerDown n (fun r => (r.1.down n, r.2.down n)) (expression floor c) := by
  rw [expression, expression, operand_down c]
  cases operand c with
  | error fault => rfl
  | ok answer =>
      rcases answer with ⟨left, c₁⟩
      dsimp only [answerDown, Shorter.down]
      rw [operators_down floor left c₁.1]
      cases operators floor left c₁.1 <;> rfl
termination_by (c.size, 1)

/-- Operands are read alike. The first token tells which one it is, and each kind that it may have
    is a case. -/
theorem operand_down (c : Cursor) :
    operand (c.down n) = answerDown n (fun r => (r.1.down n, r.2.down n)) (operand c) := by
  rw [operand, operand, take?_down]
  cases c.take? with
  | none =>
      dsimp only [Option.map_none]
      rw [unexpected_down]
      rfl
  | some next =>
      rcases next with ⟨t, c₁⟩
      dsimp only [Option.map_some, Token.down, Shorter.down]
      split
      · rfl
      · rfl
      · rfl
      · rfl
      · rfl
      -- A name, which is called if an opening parenthesis follows.
      · rw [skip?_down]
        cases c₁.1.skip? leftParen with
        | none => rfl
        | some c₂ =>
            dsimp only [Option.map_some, Shorter.down]
            rw [items_down rightParen c₂.1]
            cases items rightParen c₂.1 with
            | error fault => rfl
            | ok answer =>
                rcases answer with ⟨args, c₃⟩
                dsimp only [answerDown, AtMost.down]
                rw [expect_down]
                cases c₃.1.expect rightParen with
                | error fault => rfl
                | ok c₄ =>
                    dsimp only [answerDown, Shorter.down, Expr.down]
                    rw [← Span.through_down]
                    rfl
      -- Signs in front of an operand.
      · rw [expression_down unaryPower c₁.1]
        cases expression unaryPower c₁.1 with
        | error fault => rfl
        | ok answer =>
            dsimp only [answerDown, Expr.down]
            rw [Expr.span_down, Span.through_down]
            rfl
      · rw [expression_down unaryPower c₁.1]
        cases expression unaryPower c₁.1 <;> rfl
      · rw [expression_down notPower c₁.1]
        cases expression notPower c₁.1 with
        | error fault => rfl
        | ok answer =>
            dsimp only [answerDown, Expr.down]
            rw [Expr.span_down, Span.through_down]
            rfl
      -- An expression in parentheses, and a list.
      · rw [expression_down 0 c₁.1]
        cases expression 0 c₁.1 with
        | error fault => rfl
        | ok answer =>
            dsimp only [answerDown, Shorter.down]
            rw [expect_down]
            cases answer.2.1.expect rightParen <;> rfl
      · rw [items_down rightBracket c₁.1]
        cases items rightBracket c₁.1 with
        | error fault => rfl
        | ok answer =>
            dsimp only [answerDown, AtMost.down]
            rw [expect_down]
            cases answer.2.1.expect rightBracket with
            | error fault => rfl
            | ok c₃ =>
                dsimp only [answerDown, Shorter.down, Expr.down]
                rw [← Span.through_down]
                rfl
      · exact congrArg Except.error (unexpected_down n c)
termination_by (c.size, 0)

/-- What follows an operand is read alike. Whether an operator binds it is told by its kind and by
    the power that is asked for. -/
theorem operators_down (floor : Nat) (left : Expr) (c : Cursor) :
    operators floor (left.down n) (c.down n) =
      answerDown n (fun r => (r.1.down n, r.2.down n)) (operators floor left c) := by
  rw [operators, operators, take?_down]
  cases c.take? with
  | none => rfl
  | some next =>
      rcases next with ⟨t, c₁⟩
      dsimp only [Option.map_some, Token.down, Shorter.down]
      cases BinaryOp.ofKind? t.kind with
      | some op =>
          dsimp only
          split
          · rfl
          · rw [expression_down op.power c₁.1]
            cases expression op.power c₁.1 with
            | error fault => rfl
            | ok answer =>
                rcases answer with ⟨right, c₂⟩
                have h := operators_down floor
                  (.binary op left right (left.span.through right.span)) c₂.1
                rw [Expr.down, ← Span.through_down, ← Expr.span_down, ← Expr.span_down] at h
                dsimp only [answerDown, Shorter.down]
                rw [h]
                generalize Expr.binary op left right (left.span.through right.span) = y
                cases operators floor y c₂.1 <;> rfl
      | none =>
          dsimp only
          split
          · rw [expression_down 0 c₁.1]
            cases expression 0 c₁.1 with
            | error fault => rfl
            | ok answer =>
                rcases answer with ⟨position, c₂⟩
                dsimp only [answerDown, Shorter.down]
                rw [expect_down]
                cases c₂.1.expect rightBracket with
                | error fault => rfl
                | ok c₃ =>
                    have h := operators_down floor
                      (.index left position (left.span.through c₃.1.last)) c₃.1
                    rw [Expr.down, ← Span.through_down, ← Expr.span_down] at h
                    dsimp only [answerDown, Shorter.down]
                    rw [last_down, h]
                    generalize Expr.index left position (left.span.through c₃.1.last) = y
                    cases operators floor y c₃.1 <;> rfl
          · rfl
termination_by (c.size, 0)

/-- The items of a list or a call are read alike. -/
theorem items_down (closing : Mark) (c : Cursor) :
    items closing (c.down n) =
      answerDown n (fun r => (Expr.downAll n r.1, r.2.down n)) (items closing c) := by
  rw [items, items, isAt_down]
  split
  · rfl
  · rw [expression_down 0 c]
    cases expression 0 c with
    | error fault => rfl
    | ok answer =>
        rcases answer with ⟨e, c₁⟩
        dsimp only [answerDown, Shorter.down]
        rw [skip?_down]
        cases c₁.1.skip? comma with
        | none => rfl
        | some c₂ =>
            dsimp only [Option.map_some, Shorter.down]
            rw [items_down closing c₂.1]
            cases items closing c₂.1 <;> rfl
termination_by (c.size, 2)

end

/-! ## Lines -/

/-- The end of a header is read alike. -/
theorem headerEnd_down : headerEnd (c.down n) = answerDown n (Shorter.down n) (headerEnd c) := by
  rw [headerEnd, headerEnd, expect_down]
  cases c.expect colon with
  | error fault => rfl
  | ok c₁ =>
      dsimp only [answerDown, Shorter.down]
      rw [expect_down]
      cases c₁.1.expect .newline <;> rfl

/-- A header is read alike: the condition, and its end. -/
theorem header_down :
    header (c.down n) = answerDown n (fun r => (r.1.down n, r.2.down n)) (header c) := by
  rw [header, header, expression_down]
  cases expression 0 c with
  | error fault => rfl
  | ok answer =>
      dsimp only [answerDown, Shorter.down]
      rw [headerEnd_down]
      cases headerEnd answer.2.1 <;> rfl

/-- An expression with nothing behind it on the line is read alike. -/
theorem lineExpression_down :
    lineExpression (c.down n) =
      answerDown n (fun r => (r.1.down n, r.2.down n)) (lineExpression c) := by
  rw [lineExpression, lineExpression, expression_down]
  cases expression 0 c with
  | error fault => rfl
  | ok answer =>
      dsimp only [answerDown, Shorter.down]
      rw [expect_down]
      cases answer.2.1.expect .newline <;> rfl

/-- The header of a `for` loop is read alike. -/
theorem forHeader_down :
    forHeader (c.down n) =
      answerDown n (fun r => (r.1, r.2.1.down n, r.2.2.down n)) (forHeader c) := by
  rw [forHeader, forHeader, take?_down]
  cases c.take? with
  | none => exact congrArg Except.error (unexpected_down n c)
  | some next =>
      rcases next with ⟨t, c₁⟩
      dsimp only [Option.map_some, Token.down, Shorter.down]
      split
      · rw [expect_down]
        cases c₁.1.expect (.keyword .inWord) with
        | error fault => rfl
        | ok c₂ =>
            dsimp only [answerDown, Shorter.down]
            rw [header_down]
            cases header c₂.1 <;> rfl
      · exact congrArg Except.error (unexpected_down n c)

-- A statement that only has to end here.
theorem map_expect_down (next : c.Shorter) (f : next.1.Shorter → Stmt × c.Shorter)
    (f' : (next.1.down n).Shorter → Stmt × (c.down n).Shorter)
    (hf : ∀ d, f' (d.down n) = ((f d).1.down n, (f d).2.down n)) :
    ((next.1.down n).expect .newline).map f' =
      answerDown n (fun r => (r.1.down n, r.2.down n)) ((next.1.expect .newline).map f) := by
  rw [expect_down]
  cases next.1.expect .newline with
  | error fault => rfl
  | ok d => exact congrArg Except.ok (hf d)

-- The span of an expression that is a statement is put together from two.
theorem exprStatement_down (t : Token) (answer : Expr × c.Shorter) :
    (Except.ok (Stmt.expr (answer.1.down n) ((t.span.down n).through (answer.2.down n).1.last),
        answer.2.down n) : Except Fault (Stmt × (c.down n).Shorter)) =
      answerDown n (fun r : Stmt × c.Shorter => (r.1.down n, r.2.down n))
        (.ok (Stmt.expr answer.1 (t.span.through answer.2.1.last), answer.2)) := by
  dsimp only [answerDown, Stmt.down]
  rw [← Span.through_down]
  rfl

/-- A statement of one line is read alike further down. Which kind it is depends on the kinds of its
    first two tokens, and these are the same. -/
theorem lineStatement_down (t : Token) (next : c.Shorter) :
    lineStatement (c.down n) (t.down n) (next.down n) =
      answerDown n (fun r => (r.1.down n, r.2.down n)) (lineStatement c t next) := by
  unfold lineStatement
  dsimp only [Token.down, Shorter.down]
  split
  -- A line that returns, with a value or without one.
  · rw [skip?_down]
    cases next.1.skip? .newline with
    | none =>
        dsimp only [Option.map_none]
        rw [lineExpression_down]
        cases lineExpression next.1 with
        | error fault => rfl
        | ok answer =>
            dsimp only [answerDown, Shorter.down]
            rw [last_down, Span.through_down]
            rfl
    | some c₁ =>
        dsimp only [Option.map_some, Shorter.down]
        rw [last_down, Span.through_down]
        rfl
  -- The lines of one word.
  · exact map_expect_down n c next _ _ fun d => rfl
  · exact map_expect_down n c next _ _ fun d => rfl
  · exact map_expect_down n c next _ _ fun d => rfl
  · rw [kind_down, take?_down]
    -- A line that is not assigned to anything is an expression.
    cases t.kind with
    | name name =>
        cases AssignOp.ofKind? next.1.kind with
        | none =>
            dsimp only
            rw [lineExpression_down]
            cases lineExpression c with
            | error fault => rfl
            | ok answer => exact exprStatement_down n c t answer
        | some op =>
            cases next.1.take? with
            | none =>
                dsimp only [Option.map_none]
                rw [lineExpression_down]
                cases lineExpression c with
                | error fault => rfl
                | ok answer => exact exprStatement_down n c t answer
            | some behind =>
                dsimp only [Option.map_some, Shorter.down]
                rw [lineExpression_down]
                cases lineExpression behind.2.1 with
                | error fault => rfl
                | ok answer =>
                    dsimp only [answerDown, Shorter.down]
                    rw [last_down, Span.through_down]
                    rfl
    | _ =>
        dsimp only
        rw [lineExpression_down]
        cases lineExpression c with
        | error fault => rfl
        | ok answer => exact exprStatement_down n c t answer

/-! ## Blocks -/

variable {n}
variable {source source' : SourceLines}

/-- The answer about the further branches of a conditional, further down. -/
def branchesDown (n : Nat) {c : Cursor} :
    Except (List Fault × c.AtMost) (List (Expr × Block) × Option Block × List Fault × c.AtMost) →
      Except (List Fault × (c.down n).AtMost)
        (List (Expr × Block) × Option Block × List Fault × (c.down n).AtMost)
  | .error (faults, d) => .error (faults.map (Fault.down n), d.down n)
  | .ok (others, otherwise, faults, d) =>
    .ok (Stmt.downBranches n others, otherwise.map (Stmt.downBlock n), faults.map (Fault.down n),
      d.down n)

-- A line that is skipped is quoted, and both sources quote it alike.
theorem skipped_down (hq : QuotedDown n source source') (t : Token) :
    Stmt.skipped ((source'.line? (t.down n).span.line).getD "") (t.down n).span =
      (Stmt.skipped ((source.line? t.span.line).getD "") t.span).down n := by
  rw [Stmt.down]
  exact congrArg (fun text => Stmt.skipped text (t.down n).span) (hq t.span.line)

mutual

/-- Statements are read alike. -/
theorem statement_down (hq : QuotedDown n source source') (c : Cursor) (t : Token)
    (next : c.Shorter) :
    statement source' (c.down n) (t.down n) (next.down n) =
      ((statement source c t next).1.down n, (statement source c t next).2.1.map (Fault.down n),
        (statement source c t next).2.2.down n) := by
  have hskipped := skipped_down hq t
  have hrecover := recover_down n c t next
  rw [statement, statement]
  dsimp only
  rw [hskipped, hrecover]
  -- The answer on the right is left closed, so that its parts can be generalized below.
  conv => lhs; dsimp only [Token.down, Shorter.down]
  split
  · rw [skipBlock_down]
    rfl
  · rw [header_down]
    cases header next.1 with
    | error fault => rfl
    | ok answer =>
        rcases answer with ⟨condition, c₁⟩
        conv => lhs; dsimp only [answerDown, Shorter.down]
        rw [block_down hq c₁.1]
        dsimp only
        rcases block source c₁.1 with ⟨body, faults, c₂⟩
        conv => lhs; dsimp only [AtMost.down]
        rw [branches_down hq c₂.1]
        cases branches source c₂.1 with
        | error answer =>
            dsimp only [branchesDown]
            rw [← List.map_append]
            rfl
        | ok answer =>
            rcases answer with ⟨others, otherwise, more, c₃⟩
            dsimp only [branchesDown]
            rw [← List.map_append]
            cases otherwise <;> rfl
  · rw [header_down]
    cases header next.1 with
    | error fault => rfl
    | ok answer =>
        rcases answer with ⟨condition, c₁⟩
        dsimp only [answerDown, Shorter.down]
        rw [block_down hq c₁.1]
        rfl
  · rw [forHeader_down]
    cases forHeader next.1 with
    | error fault => rfl
    | ok answer =>
        rcases answer with ⟨name, items, c₁⟩
        dsimp only [answerDown, Shorter.down]
        rw [block_down hq c₁.1]
        rfl
  · have hline := lineStatement_down n c t next
    dsimp only [Token.down, Shorter.down] at hline
    rw [hline]
    cases lineStatement c t next <;> rfl
termination_by (c.size, 0)

/-- A block is read alike, from its opening to its closing. -/
theorem block_down (hq : QuotedDown n source source') (c : Cursor) :
    block source' (c.down n) =
      (Stmt.downBlock n (block source c).1, (block source c).2.1.map (Fault.down n),
        (block source c).2.2.down n) := by
  rw [block, block, skip?_down]
  cases c.skip? .indent with
  | none =>
      dsimp only [Option.map_none]
      rw [line_down]
      rfl
  | some c₁ =>
      dsimp only [Option.map_some, Shorter.down]
      rw [statements_down hq c₁.1]
      dsimp only [AtMost.down]
      rw [skip?_down]
      cases (statements source c₁.1).2.2.1.skip? .dedent <;> rfl
termination_by (c.size, 2)

/-- The further branches of a conditional are read alike, and so is what makes all of them be
    skipped. -/
theorem branches_down (hq : QuotedDown n source source') (c : Cursor) :
    branches source' (c.down n) = branchesDown n (branches source c) := by
  rw [branches, branches, take?_down]
  cases c.take? with
  | none => rfl
  | some next =>
      rcases next with ⟨t, next⟩
      dsimp only [Option.map_some, Token.down, Shorter.down]
      split
      · rw [header_down]
        cases header next.1 with
        | error fault =>
            dsimp only [answerDown]
            have hrecover := recover_down n c t next
            dsimp only [Token.down, Shorter.down] at hrecover
            rw [hrecover]
            rfl
        | ok answer =>
            rcases answer with ⟨condition, c₁⟩
            dsimp only [answerDown, Shorter.down]
            rw [block_down hq c₁.1]
            rcases block source c₁.1 with ⟨body, faults, c₂⟩
            dsimp only [AtMost.down]
            rw [branches_down hq c₂.1]
            cases branches source c₂.1 with
            | error answer =>
                dsimp only [branchesDown]
                rw [← List.map_append]
                rfl
            | ok answer =>
                dsimp only [branchesDown]
                rw [← List.map_append]
                rfl
      · rw [headerEnd_down]
        cases headerEnd next.1 with
        | error fault =>
            dsimp only [answerDown]
            have hrecover := recover_down n c t next
            dsimp only [Token.down, Shorter.down] at hrecover
            rw [hrecover]
            rfl
        | ok c₁ =>
            dsimp only [answerDown, Shorter.down]
            rw [block_down hq c₁.1]
            rfl
      · rfl
termination_by (c.size, 0)

/-- Statements are read alike, up to the closing of their block. -/
theorem statements_down (hq : QuotedDown n source source') (c : Cursor) :
    statements source' (c.down n) =
      (Stmt.downBlock n (statements source c).1, (statements source c).2.1.map (Fault.down n),
        (statements source c).2.2.down n) := by
  rw [statements, statements, take?_down]
  cases c.take? with
  | none => rfl
  | some next =>
      rcases next with ⟨t, next⟩
      dsimp only [Option.map_some]
      have hkind : (t.down n).kind = t.kind := rfl
      rw [hkind]
      split
      · rfl
      · rw [statement_down hq c t next]
        rcases statement source c t next with ⟨first, faults, c₁⟩
        dsimp only [Shorter.down]
        rw [statements_down hq c₁.1]
        dsimp only
        rw [← List.map_append]
        rfl
termination_by (c.size, 1)

end

/-- Whole scripts are read alike. -/
theorem topLevel_down (hq : QuotedDown n source source') (c : Cursor) :
    topLevel source' (c.down n) =
      (Stmt.downBlock n (topLevel source c).1, (topLevel source c).2.map (Fault.down n)) := by
  rw [topLevel, topLevel, take?_down]
  cases c.take? with
  | none => rfl
  | some next =>
      rcases next with ⟨t, next⟩
      dsimp only [Option.map_some]
      have hkind : (t.down n).kind = t.kind := rfl
      rw [hkind]
      split
      · exact topLevel_down hq next.1
      · rw [statement_down hq c t next]
        rcases statement source c t next with ⟨first, faults, c₁⟩
        dsimp only [Shorter.down]
        rw [topLevel_down hq c₁.1]
        dsimp only
        rw [← List.map_append]
        rfl
termination_by c.size

/-! ## Whole scripts -/

/-- Numbered lines further down. -/
def codeDown (n : Nat) (code : List (Nat × List Char)) : List (Nat × List Char) :=
  code.map fun p => (p.1 + n, p.2)

/-- The refusal of a script further down. -/
def LexError.down (n : Nat) : LexError → LexError
  | .inconsistentIndent line => .inconsistentIndent (lineDown n line)

/-- A program further down. -/
def Parsed.down (n : Nat) (p : Parsed) : Parsed :=
  ⟨Stmt.downBlock n p.body, p.faults.map (Fault.down n)⟩

/-- The tokens of a script further down, or its refusal. -/
def tokensDown (n : Nat) : Except LexError (List Token) → Except LexError (List Token)
  | .error e => .error (e.down n)
  | .ok tokens => .ok (tokens.map (Token.down n))

/-- The program of a script further down, or its refusal. -/
def compiledDown (n : Nat) : Except LexError Parsed → Except LexError Parsed
  | .error e => .error (e.down n)
  | .ok parsed => .ok (parsed.down n)

-- The lines of a text are counted from one.
theorem lineDown_of_ne_zero {line : Nat} (h : line ≠ 0) : lineDown n line = line + n := by
  cases line with
  | zero => exact absurd rfl h
  | succ line => rfl

-- A span of a line of the text moves by as much as the line.
theorem inLine_down {line : Nat} (h : line ≠ 0) (first last : Nat) :
    Span.inLine (line + n) first last = (Span.inLine line first last).down n := by
  rw [Span.inLine, ← lineDown_of_ne_zero h]
  rfl

/-- A line has the same tokens further down. By the recursion of the lexer along the line. -/
theorem lineTokens_down {line : Nat} (h : line ≠ 0) (column : Nat) (cs : List Char) :
    lineTokens (line + n) column cs = (lineTokens line column cs).map (Token.down n) := by
  fun_induction lineTokens line column cs with
  | case1 column =>
      rw [lineTokens, inLine_down h]
      rfl
  | case2 column c rest hgap ih => rw [lineTokens, if_pos hgap, ih]
  | case3 column rest stop hgap =>
      rw [lineTokens, if_neg hgap, if_pos rfl]
      dsimp only
      rw [inLine_down h]
      rfl
  | case4 column c rest hgap hcomment next stop ih =>
      rw [lineTokens, if_neg hgap, if_neg hcomment]
      dsimp only
      rw [inLine_down h, ih]
      rfl

/-- Lines have the same tokens further down, with the same layout between them. -/
theorem codeTokens_down (blocks : List Nat) (lastLine : Nat) {code : List (Nat × List Char)}
    (hcode : ∀ p ∈ code, p.1 ≠ 0) :
    codeTokens blocks (lastLine + n) (codeDown n code) =
      tokensDown n (codeTokens blocks lastLine code) := by
  induction code generalizing blocks lastLine with
  | nil =>
      have hstop : Span.inLine (lastLine + n + 1) 1 1 =
          (Span.inLine (lastLine + 1) 1 1).down n := by
        rw [Nat.add_right_comm]
        exact inLine_down (Nat.succ_ne_zero lastLine) 1 1
      rw [codeDown, List.map_nil, codeTokens, codeTokens, tokensDown, hstop, List.map_append,
        List.map_map]
      rfl
  | cons p rest ih =>
      rcases p with ⟨number, line⟩
      have hnumber : number ≠ 0 := hcode (number, line) List.mem_cons_self
      have hrest := fun blocks => ih blocks number fun p hp => hcode p (List.mem_cons_of_mem _ hp)
      have hlayout : ∀ shapes : List Layout,
          (shapes.map fun shape =>
            (⟨.mark (.layout shape), .inLine (number + n) 1 (indentLength line + 1)⟩ : Token)) =
          (shapes.map fun shape =>
            (⟨.mark (.layout shape), .inLine number 1 (indentLength line + 1)⟩ : Token)).map
              (Token.down n) := by
        intro shapes
        rw [List.map_map, inLine_down hnumber]
        rfl
      rw [codeDown, List.map_cons, ← codeDown, codeTokens, codeTokens]
      cases changeIndent (indentWidth 0 line) blocks with
      | none =>
          rw [← lineDown_of_ne_zero hnumber]
          rfl
      | some change =>
          rcases change with ⟨shapes, inner⟩
          dsimp only
          rw [hrest inner]
          cases codeTokens inner number rest with
          | error e => rfl
          | ok after =>
              dsimp only [tokensDown]
              rw [hlayout, lineTokens_down hnumber, List.map_append, List.map_append]

-- Lines that are counted from further on.
theorem codeLines_add (number : Nat) (lines : List (List Char)) :
    codeLines (number + n) lines = codeDown n (codeLines number lines) := by
  induction lines generalizing number with
  | nil => rfl
  | cons line rest ih =>
      rw [codeLines, codeLines, Nat.add_right_comm, ih (number + 1)]
      split
      · rfl
      · rfl

-- Empty lines in front of a text only count.
theorem codeLines_replicate (number front : Nat) (lines : List (List Char)) :
    codeLines number (List.replicate front [] ++ lines) = codeLines (number + front) lines := by
  induction front generalizing number with
  | zero => rfl
  | succ front ih =>
      have hblank : isCode [] = false := rfl
      rw [List.replicate_succ, List.cons_append, codeLines, hblank, if_neg Bool.false_ne_true, ih,
        Nat.add_right_comm, Nat.add_assoc]

-- Empty lines hold no code.
theorem isCode_of_mem_replicate {m : Nat} {line : List Char} (h : line ∈ List.replicate m []) :
    isCode line = false := by
  rw [List.eq_of_mem_replicate h]
  rfl

section

variable {front back : Nat} {text original : String}
variable (hlines : Text.lines text.toList =
  List.replicate front [] ++ Text.lines original.toList ++ List.replicate back [])
include hlines

/-- A text with empty lines around it is quoted as before, further down. -/
theorem quotedDown_of_lines :
    QuotedDown front (.ofString original) (.ofString text) := by
  intro line
  cases line with
  | zero => rfl
  | succ line =>
      -- Behind the text there are empty lines or none, and both are quoted as nothing.
      have hbehind : ((List.replicate back ([] : List Char))[line -
          (Text.lines original.toList).length]?.map fun row =>
            String.ofList (Text.trim row)).getD "" = "" := by
        rw [List.getElem?_replicate]
        split <;> rfl
      rw [lineDown, Nat.add_right_comm, SourceLines.line?, SourceLines.line?,
        SourceLines.ofString, SourceLines.ofString]
      dsimp only
      rw [hlines, List.append_assoc, List.getElem?_append_right (by simp), List.length_replicate,
        Nat.add_sub_cancel]
      by_cases hline : line < (Text.lines original.toList).length
      · rw [List.getElem?_append_left hline]
      · rw [Nat.not_lt] at hline
        rw [List.getElem?_append_right hline, List.getElem?_eq_none hline]
        exact hbehind

-- With empty lines put in front, the code is the same further down.
theorem codeLines_of_lines :
    codeLines 1 (Text.lines text.toList) =
      codeDown front (codeLines 1 (Text.lines original.toList)) := by
  rw [hlines, codeLines_append _ _ _ fun line => isCode_of_mem_replicate, codeLines_replicate,
    codeLines_add]

/-- A text with empty lines around it has the same program, further down. -/
theorem compile_down : compile text = compiledDown front (compile original) := by
  have htokens : tokenize text = codeTokens [] 0
      (codeDown front (codeLines 1 (Text.lines original.toList))) := by
    rw [tokenize_eq_codeTokens, codeLines_of_lines hlines]
  have hcode : ∀ p ∈ codeLines 1 (Text.lines original.toList), p.1 ≠ 0 :=
    fun p hp => Nat.ne_of_gt (getElem?_of_mem_codeLines hp).1
  rw [compile, compile, htokens, tokenize_eq_codeTokens]
  cases hall : codeLines 1 (Text.lines original.toList) with
  | nil =>
      -- Where no line is code, nothing is read.
      have hend : ∀ source : String,
          parse [⟨.mark .endOfInput, .inLine 1 1 1⟩] source = ⟨[], []⟩ := by
        intro source
        rw [parse, topLevel_of_end _ rfl rfl]
      exact (congrArg Except.ok (hend text)).trans
        (congrArg (fun p => compiledDown front (.ok p)) (hend original).symm)
  | cons p rest =>
      have hlast : codeTokens [] 0 (codeDown front (p :: rest)) =
          codeTokens [] (0 + front) (codeDown front (p :: rest)) := rfl
      rw [hlast, codeTokens_down [] 0 (hall ▸ hcode)]
      cases codeTokens [] 0 (p :: rest) with
      | error e => rfl
      | ok tokens =>
          have hread := topLevel_down (quotedDown_of_lines hlines) (.start tokens)
          exact congrArg (fun answer : Block × List Fault =>
            (Except.ok ⟨answer.1, answer.2⟩ : Except LexError Parsed)) hread

end

end Script

end Farmhand
