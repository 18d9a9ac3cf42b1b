import Farmhand.Script.Expression
import Farmhand.Script.Lexer

/-!
# Reading Statements

A statement is a line, or a header line with a block indented under it. Reading never fails as a
whole: a line that is no statement is kept with its text, the reason is recorded, and reading goes
on behind the line and behind the block under it. A header without a block under it has an empty
block, and that is recorded too.

## Main definitions

* `header`: The rest of a header line after its keyword.
* `statement`, `block`, `branches`, `statements`: The parts of a program.
* `Parsed`: A program with all that was wrong with its lines.
* `parse`, `compile`: The program of a token list and of a source text.
-/

namespace Farmhand

namespace Script

open Text (SourceLines)

/-- The mark that ends a header. -/
abbrev colon : Mark := .punctuation .colon

/-- The end of a header: a colon and the end of the line. -/
def headerEnd (c : Cursor) : Except Fault c.Shorter :=
  match c.expect colon with
  | .error fault => .error fault
  | .ok c₁ =>
    match c₁.1.expect .newline with
    | .error fault => .error fault
    | .ok c₂ => .ok (c₁.andThen c₂.atMost)

/-- An expression and the end of a header. -/
def header (c : Cursor) : Except Fault (Expr × c.Shorter) :=
  match expression 0 c with
  | .error fault => .error fault
  | .ok (e, c₁) =>
    match headerEnd c₁.1 with
    | .error fault => .error fault
    | .ok c₂ => .ok (e, c₁.andThen c₂.atMost)

/-- An expression and the end of the line. -/
def lineExpression (c : Cursor) : Except Fault (Expr × c.Shorter) :=
  match expression 0 c with
  | .error fault => .error fault
  | .ok (e, c₁) =>
    match c₁.1.expect .newline with
    | .error fault => .error fault
    | .ok c₂ => .ok (e, c₁.andThen c₂.atMost)

/-- The header of a loop over items: a name, `in` and an expression. -/
def forHeader (c : Cursor) : Except Fault (String × Expr × c.Shorter) :=
  match c.take? with
  | none => .error c.unexpected
  | some (t, c₁) =>
    match t.kind with
    | .name name =>
      match c₁.1.expect (.keyword .inWord) with
      | .error fault => .error fault
      | .ok c₂ =>
        match header c₂.1 with
        | .error fault => .error fault
        | .ok (e, c₃) => .ok (name, e, c₁.andThen (c₂.andThen c₃.atMost).atMost)
    | _ => .error c.unexpected

/-- The way in which a token assigns, if it does. -/
def AssignOp.ofKind? : Token.Kind → Option AssignOp
  | .mark (.punctuation .assign) => some .set
  | .mark (.punctuation .plusAssign) => some .add
  | .mark (.punctuation .minusAssign) => some .sub
  | _ => none

/-- A statement of one line, by its first token and the position after it. A name followed by an
    assignment sign is assigned to; any other line that starts like an expression is one. -/
def lineStatement (c : Cursor) (t : Token) (next : c.Shorter) :
    Except Fault (Stmt × c.Shorter) :=
  match t.kind with
  | .mark (.keyword .returnWord) =>
    match next.1.skip? .newline with
    | some c₁ => .ok (.returnWith none (t.span.through c₁.1.last), next.andThen c₁.atMost)
    | none =>
      match lineExpression next.1 with
      | .error fault => .error fault
      | .ok (e, c₁) => .ok (.returnWith (some e) (t.span.through c₁.1.last), next.andThen c₁.atMost)
  | .mark (.keyword .breakWord) =>
    (next.1.expect .newline).map fun c₁ => (.breakLoop t.span, next.andThen c₁.atMost)
  | .mark (.keyword .continueWord) =>
    (next.1.expect .newline).map fun c₁ => (.continueLoop t.span, next.andThen c₁.atMost)
  | .mark (.keyword .passWord) =>
    (next.1.expect .newline).map fun c₁ => (.pass t.span, next.andThen c₁.atMost)
  | _ =>
    match t.kind, AssignOp.ofKind? next.1.kind, next.1.take? with
    | .name name, some op, some (_, c₁) =>
      match lineExpression c₁.1 with
      | .error fault => .error fault
      | .ok (e, c₂) =>
        .ok (.assign name op e (t.span.through c₂.1.last),
          next.andThen (c₁.andThen c₂.atMost).atMost)
    | _, _, _ =>
      match lineExpression c with
      | .error fault => .error fault
      | .ok (e, c₁) => .ok (.expr e (t.span.through c₁.1.last), c₁)

mutual

/-- The statement that starts with a token, by that token and the position after it, and what is
    wrong with its lines. -/
def statement (source : SourceLines) (c : Cursor) (t : Token) (next : c.Shorter) :
    Stmt × List Fault × c.Shorter :=
  let skipped := Stmt.skipped ((source.line? t.span.line).getD "") t.span
  match t.kind with
  | .mark (.layout .indent) =>
    (skipped, [⟨t.span.line, .unexpectedIndent⟩], next.andThen next.1.skipBlock)
  | .mark (.keyword .ifWord) =>
    match header next.1 with
    | .error fault => (skipped, [fault], Cursor.recover t next)
    | .ok (condition, c₁) =>
      let (body, faults, c₂) := block source c₁.1
      match branches source c₂.1 with
      | .error (more, c₃) =>
        (skipped, faults ++ more, next.andThen (c₁.andThen (c₂.andThen c₃)).atMost)
      | .ok (others, otherwise, more, c₃) =>
        (.cond ((condition, body) :: others) otherwise t.span, faults ++ more,
          next.andThen (c₁.andThen (c₂.andThen c₃)).atMost)
  | .mark (.keyword .whileWord) =>
    match header next.1 with
    | .error fault => (skipped, [fault], Cursor.recover t next)
    | .ok (condition, c₁) =>
      let (body, faults, c₂) := block source c₁.1
      (.whileLoop condition body t.span, faults, next.andThen (c₁.andThen c₂).atMost)
  | .mark (.keyword .forWord) =>
    match forHeader next.1 with
    | .error fault => (skipped, [fault], Cursor.recover t next)
    | .ok (name, items, c₁) =>
      let (body, faults, c₂) := block source c₁.1
      (.forLoop name items body t.span, faults, next.andThen (c₁.andThen c₂).atMost)
  | _ =>
    match lineStatement c t next with
    | .error fault => (skipped, [fault], Cursor.recover t next)
    | .ok (stmt, c₁) => (stmt, [], c₁)
termination_by (c.size, 0)

/-- The block under a header. -/
def block (source : SourceLines) (c : Cursor) : Block × List Fault × c.AtMost :=
  match c.skip? .indent with
  | none => ([], [⟨c.line, .expectedBlock⟩], c.here)
  | some c₁ =>
    let (body, faults, c₂) := statements source c₁.1
    match c₂.1.skip? .dedent with
    | none => (body, faults, (c₁.andThen c₂).atMost)
    | some c₃ => (body, faults, (c₁.andThen (c₂.andThen c₃.atMost)).atMost)
termination_by (c.size, 2)

/-- The further branches of a conditional and the block for the case that none holds. A bad header
    spoils the whole conditional: then the answer is what is wrong, and where reading goes on. -/
def branches (source : SourceLines) (c : Cursor) :
    Except (List Fault × c.AtMost)
      (List (Expr × Block) × Option Block × List Fault × c.AtMost) :=
  match c.take? with
  | none => .ok ([], none, [], c.here)
  | some (t, next) =>
    match t.kind with
    | .mark (.keyword .elifWord) =>
      match header next.1 with
      | .error fault => .error ([fault], (Cursor.recover t next).atMost)
      | .ok (condition, c₁) =>
        let (body, faults, c₂) := block source c₁.1
        match branches source c₂.1 with
        | .error (more, c₃) =>
          .error (faults ++ more, (next.andThen (c₁.andThen (c₂.andThen c₃)).atMost).atMost)
        | .ok (others, otherwise, more, c₃) =>
          .ok ((condition, body) :: others, otherwise, faults ++ more,
            (next.andThen (c₁.andThen (c₂.andThen c₃)).atMost).atMost)
    | .mark (.keyword .elseWord) =>
      match headerEnd next.1 with
      | .error fault => .error ([fault], (Cursor.recover t next).atMost)
      | .ok c₁ =>
        let (body, faults, c₂) := block source c₁.1
        .ok ([], some body, faults, (next.andThen (c₁.andThen c₂).atMost).atMost)
    | _ => .ok ([], none, [], c.here)
termination_by (c.size, 0)

/-- The statements up to the end of the block. -/
def statements (source : SourceLines) (c : Cursor) : Block × List Fault × c.AtMost :=
  match c.take? with
  | none => ([], [], c.here)
  | some (t, next) =>
    if t.kind.isMark .dedent then ([], [], c.here)
    else
      let (first, faults, c₁) := statement source c t next
      let (others, more, c₂) := statements source c₁.1
      (first :: others, faults ++ more, (c₁.andThen c₂).atMost)
termination_by (c.size, 1)

end

/-- The statements of a whole script. A block that closes without having been opened is passed
    over. -/
def topLevel (source : SourceLines) (c : Cursor) : Block × List Fault :=
  match c.take? with
  | none => ([], [])
  | some (t, next) =>
    if t.kind.isMark .dedent then topLevel source next.1
    else
      let (first, faults, c₁) := statement source c t next
      let (others, more) := topLevel source c₁.1
      (first :: others, faults ++ more)
termination_by c.size

/-- A program, and what was wrong with its lines in the order in which it was noticed. -/
structure Parsed where
  body : Block
  faults : List Fault

/-- The calls of a program in the order of evaluation, each with the line of its statement. -/
def Parsed.calls (p : Parsed) : List (Nat × String) :=
  Stmt.callsOfBlock p.body

/-- The lines of a program that are no statements, with their texts. -/
def Parsed.skippedLines (p : Parsed) : List (Nat × String) :=
  Stmt.skippedLinesOfBlock p.body

/-- The program of a token list, with the source that its lines are quoted from. -/
def parse (tokens : List Token) (source : String) : Parsed :=
  let (body, faults) := topLevel (.ofString source) (.start tokens)
  ⟨body, faults⟩

/-- The program of a source text. Only inconsistent indentation leaves a text without one. -/
def compile (source : String) : Except LexError Parsed :=
  match tokenize source with
  | .error e => .error e
  | .ok tokens => .ok (parse tokens source)

end Script

end Farmhand
