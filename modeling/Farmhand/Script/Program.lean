import Farmhand.Script.Span

/-!
# Programs

The tree of a script: expressions, statements and blocks of statements, each with the place where
it stands. A line that is no statement of the language is part of the tree as well, with its text,
so that a program has a node for every line it was read from.

## Main definitions

* `Literal`, `UnaryOp`, `BinaryOp`, `Expr`: Expressions.
* `AssignOp`, `Stmt`: Statements.
* `Expr.calls`, `Stmt.calls`: The names that are called, in the order of evaluation.
* `Stmt.skipped`: The lines that are no statements.
-/

namespace Farmhand

namespace Script

/-- A value written in a script. -/
inductive Literal where
  | int (n : Int)
  | float (x : Float)
  | str (text : String)
  | bool (b : Bool)
  | none
deriving Inhabited

/-- Operators on one operand. -/
inductive UnaryOp where
  | neg | not
deriving DecidableEq

/-- Operators on two operands. -/
inductive BinaryOp where
  | add | sub | mul | div | floorDiv | mod
  | eq | ne | lt | le | gt | ge
  | and | or
deriving DecidableEq

/-- Expressions. -/
inductive Expr where
  | lit (value : Literal) (span : Span)
  | var (name : String) (span : Span)
  | list (items : List Expr) (span : Span)
  | index (container position : Expr) (span : Span)
  | unary (op : UnaryOp) (operand : Expr) (span : Span)
  | binary (op : BinaryOp) (left right : Expr) (span : Span)
  | call (name : String) (args : List Expr) (span : Span)
deriving Inhabited

/-- The ways to assign: to set, to add to, and to subtract from a variable. -/
inductive AssignOp where
  | set | add | sub
deriving DecidableEq

/-- Statements. -/
inductive Stmt where
  | assign (name : String) (op : AssignOp) (value : Expr) (span : Span)
  | expr (value : Expr) (span : Span)
  /-- The branches in order, each with its condition, and the block for the case that no condition
      holds. -/
  | cond (branches : List (Expr × List Stmt)) (otherwise : Option (List Stmt)) (span : Span)
  | whileLoop (condition : Expr) (body : List Stmt) (span : Span)
  | forLoop (name : String) (items : Expr) (body : List Stmt) (span : Span)
  | returnWith (value : Option Expr) (span : Span)
  | breakLoop (span : Span)
  | continueLoop (span : Span)
  | pass (span : Span)
  /-- A line that is no statement, with its text. -/
  | skipped (text : String) (span : Span)
deriving Inhabited

/-- A block of statements. -/
abbrev Block := List Stmt

/-- The place of an expression. -/
def Expr.span : Expr → Span
  | lit _ s | var _ s | list _ s | index _ _ s | unary _ _ s | binary _ _ _ s | call _ _ s => s

/-- The place of a statement. -/
def Stmt.span : Stmt → Span
  | assign _ _ _ s | expr _ s | cond _ _ s | whileLoop _ _ s | forLoop _ _ _ s | returnWith _ s
  | breakLoop s | continueLoop s | pass s | skipped _ s => s

mutual

/-- The names that an expression calls, in the order of evaluation: arguments before their call,
    left before right. -/
def Expr.calls : Expr → List String
  | .lit _ _ => []
  | .var _ _ => []
  | .list items _ => Expr.callsAll items
  | .index container position _ => container.calls ++ position.calls
  | .unary _ operand _ => operand.calls
  | .binary _ left right _ => left.calls ++ right.calls
  | .call name args _ => Expr.callsAll args ++ [name]

/-- The names that a list of expressions calls. -/
def Expr.callsAll : List Expr → List String
  | [] => []
  | e :: rest => e.calls ++ Expr.callsAll rest

end

mutual

/-- The calls of a statement in the order of evaluation, each with the line of the statement that
    holds it. -/
def Stmt.calls : Stmt → List (Nat × String)
  | .assign _ _ value span => value.calls.map (span.line, ·)
  | .expr value span => value.calls.map (span.line, ·)
  | .cond branches otherwise span =>
    Stmt.callsOfBranches span.line branches ++
      match otherwise with
      | some body => Stmt.callsOfBlock body
      | none => []
  | .whileLoop condition body span => condition.calls.map (span.line, ·) ++ Stmt.callsOfBlock body
  | .forLoop _ items body span => items.calls.map (span.line, ·) ++ Stmt.callsOfBlock body
  | .returnWith (some value) span => value.calls.map (span.line, ·)
  | .returnWith none _ => []
  | .breakLoop _ => []
  | .continueLoop _ => []
  | .pass _ => []
  | .skipped _ _ => []

/-- The calls of the branches of a conditional that starts on a line. -/
def Stmt.callsOfBranches (line : Nat) : List (Expr × List Stmt) → List (Nat × String)
  | [] => []
  | (condition, body) :: rest =>
    condition.calls.map (line, ·) ++ Stmt.callsOfBlock body ++ Stmt.callsOfBranches line rest

/-- The calls of a block. -/
def Stmt.callsOfBlock : List Stmt → List (Nat × String)
  | [] => []
  | stmt :: rest => stmt.calls ++ Stmt.callsOfBlock rest

end

mutual

/-- The lines of a statement that are no statements, with their texts. -/
def Stmt.skippedLines : Stmt → List (Nat × String)
  | .skipped text span => [(span.line, text)]
  | .cond branches otherwise _ =>
    Stmt.skippedLinesOfBranches branches ++
      match otherwise with
      | some body => Stmt.skippedLinesOfBlock body
      | none => []
  | .whileLoop _ body _ => Stmt.skippedLinesOfBlock body
  | .forLoop _ _ body _ => Stmt.skippedLinesOfBlock body
  | .assign _ _ _ _ => []
  | .expr _ _ => []
  | .returnWith _ _ => []
  | .breakLoop _ => []
  | .continueLoop _ => []
  | .pass _ => []

/-- The lines among the branches of a conditional that are no statements. -/
def Stmt.skippedLinesOfBranches : List (Expr × List Stmt) → List (Nat × String)
  | [] => []
  | (_, body) :: rest => Stmt.skippedLinesOfBlock body ++ Stmt.skippedLinesOfBranches rest

/-- The lines of a block that are no statements. -/
def Stmt.skippedLinesOfBlock : List Stmt → List (Nat × String)
  | [] => []
  | stmt :: rest => stmt.skippedLines ++ Stmt.skippedLinesOfBlock rest

end

end Script

end Farmhand
