import Farmhand.Script.Program
import Farmhand.Text.Letter
import Farmhand.Integer

/-!
# Writing Programs

The text of a program: one statement or header on a line, blocks indented by four blanks for each
level, and parentheses around every operand that is more than a literal, a name, a list or a call.
What cannot be written is left out by `Writable`: a line that is no statement, an empty block, a
name that is a reserved word, an integer that no literal stands for, and floats, whose texts are a
matter of their own.

A text that is read back gives the same program at other places, so programs are compared with
their places taken off.

## Main definitions

* `reservedWords`, `IsName`: The words that are no names, and the names.
* `Expr.written`: The text of an expression.
* `Stmt.rows`, `Stmt.rowsOfBlock`: The lines of a statement and of a block, with their depths.
* `written`: The text of a program.
* `Expr.Writable`, `Stmt.Writable`, `Stmt.WritableBlock`: What can be written.
* `Expr.unplaced`, `Stmt.unplaced`: Programs without their places.
-/

namespace Farmhand

namespace Script

/-- The words that are keywords or literals. -/
def reservedWords : List String :=
  ["if", "elif", "else", "while", "for", "in", "return", "break", "continue", "pass", "and", "or",
    "not", "True", "true", "False", "false", "None", "none", "null"]

/-- A text that is a name and no reserved word. -/
def IsName (name : String) : Prop :=
  Text.isName name.toList = true ∧ name ∉ reservedWords

instance (name : String) : Decidable (IsName name) :=
  inferInstanceAs (Decidable (_ ∧ _))

/-! ## Texts -/

/-- A character inside double quotes. -/
def escaped (c : Char) : List Char :=
  if c = '\\' then ['\\', '\\']
  else if c = '"' then ['\\', '"']
  else if c = '\n' then ['\\', 'n']
  else [c]

/-- A text in double quotes. -/
def inQuotes (text : List Char) : List Char :=
  '"' :: (text.flatMap escaped ++ ['"'])

/-- The text of a literal. Floats have none here. -/
def Literal.written : Literal → List Char
  | .int n => Nat.toDigits 10 n.toNat
  | .float _ => []
  | .str text => inQuotes text.toList
  | .bool true => "True".toList
  | .bool false => "False".toList
  | .none => "None".toList

/-- The sign of an operator between two operands. -/
def BinaryOp.sign : BinaryOp → String
  | add => "+"
  | sub => "-"
  | mul => "*"
  | div => "/"
  | floorDiv => "//"
  | mod => "%"
  | eq => "=="
  | ne => "!="
  | lt => "<"
  | le => "<="
  | gt => ">"
  | ge => ">="
  | and => "and"
  | or => "or"

/-- The sign of an assignment. -/
def AssignOp.sign : AssignOp → String
  | set => "="
  | add => "+="
  | sub => "-="

/-- Whether an expression stands without parentheses as an operand. -/
def Expr.isAtom : Expr → Bool
  | .lit _ _ | .var _ _ | .list _ _ | .call _ _ _ => true
  | .index _ _ _ | .unary _ _ _ | .binary _ _ _ _ => false

/-- A text in parentheses, unless it is that of an atom. -/
def enclosed (atom : Bool) (text : List Char) : List Char :=
  if atom then text else '(' :: (text ++ [')'])

mutual

/-- The text of an expression. -/
def Expr.written : Expr → List Char
  | .lit value _ => value.written
  | .var name _ => name.toList
  | .list items _ => '[' :: (Expr.writtenItems items ++ [']'])
  | .index container position _ =>
    enclosed container.isAtom container.written ++ '[' :: (position.written ++ [']'])
  | .unary .neg operand _ => '-' :: enclosed operand.isAtom operand.written
  | .unary .not operand _ => "not".toList ++ ' ' :: enclosed operand.isAtom operand.written
  | .binary op left right _ =>
    enclosed left.isAtom left.written ++
      ' ' :: (op.sign.toList ++ ' ' :: enclosed right.isAtom right.written)
  | .call name args _ => name.toList ++ '(' :: (Expr.writtenItems args ++ [')'])

/-- The text of items with commas between them. -/
def Expr.writtenItems : List Expr → List Char
  | [] => []
  | e :: rest => e.written ++ Expr.writtenMore rest

/-- The text of further items. -/
def Expr.writtenMore : List Expr → List Char
  | [] => []
  | e :: rest => ',' :: ' ' :: (e.written ++ Expr.writtenMore rest)

end

/-! ## Lines -/

/-- A header that begins with a word and holds an expression. -/
def headerRow (word : String) (e : Expr) : List Char :=
  word.toList ++ ' ' :: (e.written ++ [':'])

mutual

/-- The lines of a statement that stands at a depth, each with its own depth. -/
def Stmt.rows (depth : Nat) : Stmt → List (Nat × List Char)
  | .assign name op value _ =>
    [(depth, name.toList ++ ' ' :: (op.sign.toList ++ ' ' :: value.written))]
  | .expr value _ => [(depth, value.written)]
  | .cond branches otherwise _ =>
    Stmt.rowsOfBranches depth "if" branches ++
      match otherwise with
      | some body => (depth, "else:".toList) :: Stmt.rowsOfBlock (depth + 1) body
      | none => []
  | .whileLoop condition body _ =>
    (depth, headerRow "while" condition) :: Stmt.rowsOfBlock (depth + 1) body
  | .forLoop name items body _ =>
    (depth, "for".toList ++ ' ' :: (name.toList ++ ' ' :: headerRow "in" items)) ::
      Stmt.rowsOfBlock (depth + 1) body
  | .returnWith (some value) _ => [(depth, "return".toList ++ ' ' :: value.written)]
  | .returnWith none _ => [(depth, "return".toList)]
  | .breakLoop _ => [(depth, "break".toList)]
  | .continueLoop _ => [(depth, "continue".toList)]
  | .pass _ => [(depth, "pass".toList)]
  | .skipped text _ => [(depth, text.toList)]

/-- The lines of the branches of a conditional, the first of which begins with a given word. -/
def Stmt.rowsOfBranches (depth : Nat) (word : String) :
    List (Expr × List Stmt) → List (Nat × List Char)
  | [] => []
  | (condition, body) :: rest =>
    (depth, headerRow word condition) :: (Stmt.rowsOfBlock (depth + 1) body ++
      Stmt.rowsOfBranches depth "elif" rest)

/-- The lines of a block. -/
def Stmt.rowsOfBlock (depth : Nat) : List Stmt → List (Nat × List Char)
  | [] => []
  | stmt :: rest => stmt.rows depth ++ Stmt.rowsOfBlock depth rest

end

/-- A line with the blanks in front of it, four for each level. -/
def indented (row : Nat × List Char) : List Char :=
  List.replicate (4 * row.1) ' ' ++ row.2

/-- The text of a program. -/
def written (program : Block) : String :=
  String.ofList (((Stmt.rowsOfBlock 0 program).map indented).flatMap (· ++ ['\n']))

/-! ## What can be written -/

/-- Integers that a literal can stand for, and everything else but floats. -/
def Literal.Writable : Literal → Prop
  | .int n => 0 ≤ n ∧ n ≤ Integer.max64
  | .float _ => False
  | .str _ | .bool _ | .none => True

mutual

/-- Names are no reserved words and literals can be written. -/
def Expr.Writable : Expr → Prop
  | .lit value _ => value.Writable
  | .var name _ => IsName name
  | .list items _ => Expr.WritableAll items
  | .index container position _ => container.Writable ∧ position.Writable
  | .unary _ operand _ => operand.Writable
  | .binary _ left right _ => left.Writable ∧ right.Writable
  | .call name args _ => IsName name ∧ Expr.WritableAll args

/-- The same for several expressions. -/
def Expr.WritableAll : List Expr → Prop
  | [] => True
  | e :: rest => e.Writable ∧ Expr.WritableAll rest

end

mutual

/-- Every line is a statement, every conditional has a branch, and no block is empty. -/
def Stmt.Writable : Stmt → Prop
  | .assign name _ value _ => IsName name ∧ value.Writable
  | .expr value _ => value.Writable
  | .cond branches otherwise _ =>
    branches ≠ [] ∧ Stmt.WritableBranches branches ∧
      match otherwise with
      | some body => body ≠ [] ∧ Stmt.WritableBlock body
      | none => True
  | .whileLoop condition body _ => condition.Writable ∧ body ≠ [] ∧ Stmt.WritableBlock body
  | .forLoop name items body _ =>
    IsName name ∧ items.Writable ∧ body ≠ [] ∧ Stmt.WritableBlock body
  | .returnWith (some value) _ => value.Writable
  | .returnWith none _ | .breakLoop _ | .continueLoop _ | .pass _ => True
  | .skipped _ _ => False

/-- The same for the branches of a conditional. -/
def Stmt.WritableBranches : List (Expr × List Stmt) → Prop
  | [] => True
  | (condition, body) :: rest =>
    condition.Writable ∧ body ≠ [] ∧ Stmt.WritableBlock body ∧ Stmt.WritableBranches rest

/-- The same for the statements of a block. -/
def Stmt.WritableBlock : List Stmt → Prop
  | [] => True
  | stmt :: rest => stmt.Writable ∧ Stmt.WritableBlock rest

end

/-! ## Programs without their places -/

mutual

/-- An expression that stands nowhere. -/
def Expr.unplaced : Expr → Expr
  | .lit value _ => .lit value .nowhere
  | .var name _ => .var name .nowhere
  | .list items _ => .list (Expr.unplacedAll items) .nowhere
  | .index container position _ => .index container.unplaced position.unplaced .nowhere
  | .unary op operand _ => .unary op operand.unplaced .nowhere
  | .binary op left right _ => .binary op left.unplaced right.unplaced .nowhere
  | .call name args _ => .call name (Expr.unplacedAll args) .nowhere

/-- Expressions that stand nowhere. -/
def Expr.unplacedAll : List Expr → List Expr
  | [] => []
  | e :: rest => e.unplaced :: Expr.unplacedAll rest

end

mutual

/-- A statement that stands nowhere. -/
def Stmt.unplaced : Stmt → Stmt
  | .assign name op value _ => .assign name op value.unplaced .nowhere
  | .expr value _ => .expr value.unplaced .nowhere
  | .cond branches otherwise _ =>
    .cond (Stmt.unplacedBranches branches)
      (match otherwise with
        | some body => some (Stmt.unplacedBlock body)
        | none => none)
      .nowhere
  | .whileLoop condition body _ =>
    .whileLoop condition.unplaced (Stmt.unplacedBlock body) .nowhere
  | .forLoop name items body _ =>
    .forLoop name items.unplaced (Stmt.unplacedBlock body) .nowhere
  | .returnWith (some value) _ => .returnWith (some value.unplaced) .nowhere
  | .returnWith none _ => .returnWith none .nowhere
  | .breakLoop _ => .breakLoop .nowhere
  | .continueLoop _ => .continueLoop .nowhere
  | .pass _ => .pass .nowhere
  | .skipped text _ => .skipped text .nowhere

/-- Branches that stand nowhere. -/
def Stmt.unplacedBranches : List (Expr × List Stmt) → List (Expr × List Stmt)
  | [] => []
  | (condition, body) :: rest =>
    (condition.unplaced, Stmt.unplacedBlock body) :: Stmt.unplacedBranches rest

/-- A block that stands nowhere. -/
def Stmt.unplacedBlock : List Stmt → List Stmt
  | [] => []
  | stmt :: rest => stmt.unplaced :: Stmt.unplacedBlock rest

end

end Script

end Farmhand
