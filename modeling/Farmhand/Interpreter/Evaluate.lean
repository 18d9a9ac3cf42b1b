import Farmhand.Interpreter.State

/-!
# Expressions and Statements

How a script runs between its calls. What a call does is a parameter here, so that expressions and
statements are run by recursion on the program alone. A failure ends everything around it up to the
run; `break`, `continue` and `return` go up as the flow of a statement.

A loop that stops by itself is bounded by its items; a `while` loop is bounded by the number of
times that its body may still run.

## Main definitions

* `Flow`: How a statement ends.
* `evaluate`: The value of an expression.
* `whileLoop`, `forLoop`: Loops over a given body.
* `runStmt`, `runBlock`: Statements.
-/

namespace Farmhand

open Script

/-- How a statement ends: it goes on with the next one, or it leaves the subroutine or a loop. -/
inductive Flow where
  | normal
  | returned (value : Value)
  | broken
  | continued

/-- What a call does, by the name and the arguments. -/
abbrev Caller := String → List Value → Step Success

/-- The value of a literal. -/
def Literal.toValue : Literal → Value
  | .int n => .int n
  | .float x => .float x
  | .str text => .str text
  | .bool b => .bool b
  | .none => .none

namespace Step

/-- The value of a variable. A name that was never assigned stands for its own text. -/
def readVariable (name : String) : Step Value :=
  fun i e => .done (.ok ((i.lookup? name).getD (.str name)), i) e

end Step

mutual

/-- The value of an expression: operands from left to right, arguments before their call. The
    second operand of `and` and `or` is evaluated only if the first does not decide. -/
def evaluate (call : Caller) : Expr → Step Value
  | .lit value _ => Step.pure (Literal.toValue value)
  | .var name _ => Step.readVariable name
  | .list items _ => do
    let values ← evaluateAll call items
    return .list values
  | .index container position _ => do
    let container ← evaluate call container
    let position ← evaluate call position
    Step.operation (container.index position)
  | .unary op operand _ => do
    let v ← evaluate call operand
    match op with
    | .neg => Step.operation v.negate
    | .not => return .bool (!v.truthy)
  | .binary op left right _ => do
    let l ← evaluate call left
    match op with
    | .and => if l.truthy then evaluate call right else return l
    | .or => if l.truthy then return l else evaluate call right
    | op =>
      let r ← evaluate call right
      Step.operation (Value.binary op l r)
  | .call name args _ => do
    let values ← evaluateAll call args
    let success ← call name values
    return success.data.getD .none

/-- The values of several expressions, from left to right. -/
def evaluateAll (call : Caller) : List Expr → Step (List Value)
  | [] => Step.pure []
  | e :: rest => do
    let v ← evaluate call e
    let values ← evaluateAll call rest
    return v :: values

end

namespace Step

/-- Assigns a value. -/
def assign (name : String) (value : Value) : Step Unit :=
  change fun i => i.assign name value

/-- Assigns by a sign of assignment. To add to a variable or subtract from it, it has to have a
    value. -/
def assignWith (name : String) (op : AssignOp) (value : Value) : Step Unit :=
  let combined := fun (operator : BinaryOp) => do
    match (← interpreter).lookup? name with
    | some current =>
      let result ← operation (Value.binary operator current value)
      assign name result
    | none => fail (.undefinedVariable name)
  match op with
  | .set => assign name value
  | .add => combined .add
  | .sub => combined .sub

/-- Tells that a statement begins: in which subroutine, on which line, and with which text. -/
def announce (s : Stmt) : Step Unit :=
  fun i e =>
    let line := s.span.line
    let (name, text) :=
      match i.frames with
      | frame :: _ => (frame.name, (frame.lines.line? line).getD "")
      | [] => (mainName, "")
    .done (.ok (), i) (e.emit (.statement i.actor.id name line text))

/-- What a loop does after its body: it ends, with the flow in which the body ended it, or it goes
    on. -/
@[inline]
def afterBody (flow : Flow) (goOn : Step Flow) : Step Flow :=
  match flow with
  | .broken => Step.pure .normal
  | .returned v => Step.pure (.returned v)
  | .normal => goOn
  | .continued => goOn

end Step

/-- A loop with a condition, whose body may run `left` more times of a limit. -/
def whileLoop (limit : Nat) (condition : Step Value) (body : Step Flow) :
    Nat → Interpreter → Engine → Process (Except Failure Flow × Interpreter)
  | 0, i, e =>
    (Step.bind Step.checkRunning fun _ => Step.bind condition fun v =>
      if v.truthy then Step.fail (.loopLimit limit) else Step.pure .normal) i e
  | left + 1, i, e =>
    (Step.bind Step.checkRunning fun _ => Step.bind condition fun v =>
      if v.truthy then
        Step.bind body fun flow => Step.afterBody flow (whileLoop limit condition body left)
      else Step.pure .normal) i e

/-- A loop over values, each of which is assigned to a variable. -/
def forLoop (name : String) (body : Step Flow) :
    List Value → Interpreter → Engine → Process (Except Failure Flow × Interpreter)
  | [], i, e => .done (.ok .normal, i) e
  | v :: rest, i, e =>
    (Step.bind Step.checkRunning fun _ => Step.bind (Step.assign name v) fun _ =>
      Step.bind body fun flow => Step.afterBody flow (forLoop name body rest)) i e

mutual

/-- Runs a statement, unless the interpreter has been stopped. A line that is no statement is told
    like any other and does nothing. -/
def runStmt (call : Caller) (limit : Nat) : Stmt → Step Flow
  | .assign name op value span => do
    Step.checkRunning
    Step.announce (.assign name op value span)
    let v ← evaluate call value
    Step.assignWith name op v
    return .normal
  | .expr value span => do
    Step.checkRunning
    Step.announce (.expr value span)
    let _ ← evaluate call value
    return .normal
  | .cond branches otherwise span => do
    Step.checkRunning
    Step.announce (.cond branches otherwise span)
    runBranches call limit branches
      (match otherwise with
        | some body => runBlock call limit body
        | none => Step.pure .normal)
  | .whileLoop condition body span => do
    Step.checkRunning
    Step.announce (.whileLoop condition body span)
    whileLoop limit (evaluate call condition) (runBlock call limit body) limit
  | .forLoop name items body span => do
    Step.checkRunning
    Step.announce (.forLoop name items body span)
    let v ← evaluate call items
    let values ← Step.operation v.iterate
    forLoop name (runBlock call limit body) values
  | .returnWith value span => do
    Step.checkRunning
    Step.announce (.returnWith value span)
    match value with
    | some e => return .returned (← evaluate call e)
    | none => return .returned .none
  | .breakLoop span => do
    Step.checkRunning
    Step.announce (.breakLoop span)
    return .broken
  | .continueLoop span => do
    Step.checkRunning
    Step.announce (.continueLoop span)
    return .continued
  | .pass span => do
    Step.checkRunning
    Step.announce (.pass span)
    return .normal
  | .skipped text span => do
    Step.checkRunning
    Step.announce (.skipped text span)
    return .normal

/-- Runs the block of the first branch whose condition holds, and another step if none holds. -/
def runBranches (call : Caller) (limit : Nat) :
    List (Expr × List Stmt) → Step Flow → Step Flow
  | [], otherwise => otherwise
  | (condition, body) :: rest, otherwise => do
    let v ← evaluate call condition
    if v.truthy then runBlock call limit body else runBranches call limit rest otherwise

/-- Runs statements until one of them leaves the block. -/
def runBlock (call : Caller) (limit : Nat) : List Stmt → Step Flow
  | [] => Step.pure .normal
  | s :: rest => do
    match ← runStmt call limit s with
    | .normal => runBlock call limit rest
    | flow => return flow

end

end Farmhand
