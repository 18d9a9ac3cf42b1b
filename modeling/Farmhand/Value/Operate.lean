import Farmhand.Script.Program
import Farmhand.Value.Compare

/-!
# Operators on Values

What the operators of the language do. Integers stay integers as long as the result is one of the
language, and become floats beside a float or a truth value; a sum of strings or lists joins them,
and a product with an integer repeats them, up to a limit on the length. Division always gives a
float; its whole part and its remainder round towards minus infinity.

## Main definitions

* `OperationError`: Why an operator can have no result.
* `Value.binary`, `Value.negate`: The operators.
* `Value.index`: An item of a list, a character of a string, or an entry of a map.
* `Value.iterate`: The values a loop goes through.
-/

namespace Farmhand

open Script (BinaryOp)

/-- Why an operation has no result. Types are given by their names. -/
inductive OperationError where
  | typeMismatch (op : BinaryOp) (left right : String)
  | badOperand (operand : String)
  | divisionByZero
  | overflow
  | tooLarge (limit : Nat)
  | notIterable (type : String)
  | badIndex (container position : String)
  | indexOutOfRange (position : Int) (length : Nat)
  | keyNotFound (key : String)
deriving DecidableEq

/-- An operator as a script writes it. -/
def Script.BinaryOp.symbol : BinaryOp → String
  | .add => "+"
  | .sub => "-"
  | .mul => "*"
  | .div => "/"
  | .floorDiv => "//"
  | .mod => "%"
  | .eq => "=="
  | .ne => "!="
  | .lt => "<"
  | .le => "<="
  | .gt => ">"
  | .ge => ">="
  | .and => "and"
  | .or => "or"

/-- The text of an error. -/
def OperationError.message : OperationError → String
  | typeMismatch op left right =>
    s!"unsupported operand types for {op.symbol}: {left} and {right}"
  | badOperand operand => s!"bad operand type for -: {operand}"
  | divisionByZero => "division by zero"
  | overflow => "integer overflow"
  | tooLarge limit => s!"result too large: more than {limit} items"
  | notIterable type => s!"{type} is not iterable"
  | badIndex container position => s!"cannot index {container} with {position}"
  | indexOutOfRange position length => s!"index {position} out of range for length {length}"
  | keyNotFound key => s!"key not found: {key}"

namespace Value

/-- The longest string or list that an operator builds. -/
def maxLength : Nat := 1000000

/-- The error that an operator does not take operands of these types. -/
def mismatch (op : BinaryOp) (left right : Value) : OperationError :=
  .typeMismatch op left.typeName right.typeName

/-- An integer result, unless it lies outside the range. -/
def checkedInt (n : Int) : Except OperationError Value :=
  match Integer.checked? n with
  | some n => .ok (int n)
  | Option.none => .error .overflow

/-- Arithmetic on integers. Where the quotient lies outside the range, so does the remainder. -/
def integerArithmetic (op : BinaryOp) (a b : Int) : Except OperationError Value :=
  match op with
  | .add => checkedInt (a + b)
  | .sub => checkedInt (a - b)
  | .mul => checkedInt (a * b)
  | .div => if b = 0 then .error .divisionByZero else .ok (float (Float.ofInt a / Float.ofInt b))
  | .floorDiv => if b = 0 then .error .divisionByZero else checkedInt (a.fdiv b)
  | .mod =>
    if b = 0 then .error .divisionByZero
    else if Integer.inRange (a.tdiv b) then .ok (int (a.fmod b))
    else .error .overflow
  | _ => .error .overflow

/-- Arithmetic on floats. -/
def floatArithmetic (op : BinaryOp) (x y : Float) : Except OperationError Value :=
  let nonzero := fun (z : Float) =>
    if Decimal.same y 0.0 then Except.error OperationError.divisionByZero else .ok (float z)
  match op with
  | .add => .ok (float (x + y))
  | .sub => .ok (float (x - y))
  | .mul => .ok (float (x * y))
  | .div => nonzero (x / y)
  | .floorDiv => nonzero (x / y).floor
  | _ => nonzero (x - y * (x / y).floor)

/-- Arithmetic on numbers, of which strings are none. -/
def arithmetic (op : BinaryOp) (left right : Value) : Except OperationError Value :=
  match left, right with
  | .int a, .int b => integerArithmetic op a b
  | _, _ =>
    match left.toFloat?, right.toFloat? with
    | some x, some y => floatArithmetic op x y
    | _, _ => .error (mismatch op left right)

/-- Joins two sequences, unless the result is too long. -/
def joined {α : Type} (a b : List α) : Except OperationError (List α) :=
  if a.length + b.length ≤ maxLength then .ok (a ++ b) else .error (.tooLarge maxLength)

/-- Repeats a sequence, unless the result is too long. A negative count repeats it no times. -/
def repeated {α : Type} (items : List α) (times : Int) : Except OperationError (List α) :=
  if items.length * times.toNat ≤ maxLength then
    if items.isEmpty then .ok [] else .ok (List.replicate times.toNat items).flatten
  else .error (.tooLarge maxLength)

/-- A string of characters as a result. -/
def ofChars (result : Except OperationError (List Char)) : Except OperationError Value :=
  result.map fun cs => str (String.ofList cs)

/-- A list of items as a result. -/
def ofItems (result : Except OperationError (List Value)) : Except OperationError Value :=
  result.map list

/-- A comparison: whether the order of two values is one of those asked for. -/
def ordered (op : BinaryOp) (holds : Ordering → Bool) (left right : Value) :
    Except OperationError Value :=
  match compare? left right with
  | some o => .ok (bool (holds o))
  | Option.none => .error (mismatch op left right)

/-- The operators on two values. `and` and `or` are none of them, since they need not evaluate
    their second operand. -/
def binary (op : BinaryOp) (left right : Value) : Except OperationError Value :=
  match op with
  | .eq => .ok (bool (equal left right))
  | .ne => .ok (bool (!equal left right))
  | .lt => ordered op (· == .lt) left right
  | .le => ordered op (· != .gt) left right
  | .gt => ordered op (· == .gt) left right
  | .ge => ordered op (· != .lt) left right
  | .add =>
    match left, right with
    | .str a, .str b => ofChars (joined a.toList b.toList)
    | .list a, .list b => ofItems (joined a b)
    | _, _ => arithmetic op left right
  | .mul =>
    match left, right with
    | .str a, .int n => ofChars (repeated a.toList n)
    | .int n, .str a => ofChars (repeated a.toList n)
    | .list a, .int n => ofItems (repeated a n)
    | .int n, .list a => ofItems (repeated a n)
    | _, _ => arithmetic op left right
  | .sub => arithmetic op left right
  | .div => arithmetic op left right
  | .floorDiv => arithmetic op left right
  | .mod => arithmetic op left right
  | .and => .error (mismatch op left right)
  | .or => .error (mismatch op left right)

/-- A value with its sign changed. -/
def negate : Value → Except OperationError Value
  | int n => checkedInt (-n)
  | float x => .ok (float (-x))
  | bool b => .ok (int (if b then -1 else 0))
  | other => .error (.badOperand other.typeName)

/-- The place of an item. A negative position counts from the end. -/
def place (position : Int) (length : Nat) : Except OperationError Nat :=
  let p := if position < 0 then position + length else position
  if 0 ≤ p && p < length then .ok p.toNat else .error (.indexOutOfRange position length)

/-- The item of a sequence at a position. -/
def itemAt {α : Type} (items : List α) (position : Int) : Except OperationError α :=
  match place position items.length with
  | .error e => .error e
  | .ok p =>
    match items[p]? with
    | some item => .ok item
    | Option.none => .error (.indexOutOfRange position items.length)

/-- An item of a list, a character of a string, or the entry of a map at a key. -/
def index (container position : Value) : Except OperationError Value :=
  let bad := OperationError.badIndex container.typeName position.typeName
  match container with
  | list items =>
    match position.toInt? with
    | some n => itemAt items n
    | Option.none => .error bad
  | str text =>
    match position.toInt? with
    | some n => (itemAt text.toList n).map fun c => str (String.singleton c)
    | Option.none => .error bad
  | map entries =>
    match position.toText? with
    | some key =>
      match Entries.get? key entries with
      | some v => .ok v
      | Option.none => .error (.keyNotFound key)
    | Option.none => .error bad
  | _ => .error bad

/-- The values a loop goes through: the items of a list, the characters of a string, or the keys of
    a map. -/
def iterate : Value → Except OperationError (List Value)
  | list items => .ok items
  | str text => .ok (text.toList.map fun c => str (String.singleton c))
  | map entries => .ok (entries.map fun (key, _) => str key)
  | other => .error (.notIterable other.typeName)

end Value

end Farmhand
