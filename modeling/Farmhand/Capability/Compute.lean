import Farmhand.Capability.Basic

/-!
# Computing Capabilities

The capabilities whose answer depends on their arguments alone: ranges of integers, lengths, the
least, the greatest and the sum of some values, and absolute values.

## Main definitions

* `Arguments.range`: The integers of an arithmetic progression.
* `Arguments.len`, `Arguments.least`, `Arguments.greatest`, `Arguments.sum`, `Arguments.abs`: The
  other answers.
-/

namespace Farmhand

/-- The longest list that `range` builds. -/
def maxRange : Nat := 1000000

namespace Arguments

/-- The integers that all arguments are. -/
def ints (name : String) : Arguments → Except ArgumentError (List Int)
  | [] => .ok []
  | v :: rest =>
    match Arguments.int [v] 0 name with
    | .error error => .error error
    | .ok n => (ints name rest).map (n :: ·)

/-- Whether a member of a progression comes before the end, in the direction of the step. -/
def isBefore (stop step current : Int) : Bool :=
  (0 < step && current < stop) || (step < 0 && stop < current)

/-- The members of a progression from the current one on that come before its end, after those
    collected so far, the last of which is in front; nothing if more than `room` members are left.
    A progression that leaves the range of integers has passed its end. -/
def collect (stop step : Int) : Nat → Int → List Value → Option (List Value)
  | 0, current, collected =>
    if isBefore stop step current then none else some collected.reverse
  | room + 1, current, collected =>
    if isBefore stop step current then
      match Integer.checked? (current + step) with
      | some next => collect stop step room next (.int current :: collected)
      | none => some (.int current :: collected).reverse
    else some collected.reverse

/-- The members of a progression before its end, unless they are too many. -/
def boundedRange (start stop step : Int) : Except ArgumentError Value :=
  if step = 0 then .error .rangeStepZero
  else
    match collect stop step maxRange start [] with
    | some items => .ok (.list items)
    | none => .error (.rangeTooLong maxRange)

/-- The integers from a start to an end, the end excluded: `range(stop)`, `range(start, stop)` or
    `range(start, stop, step)`. -/
def range (args : Arguments) : Except ArgumentError Value :=
  match ints "range bound" args with
  | .error error => .error error
  | .ok [stop] => boundedRange 0 stop 1
  | .ok [start, stop] => boundedRange start stop 1
  | .ok [start, stop, step] => boundedRange start stop step
  | .ok _ => .error .rangeArity

/-- The number of items of a list, characters of a string, or entries of a map. -/
def len (args : Arguments) : Except ArgumentError Value :=
  match args with
  | .list items :: _ => .ok (.int items.length)
  | .str text :: _ => .ok (.int text.length)
  | .map entries :: _ => .ok (.int entries.length)
  | other :: _ => .error (.noLength other.typeName)
  | [] => .error (.missing "value")

/-- The values that a call is about: the items of its only argument if that is a list, and the
    arguments otherwise. -/
def spread : Arguments → List Value
  | [.list items] => items
  | args => args

/-- Of a value and those that follow it, the first that comes before all others in the wanted
    direction. -/
def extremeFrom (wanted : Ordering) (best : Value) : List Value → Except ArgumentError Value
  | [] => .ok best
  | v :: rest =>
    match v.compare? best with
    | some o => extremeFrom wanted (if o = wanted then v else best) rest
    | none => .error (.incomparable v.typeName best.typeName)

/-- The extreme of some values. -/
def extreme (wanted : Ordering) (args : Arguments) : Except ArgumentError Value :=
  match args.spread with
  | [] => .error .noValues
  | v :: rest => extremeFrom wanted v rest

/-- The least of some values. -/
def least (args : Arguments) : Except ArgumentError Value :=
  args.extreme .lt

/-- The greatest of some values. -/
def greatest (args : Arguments) : Except ArgumentError Value :=
  args.extreme .gt

/-- The sum of numbers after a first part of it. -/
def sumFrom (total : Value) : List Value → Except ArgumentError Value
  | [] => .ok total
  | v :: rest =>
    if v.isNumber then
      match Value.binary .add total v with
      | .ok total => sumFrom total rest
      | .error error => .error (.operation error)
    else .error (.notSummable v.typeName)

/-- The sum of numbers. -/
def sum (args : Arguments) : Except ArgumentError Value :=
  sumFrom (.int 0) args.spread

/-- The absolute value of a number. -/
def abs (args : Arguments) : Except ArgumentError Value :=
  match args with
  | .int n :: _ =>
    match Integer.checked? n.natAbs with
    | some n => .ok (.int n)
    | none => .error (.operation .overflow)
  | .float x :: _ => .ok (.float x.abs)
  | other :: _ => .error (.noAbsoluteValue other.typeName)
  | [] => .error (.missing "n")

end Arguments

end Farmhand
