/-!
# Ranges of Integers

The integers of scripts and of the world are bounded. Arithmetic is done on unbounded integers, and
the range is checked, or the result is capped, where the world or a script would see it. In three
places the program takes for granted that a result is in range. If it is not, that is an outcome of
its own: the program, built to look for this, breaks off.

## Main definitions

* `Integer.min64`, `Integer.max64`: The ends of the range of script integers.
* `Integer.checked?`: An integer in that range.
* `Integer.isCoordinate`: The range of coordinates.
* `Integer.maxAmount`, `Integer.maxCounter`: The largest amount of energy and the largest counter.
* `Integer.amount?`, `Integer.counter?`: Integers in these ranges.
* `Overflow`: The results that are taken to be in range.
-/

namespace Farmhand

namespace Integer

/-- The smallest integer of a script. -/
def min64 : Int := -9223372036854775808

/-- The largest integer of a script. -/
def max64 : Int := 9223372036854775807

/-- Whether an integer is one of a script. -/
def inRange (n : Int) : Bool :=
  min64 ≤ n && n ≤ max64

/-- An integer, if it is one of a script. -/
def checked? (n : Int) : Option Int :=
  if inRange n then some n else none

/-- The integer of a script that is nearest to a given one. -/
def clamped (n : Int) : Int :=
  max min64 (min n max64)

/-- Whether an integer is a coordinate. -/
def isCoordinate (n : Int) : Bool :=
  -2147483648 ≤ n && n ≤ 2147483647

/-- The largest amount: of energy, of steps, of an item carried. -/
def maxAmount : Nat := 4294967295

/-- An integer as an amount, if it is one. -/
def amount? (n : Int) : Option Nat :=
  if 0 ≤ n && n ≤ (maxAmount : Int) then some n.toNat else none

/-- The largest value of a global counter. -/
def maxCounter : Nat := 18446744073709551615

/-- An integer as the value of a counter, if it can be one. -/
def counter? (n : Int) : Option Nat :=
  if 0 ≤ n && n ≤ (maxCounter : Int) then some n.toNat else none

end Integer

/-- The results that the program takes to be in range without a look. Where one of them is not, the
    program breaks off. -/
inductive Overflow where
  /-- The number of steps between two positions, which is to be an amount. -/
  | steps
  /-- A column or a row, or how far apart two of them are, which are to be coordinates. -/
  | coordinate
  /-- The time of a step, which is to be a duration. -/
  | stepTime
deriving DecidableEq

/-- What is out of range. -/
def Overflow.message : Overflow → String
  | steps => "number of steps out of range"
  | coordinate => "coordinate out of range"
  | stepTime => "time of a step out of range"

end Farmhand
