import Farmhand.Decimal.Binary
import Farmhand.Integer

/-!
# Durations

Lengths of time. The clock counts milliseconds; scripts give seconds, which may have fractions, and
motions take fractions of a millisecond. A duration given as a float is rounded to whole
nanoseconds, to the even one of two equally near.

## Main definitions

* `Duration.seconds`: A number of milliseconds in seconds.
* `Duration.nanoseconds?`: A number of seconds in nanoseconds.
* `Duration.ticks`: The milliseconds that pass while one sleeps.
* `Duration.stepAt`: The time of one step at a speed.
-/

namespace Farmhand

namespace Duration

/-- A number of milliseconds in seconds: the whole seconds plus the rest. -/
def seconds (milliseconds : Nat) : Float :=
  Float.ofNat (milliseconds / 1000) + Float.ofNat (milliseconds % 1000 * 1000000) / 1000000000.0

/-- The integer nearest to a quotient, the even one of two equally near. -/
def roundedQuotient (num den : Nat) : Nat :=
  let whole := num / den
  let rest := num % den
  if 2 * rest < den then whole
  else if den < 2 * rest then whole + 1
  else whole + whole % 2

/-- A number of seconds in nanoseconds, if it is not negative and shorter than the longest
    duration, which has `2 ^ 64` seconds. -/
def nanoseconds? (seconds : Float) : Option Nat :=
  match Decimal.parts seconds with
  | .finite negative b =>
    let n := roundedQuotient (b.m * Nat.pow 2 b.q.toNat * 1000000000) (Nat.pow 2 (-b.q).toNat)
    if (negative && b.m != 0) || Nat.pow 2 64 * 1000000000 ≤ n then none else some n
  | _ => none

/-- The milliseconds that pass while one sleeps for some nanoseconds. The clock stands on whole
    milliseconds, so a part of one takes all of it. -/
def ticks (nanoseconds : Nat) : Nat :=
  (nanoseconds + 999999) / 1000000

/-- The time of one step at a speed, if one can move at that speed. It is the quotient of a time and
    the speed, and is taken to be a duration. At a speed near zero it is not. -/
def stepAt (stepTime : Nat) (speed : Float) : Except Overflow (Option Nat) :=
  match Decimal.compare? speed 0.0 with
  | some .gt =>
    if Decimal.isFinite speed then
      match nanoseconds? (seconds stepTime / speed) with
      | some time => .ok (some time)
      | none => .error .stepTime
    else .ok none
  | _ => .ok none

/-- The time of one step at a speed, if there is one. There is none as well at a speed at which the
    program breaks off. -/
def stepAt? (stepTime : Nat) (speed : Float) : Option Nat :=
  match stepAt stepTime speed with
  | .ok time => time
  | .error _ => none

end Duration

end Farmhand
