/-!
# Binary Floating Point

What a double-precision number is: the value `m * 2 ^ q` behind its bits, and the order of such
values. Everything that the library says about the size of a number goes through these exact
integers, and never through a rounded operation.

## Main definitions

* `Binary`: A finite magnitude, `m * 2 ^ q`.
* `Parts`: A number taken apart: a sign and a magnitude, an infinity, or no number.
* `parts`: The parts of a float.
* `rank?`: An integer that orders all floats but NaN; both zeros have rank 0.
* `truncated?`: The integer below a finite magnitude, with the sign put back.
-/

namespace Farmhand

namespace Decimal

/-- A finite magnitude, `m * 2 ^ q`. -/
structure Binary where
  m : Nat
  q : Int
  /-- The gap to the next smaller magnitude is half the gap to the next larger one. -/
  narrowBelow : Bool
deriving DecidableEq

/-- A floating-point number taken apart. -/
inductive Parts where
  | nan
  | infinite (negative : Bool)
  | finite (negative : Bool) (magnitude : Binary)
deriving DecidableEq

/-- The magnitude in the low 63 bits of a finite number. -/
def Binary.ofBits (bits : UInt64) : Binary :=
  let exponent := ((bits >>> 52) &&& 0x7FF).toNat
  let fraction := (bits &&& 0xFFFFFFFFFFFFF).toNat
  if exponent = 0 then ⟨fraction, -1074, false⟩
  else ⟨Nat.pow 2 52 + fraction, (exponent : Int) - 1075, fraction == 0 && 1 < exponent⟩

/-- The parts of a float. -/
def parts (x : Float) : Parts :=
  let bits := x.toBits
  let negative := (bits >>> 63) != 0
  if ((bits >>> 52) &&& 0x7FF) == 0x7FF then
    if (bits &&& 0xFFFFFFFFFFFFF) == 0 then .infinite negative else .nan
  else .finite negative (.ofBits bits)

/-- Neither infinite nor NaN. -/
def isFinite (x : Float) : Bool :=
  match parts x with
  | .finite _ _ => true
  | _ => false

/-- The rank of a float among all floats: the bits below the sign grow with the magnitude, so they
    order the positive numbers, and their negatives order the negative ones. NaN has no rank. -/
def rank? (x : Float) : Option Int :=
  match parts x with
  | .nan => none
  | _ =>
    let magnitude : Int := (x.toBits &&& 0x7FFFFFFFFFFFFFFF).toNat
    some (if (x.toBits >>> 63) != 0 then -magnitude else magnitude)

/-- The order of two floats, where they have one. -/
def compare? (x y : Float) : Option Ordering :=
  match rank? x, rank? y with
  | some a, some b => some (compare a b)
  | _, _ => none

/-- Equality of numbers: both zeros are equal, and NaN is equal to nothing. -/
def same (x y : Float) : Bool :=
  compare? x y == some .eq

namespace Binary

/-- The integer part of a magnitude. -/
def floor (b : Binary) : Nat :=
  b.m * Nat.pow 2 b.q.toNat / Nat.pow 2 (-b.q).toNat

/-- Whether a magnitude is an integer. -/
def isInteger (b : Binary) : Bool :=
  b.m * Nat.pow 2 b.q.toNat % Nat.pow 2 (-b.q).toNat == 0

end Binary

/-- A finite number without its fraction, the sign kept. -/
def truncated? (x : Float) : Option Int :=
  match parts x with
  | .finite negative b => some (if negative then -(b.floor : Int) else b.floor)
  | _ => none

/-- The integer that a float is, if it is one. -/
def integer? (x : Float) : Option Int :=
  match parts x with
  | .finite negative b =>
    if b.isInteger then some (if negative then -(b.floor : Int) else b.floor) else none
  | _ => none

end Decimal

end Farmhand
