import Farmhand.Decimal.Binary

/-!
# The Fewest Digits that Read Back

A float stands for all reals that round to it, an interval around its exact value. Written with
the fewest digits that still fall into this interval it reads back as itself. The search goes from
one digit upwards: on the grid of all decimals with that many digits it tries the two neighbours of
the exact value, and stops at the first grid where one of them reads back. If both do, the nearer
one is taken, and the upper one when they are equally near.

## Main definitions

* `Dec`: A decimal, `digits * 10 ^ exponent`.
* `Binary.readsBack`: Whether a decimal lies in the interval of a magnitude.
* `Binary.shortest`: The decimal with the fewest digits that reads back.
-/

namespace Farmhand

namespace Decimal

/-- A decimal, `digits * 10 ^ exponent`. -/
structure Dec where
  digits : Nat
  exponent : Int
deriving DecidableEq

/-- The order of `a * 10 ^ i` and `n * 2 ^ j`, by integers alone. -/
def compareScaled (a : Nat) (i : Int) (n : Nat) (j : Int) : Ordering :=
  compare (a * Nat.pow 10 i.toNat * Nat.pow 2 (-j).toNat)
    (n * Nat.pow 2 j.toNat * Nat.pow 10 (-i).toNat)

namespace Binary

/-- Whether a decimal lies among the reals that round to a magnitude. The interval reaches half a
    gap to either side and contains its ends exactly when `m` is even. -/
def readsBack (b : Binary) (d : Dec) : Bool :=
  let low := if b.narrowBelow then 4 * b.m - 1 else 4 * b.m - 2
  let high := 4 * b.m + 2
  let closed := b.m % 2 == 0
  let atLow := compareScaled d.digits d.exponent low (b.q - 2)
  let atHigh := compareScaled d.digits d.exponent high (b.q - 2)
  (atLow == .gt || (closed && atLow == .eq)) && (atHigh == .lt || (closed && atHigh == .eq))

/-- An exponent `k` with `m * 2 ^ q < 10 ^ k`, the least one or the one above it. -/
def scale (b : Binary) : Int :=
  let log2 : Int := b.m.log2 + b.q
  let estimate := log2 * 30103 / 100000 + 1
  if compareScaled 1 estimate b.m b.q == .gt then estimate else estimate + 1

/-- The largest decimal on the grid of `10 ^ exponent` that is not above a magnitude. -/
def floorOn (b : Binary) (exponent : Int) : Dec :=
  ⟨b.m * Nat.pow 2 b.q.toNat * Nat.pow 10 (-exponent).toNat /
      (Nat.pow 2 (-b.q).toNat * Nat.pow 10 exponent.toNat),
    exponent⟩

/-- The better of the two neighbours on a grid, if one of them reads back. -/
def nearest? (b : Binary) (exponent : Int) : Option Dec :=
  let below := b.floorOn exponent
  let above : Dec := ⟨below.digits + 1, exponent⟩
  match b.readsBack below, b.readsBack above with
  | true, true =>
    -- Twice the value against the sum of the neighbours tells which is nearer.
    if compareScaled (below.digits + above.digits) exponent b.m (b.q + 1) == .gt then some below
    else some above
  | true, false => some below
  | false, true => some above
  | false, false => none

/-- Moves trailing zeros of the digits into the exponent, at most `limit` of them. -/
def Dec.strip : Nat → Dec → Dec
  | 0, d => d
  | limit + 1, d =>
    if d.digits != 0 && d.digits % 10 == 0 then strip limit ⟨d.digits / 10, d.exponent + 1⟩ else d

/-- The exact decimal value of a magnitude. -/
def exact (b : Binary) : Dec :=
  ⟨b.m * Nat.pow 2 b.q.toNat * Nat.pow 5 (-b.q).toNat, min b.q 0⟩

/-- The decimal with the fewest digits that reads back, without trailing zeros. -/
def shortest (b : Binary) : Dec :=
  if b.m = 0 then ⟨0, 0⟩
  else
    let found := (List.range 18).findSome? fun n => b.nearest? (b.scale - (n + 1 : Nat))
    Dec.strip 400 (found.getD b.exact)

end Binary

end Decimal

end Farmhand
