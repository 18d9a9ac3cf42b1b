import Farmhand.Decimal.Shortest

/-!
# Layouts of Numbers

How a float is written once its digits are known. A layout says which numbers are written
positionally and whether a whole number carries a point; the rest use an exponent, without a sign
when it is positive and without padding.

## Main definitions

* `Layout`: The decisions of a format.
* `Layout.plain`: The layout without exponents.
* `Layout.render`: A float as text.
* `oneDecimal`: A whole number with all of its digits and one decimal.
-/

namespace Farmhand

namespace Decimal

/-- The decisions of a number format. -/
structure Layout where
  /-- The exponents of the leading digit that are written positionally, first included, second
      not; all of them without bounds. -/
  positional : Option (Int × Int)
  /-- A whole number written positionally ends in a point and a zero. -/
  pointZero : Bool

/-- Never an exponent, and no point after a whole number. -/
def Layout.plain : Layout :=
  ⟨none, false⟩

/-- Decimal digits of a natural number. -/
def digitsOf (n : Nat) : List Char :=
  Nat.toDigits 10 n

/-- A decimal in positional form. -/
def positionalDigits (pointZero : Bool) (d : Dec) : List Char :=
  let digits := digitsOf d.digits
  if 0 ≤ d.exponent then
    digits ++ List.replicate d.exponent.toNat '0' ++ (if pointZero then ['.', '0'] else [])
  else
    let places := (-d.exponent).toNat
    -- At least one digit stands before the point.
    let padded := List.replicate (places + 1 - digits.length) '0' ++ digits
    padded.take (padded.length - places) ++ '.' :: padded.drop (padded.length - places)

/-- A decimal with an exponent: one digit before the point. -/
def scientificDigits (d : Dec) : List Char :=
  let digits := digitsOf d.digits
  let exponent := d.exponent + digits.length - 1
  digits.take 1 ++ (if digits.length = 1 then [] else '.' :: digits.drop 1) ++
    'e' :: (toString exponent).toList

namespace Layout

/-- The digits of a finite magnitude. -/
def magnitude (l : Layout) (b : Binary) : List Char :=
  let d := b.shortest
  let leading := d.exponent + (digitsOf d.digits).length - 1
  match l.positional with
  | none => positionalDigits l.pointZero d
  | some (first, last) =>
    if d.digits = 0 || (first ≤ leading && leading < last) then positionalDigits l.pointZero d
    else scientificDigits d

/-- A sign in front of digits. -/
def signed (negative : Bool) (digits : List Char) : String :=
  String.ofList (if negative then '-' :: digits else digits)

/-- A float as text. Infinities are `inf` and `-inf`, and no number is `NaN`. -/
def render (l : Layout) (x : Float) : String :=
  match parts x with
  | .nan => "NaN"
  | .infinite negative => signed negative "inf".toList
  | .finite negative b => signed negative (l.magnitude b)

end Layout

/-- A whole number with all of its digits and one decimal, the sign of zero kept. -/
def oneDecimal (negative : Bool) (b : Binary) : String :=
  Layout.signed negative (digitsOf b.floor ++ ['.', '0'])

end Decimal

end Farmhand
