import Farmhand.Decimal.Binary

/-!
# Reading Numbers

A number is an optional sign, digits with at most one point among or around them, and an optional
exponent. The words for infinity and for no number are read in any case. The result is the float
nearest to the exact decimal, the even one of two equally near.

## Main definitions

* `natural?`: A text of digits as a number.
* `ofScientific`: The float nearest to `digits * 10 ^ exponent`.
* `read?`: A whole text as a float.
-/

namespace Farmhand

namespace Decimal

/-- The value of a run of decimal digits, after `acc`. -/
def naturalFrom (acc : Nat) (digits : List Char) : Nat :=
  digits.foldl (fun n c => 10 * n + (c.toNat - '0'.toNat)) acc

/-- The value of a text of decimal digits, if it is one and not empty. -/
def natural? (text : List Char) : Option Nat :=
  if !text.isEmpty && text.all Char.isDigit then some (naturalFrom 0 text) else none

/-- The float nearest to `digits * 10 ^ exponent`. Exponents far beyond the range of floats are
    settled without computing the power. -/
def ofScientific (digits : Nat) (exponent : Int) : Float :=
  if digits = 0 then 0.0
  else
    let leading := exponent + (Nat.toDigits 10 digits).length
    if leading > 400 then Float.ofScientific 1 false 400
    else if leading < -400 then 0.0
    else Float.ofScientific digits (exponent < 0) exponent.natAbs

/-- A sign in front of a text, and the rest. -/
def splitSign : List Char → Bool × List Char
  | '-' :: rest => (true, rest)
  | '+' :: rest => (false, rest)
  | text => (false, text)

/-- An integer: digits after an optional sign. -/
def integerText? (text : List Char) : Option Int :=
  match splitSign text with
  | (negative, digits) => (natural? digits).map fun n => if negative then -(n : Int) else n

/-- The decimal of an unsigned number: digits, a point, digits, an exponent. -/
def decimal? (text : List Char) : Option (Nat × Int) :=
  let isMark := fun c => c == 'e' || c == 'E'
  let mantissa := text.takeWhile fun c => !isMark c
  let exponent? :=
    match text.dropWhile fun c => !isMark c with
    | [] => some 0
    | _ :: rest => integerText? rest
  let whole := mantissa.takeWhile (· != '.')
  let fraction := (mantissa.dropWhile (· != '.')).drop 1
  let digits := whole ++ fraction
  match natural? digits, exponent? with
  | some n, some e => some (n, e - fraction.length)
  | _, _ => none

/-- A text as a float. -/
def read? (text : List Char) : Option Float :=
  let (negative, rest) := splitSign text
  let word := String.ofList (rest.map Char.toLower)
  let magnitude? :=
    if word == "inf" || word == "infinity" then some (1.0 / 0.0 : Float)
    else if word == "nan" then some (0.0 / 0.0)
    else (decimal? rest).map fun (n, e) => ofScientific n e
  magnitude?.map fun x => if negative then -x else x

end Decimal

end Farmhand
