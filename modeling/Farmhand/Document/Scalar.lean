import Farmhand.Decimal.Reading
import Farmhand.Document.Datum
import Farmhand.Document.Lexeme

/-!
# Numbers, Truth Values and Moments of a Document

The values that are written without quotes or brackets. Each is a word: as many letters, digits,
signs, points and colons as stand together. Digits may be grouped by single underscores between
them. A decimal integer has no leading zeros; hexadecimal, octal and binary integers have a marked
base and no sign. A float has a fraction, an exponent or both, and is not so large that it would
be infinite; infinity itself is a word.

## Main definitions

* `grouped?`: Digits without the underscores between them.
* `integer?`, `float?`: A word as a number.
* `scalar?`: A word as a value.
* `takeScalar?`: The value at the front of a text.
-/

namespace Farmhand

namespace Document

/-- The digits of a text, which has nothing else but single underscores between them. -/
def grouped? (isDigit : Char → Bool) : List Char → Option (List Char)
  | [] => none
  | c :: rest =>
    if isDigit c then
      match rest with
      | [] => some [c]
      | '_' :: rest => (grouped? isDigit rest).map (c :: ·)
      | rest => (grouped? isDigit rest).map (c :: ·)
    else none

/-- The digits of a decimal number without leading zeros. -/
def whole? (cs : List Char) : Option (List Char) :=
  match cs with
  | '0' :: _ :: _ => none
  | cs => grouped? Char.isDigit cs

/-- The number of digits to a base. -/
def inBase? (base : Nat) (cs : List Char) : Option Nat :=
  let isDigit := fun c => (hexDigit? c).any (· < base)
  (grouped? isDigit cs).map fun digits =>
    digits.foldl (fun n c => base * n + (hexDigit? c).getD 0) 0

/-- A word as an integer of any size. -/
def unbounded? : List Char → Option Int
  | '0' :: 'x' :: rest => (inBase? 16 rest).map Int.ofNat
  | '0' :: 'o' :: rest => (inBase? 8 rest).map Int.ofNat
  | '0' :: 'b' :: rest => (inBase? 2 rest).map Int.ofNat
  | cs =>
    let (negative, rest) := Decimal.splitSign cs
    (whole? rest).map fun digits =>
      let n : Int := Decimal.naturalFrom 0 digits
      if negative then -n else n

/-- A word as an integer. -/
def integer? (cs : List Char) : Option Int :=
  (unbounded? cs).bind Integer.checked?

/-- The digits and the power of ten of a word without a sign that has a fraction, an exponent or
    both. -/
def scientific? (cs : List Char) : Option (Nat × Int) :=
  let isMark := fun c => c == 'e' || c == 'E'
  let mantissa := cs.takeWhile fun c => !isMark c
  let power := cs.dropWhile fun c => !isMark c
  let whole := mantissa.takeWhile (· != '.')
  let fraction := mantissa.dropWhile (· != '.')
  if fraction.isEmpty && power.isEmpty then none
  else do
    let whole ← whole? whole
    let fraction ← if fraction.isEmpty then some [] else grouped? Char.isDigit (fraction.drop 1)
    let exponent ←
      if power.isEmpty then some (0 : Int)
      else
        let (negative, digits) := Decimal.splitSign (power.drop 1)
        (grouped? Char.isDigit digits).map fun digits =>
          let n : Int := Decimal.naturalFrom 0 digits
          if negative then -n else n
    some (Decimal.naturalFrom 0 (whole ++ fraction), exponent - fraction.length)

/-- A word as a float. -/
def float? (cs : List Char) : Option Float :=
  let (negative, rest) := Decimal.splitSign cs
  let signed := fun x : Float => if negative then -x else x
  if rest = "inf".toList then some (signed (1.0 / 0.0))
  else if rest = "nan".toList then some (signed (0.0 / 0.0))
  else
    (scientific? rest).bind fun (digits, exponent) =>
      let x := signed (Decimal.ofScientific digits exponent)
      if x == 1.0 / 0.0 then none else some x

/-- A word as a value. -/
def scalar? (cs : List Char) : Option Datum :=
  if cs = "true".toList then some (.bool true)
  else if cs = "false".toList then some (.bool false)
  else
    match Moment.read? cs with
    | some m => some (.moment m)
    | none =>
      match float? cs with
      | some x => some (.float x)
      | none => (integer? cs).map .integer

/-- The characters of a word. -/
def isWordChar (c : Char) : Bool :=
  c.isAlphanum || c == '_' || c == '-' || c == '+' || c == '.' || c == ':'

/-- Whether a word is a day, and a space and a digit follow it, so that the next word is the time
    of that day. -/
def goesOn (word after : List Char) : Bool :=
  match Date.read? word, after with
  | some (_, []), ' ' :: c :: _ => c.isDigit
  | _, _ => false

/-- The word at the front of a text: a day and its time are one. -/
def takeWord (cs : List Char) : List Char :=
  let word := cs.takeWhile isWordChar
  let after := cs.dropWhile isWordChar
  if goesOn word after then word ++ ' ' :: (after.drop 1).takeWhile isWordChar else word

/-- The value at the front of a text that starts with no quote or bracket. -/
def takeScalar? (cs : List Char) : Option (Datum × Shorter cs) :=
  let word := takeWord cs
  if h : 0 < word.length ∧ 0 < cs.length then
    (scalar? word).map fun d =>
      (d, ⟨cs.drop word.length, by rw [List.length_drop]; omega⟩)
  else none

end Document

end Farmhand
