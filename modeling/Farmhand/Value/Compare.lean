import Farmhand.Value.Basic

/-!
# Comparing Values

Numbers are ordered as numbers, whatever their types, strings by their characters, and lists by
their first items that differ. Other values have no order. Two numbers of the language are equal
when neither is less; all other values are equal when they are built alike, so that an integer and
a float inside two lists never are.

## Main definitions

* `Value.compare?`: The order of two values, where they have one.
* `Value.identical`: Values that are built alike.
* `Value.equal`: The equality of the language.
-/

namespace Farmhand

namespace Value

/-- The order of two strings, by the code points of their characters. -/
def compareTexts : List Char → List Char → Ordering
  | [], [] => .eq
  | [], _ :: _ => .lt
  | _ :: _, [] => .gt
  | c :: cs, d :: ds =>
    if c.toNat < d.toNat then .lt
    else if d.toNat < c.toNat then .gt
    else compareTexts cs ds

/-- The order of two values that are neither both integers, nor strings or lists. -/
def compareNumbers? (left right : Value) : Option Ordering :=
  match left.toFloat?, right.toFloat? with
  | some x, some y => Decimal.compare? x y
  | _, _ => Option.none

mutual

/-- The order of two values, where they have one. -/
def compare? : Value → Value → Option Ordering
  | .int a, .int b => some (compare a b)
  | .str a, .str b => some (compareTexts a.toList b.toList)
  | .list as, .list bs => compareLists? as bs
  | left, right => compareNumbers? left right

/-- The order of two lists: that of their first items that differ. A list comes before a longer
    one that starts with it. -/
def compareLists? : List Value → List Value → Option Ordering
  | [], [] => some .eq
  | [], _ :: _ => some .lt
  | _ :: _, [] => some .gt
  | a :: as, b :: bs =>
    match compare? a b with
    | some .eq => compareLists? as bs
    | other => other

end

mutual

/-- Values that are built alike. Maps need not have their entries in the same order. -/
def identical : Value → Value → Bool
  | .none, .none => true
  | .bool a, .bool b => a == b
  | .int a, .int b => a == b
  | .float x, .float y => Decimal.same x y
  | .str a, .str b => a == b
  | .list as, .list bs => identicalItems as bs
  | .map as, .map bs => as.length == bs.length && identicalEntries as bs
  | _, _ => false

/-- Lists whose items are built alike. -/
def identicalItems : List Value → List Value → Bool
  | [], [] => true
  | a :: as, b :: bs => identical a b && identicalItems as bs
  | _, _ => false

/-- Entries that all stand in a map as well. -/
def identicalEntries : List (String × Value) → List (String × Value) → Bool
  | [], _ => true
  | (key, a) :: rest, bs =>
    (match Entries.get? key bs with
      | some b => identical a b
      | Option.none => false) && identicalEntries rest bs

end

/-- Whether a value is an integer or a float. -/
def isNumber : Value → Bool
  | int _ => true
  | float _ => true
  | _ => false

/-- The equality of the language. -/
def equal (left right : Value) : Bool :=
  if left.isNumber && right.isNumber then compare? left right == some .eq
  else identical left right

end Value

end Farmhand
