import Farmhand.Decimal.Layout
import Farmhand.Integer
import Farmhand.Table
import Farmhand.Text.Quoted

/-!
# Values

What the expressions of a script stand for. A value has a text of its own; inside a list or a map
strings are quoted, so that the text shows where they begin and end.

## Main definitions

* `Value`: The values of a script.
* `Value.typeName`, `Value.truthy`: The name of a value's type, and what it counts as in a
  condition.
* `Value.toFloat?`, `Value.toInt?`, `Value.toText?`: A value as a number or a text.
* `Value.render`: The text of a value.
-/

namespace Farmhand

/-- The values of a script. The keys of a map are distinct. -/
inductive Value where
  | none
  | bool (b : Bool)
  | int (n : Int)
  | float (x : Float)
  | str (text : String)
  | list (items : List Value)
  | map (entries : List (String × Value))
deriving Inhabited

namespace Value

/-- The name of a value's type. -/
def typeName : Value → String
  | none => "None"
  | bool _ => "bool"
  | int _ => "int"
  | float _ => "float"
  | str _ => "str"
  | list _ => "list"
  | map _ => "map"

/-- What a value counts as in a condition: nothing, zero and what is empty count as false. -/
def truthy : Value → Bool
  | none => false
  | bool b => b
  | int n => n != 0
  | float x => !Decimal.same x 0.0
  | str text => !text.isEmpty
  | list items => !items.isEmpty
  | map entries => !entries.isEmpty

/-- A value as a number that may have a fraction. Truth values count as one and zero. -/
def toFloat? : Value → Option Float
  | int n => some (Float.ofInt n)
  | float x => some x
  | bool b => some (if b then 1.0 else 0.0)
  | _ => Option.none

/-- A value as an integer. A float counts if it has no fraction; if it lies outside the range of
    integers, the nearest one is taken. -/
def toInt? : Value → Option Int
  | int n => some n
  | float x => (Decimal.integer? x).map Integer.clamped
  | bool b => some (if b then 1 else 0)
  | _ => Option.none

/-- A value as a text. -/
def toText? : Value → Option String
  | str text => some text
  | _ => Option.none

/-- The text of a float. A whole number has all of its digits and one decimal; any other number has
    the fewest digits that read back, and never an exponent. -/
def renderFloat (x : Float) : String :=
  match Decimal.parts x with
  | .finite negative b =>
    if b.isInteger then Decimal.oneDecimal negative b
    else Decimal.Layout.plain.render x
  | _ => Decimal.Layout.plain.render x

mutual

/-- The text of a value, strings with or without quotes. -/
def renderWith (quotes : Bool) : Value → String
  | .none => "None"
  | .bool true => "True"
  | .bool false => "False"
  | .int n => toString n
  | .float x => renderFloat x
  | .str text => if quotes then Text.quoted text else text
  | .list items => "[" ++ ", ".intercalate (renderItems items) ++ "]"
  | .map entries => "\x7b" ++ ", ".intercalate (renderEntries entries) ++ "\x7d"

/-- The texts of the items of a list. -/
def renderItems : List Value → List String
  | [] => []
  | v :: rest => renderWith true v :: renderItems rest

/-- The texts of the entries of a map. -/
def renderEntries : List (String × Value) → List String
  | [] => []
  | (key, v) :: rest => (Text.quoted key ++ ": " ++ renderWith true v) :: renderEntries rest

end

/-- The text of a value. -/
def render (v : Value) : String :=
  renderWith false v

end Value

end Farmhand
