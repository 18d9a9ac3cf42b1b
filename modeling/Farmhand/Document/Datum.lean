import Farmhand.Document.Moment
import Farmhand.Integer
import Farmhand.Table

/-!
# Data of a Document

World files and configurations are TOML documents. What such a document says is a table of data:
texts, numbers, truth values, moments, lists, and tables again. Reading a domain value out of a
datum is a question of what the datum is, asked here once for each class of values.

A table remembers how it came to be, since that decides whether later lines of the document may
still add to it.

## Main definitions

* `Datum`: A value of a document.
* `Origin`: How a table came to be.
* `Datum.entries?`, `Datum.items?`, `Datum.record?`: A datum seen as a table, as a list, or as a
  record with known fields.
* `Datum.variant?`: A datum as a choice among names.
-/

namespace Farmhand

namespace Document

/-- How a table of a document came to be. -/
inductive Origin where
  /-- By a header of its own, or as the document itself. -/
  | header
  /-- As a part of the path in a header. -/
  | implied
  /-- As a part of a dotted key. -/
  | dotted
  /-- Between braces; nothing can be added later. -/
  | inline
deriving DecidableEq, Inhabited

/-- A value of a document. -/
inductive Datum where
  | text (s : String)
  | integer (n : Int)
  | float (x : Float)
  | bool (b : Bool)
  | moment (m : Moment)
  | list (items : List Datum)
  /-- A list of tables, each begun by a header. -/
  | tables (items : List Datum)
  | table (origin : Origin) (entries : List (String × Datum))
deriving Inhabited

namespace Datum

/-- The name under which a moment that is seen as a table holds its text. -/
def momentKey : String := "$__toml_private_datetime"

/-- The entries of a datum seen as a table. -/
def entries? : Datum → Option (List (String × Datum))
  | table _ entries => some entries
  | moment m => some [(momentKey, text m.render)]
  | _ => none

/-- The items of a datum seen as a list. -/
def items? : Datum → Option (List Datum)
  | list items => some items
  | tables items => some items
  | _ => none

/-- The text that a datum is. -/
def text? : Datum → Option String
  | text s => some s
  | _ => none

/-- The integer that a datum is. -/
def integer? : Datum → Option Int
  | integer n => some n
  | _ => none

/-- The natural number that a datum is. -/
def natural? (d : Datum) : Option Nat :=
  d.integer?.bind fun n => if 0 ≤ n then some n.toNat else none

/-- The value of a counter that a datum is. -/
def counter? (d : Datum) : Option Nat :=
  d.integer?.bind Integer.counter?

/-- The amount that a datum is. -/
def amount? (d : Datum) : Option Nat :=
  d.integer?.bind Integer.amount?

/-- The coordinate that a datum is. -/
def coordinate? (d : Datum) : Option Int :=
  d.integer?.bind fun n => if Integer.isCoordinate n then some n else none

/-- The number that a datum is, whole or not. -/
def float? : Datum → Option Float
  | float x => some x
  | integer n => some (Float.ofInt n)
  | _ => none

/-- The list that a datum is, if each of its items can be read. -/
def listOf? {α : Type} (read? : Datum → Option α) (d : Datum) : Option (List α) :=
  d.items?.bind fun items => items.mapM read?

/-- The table that a datum is, if each of its values can be read. -/
def tableOf? {α : Type} (read? : Datum → Option α) (d : Datum) : Option (Table α) :=
  d.entries?.bind fun entries =>
    (entries.mapM fun entry => (read? entry.2).map fun v => (entry.1, v)).map Table.ofList

/-- A record whose fields have the given names: the datum of each field that is there. The fields
    are found by their names in a table, and by their order in a list. What is there beyond the
    fields does no harm. -/
def record? (names : List String) (d : Datum) : Option (List (Option Datum)) :=
  match d.entries? with
  | some entries => some (names.map fun name => Entries.get? name entries)
  | none => d.items?.map fun items => (List.range names.length).map fun i => items[i]?

/-- Whether a datum is a list or a table with nothing in it. -/
def isVacant : Datum → Bool
  | list items => items.isEmpty
  | tables items => items.isEmpty
  | table _ entries => entries.isEmpty
  | _ => false

/-- The name that a datum chooses: a text, or a table with that name for its only entry and nothing
    in it. -/
def variant? : Datum → Option String
  | text s => some s
  | table _ [(name, payload)] => if payload.isVacant then some name else none
  | _ => none

end Datum

/-- A field that must be there. -/
def required? {α : Type} (read? : Datum → Option α) (field : Option Datum) : Option α :=
  field.bind read?

/-- A field with a value for when it is not there. One that is there must be readable. -/
def optional? {α : Type} (default : α) (read? : Datum → Option α) (field : Option Datum) :
    Option α :=
  match field with
  | none => some default
  | some d => read? d

end Document

end Farmhand
