import Farmhand.Document.Datum

/-!
# Tables from Paths

Headers and dotted keys name a place in a document by a path of names. Following a path makes the
tables on it that are not there yet. What may follow it depends on how the tables came to be: a
table between braces is closed, a dotted key does not lead through a table that has a header of its
own, and a header does not open again what has been opened, by a header or by a dotted key. Through
a list of tables a path leads to the last of them.

## Main definitions

* `descend`: A change of the table at the end of a path.
* `assign`: An entry written by its key.
* `openTable`, `openItem`: The effects of the two kinds of headers.
-/

namespace Farmhand

namespace Document

/-- The entries of a table. -/
abbrev Rows := List (String × Datum)

/-- Changes the table at the end of a path that starts in a table, given how the changed table came
    to be. If the path is part of a dotted key, the tables it makes are so as well. -/
def descend (dotted : Bool) (change : Origin → Rows → Option Rows) :
    List String → Origin → Rows → Option Rows
  | [], origin, rows => change origin rows
  | name :: path, _, rows =>
    match Entries.get? name rows with
    | none =>
      let origin := if dotted then .dotted else .implied
      (descend dotted change path origin []).map fun inner =>
        Entries.insert name (.table origin inner) rows
    | some (.table origin inner) =>
      if origin = .inline || (dotted && origin = .header) then none
      else
        (descend dotted change path origin inner).map fun inner =>
          Entries.insert name (.table origin inner) rows
    | some (.tables items) =>
      match items.getLast? with
      | some (.table origin inner) =>
        (descend dotted change path origin inner).map fun inner =>
          Entries.insert name (.tables (items.dropLast ++ [.table origin inner])) rows
      | _ => none
    | some _ => none

/-- Adds an entry to a table, in which its name must be new. A table that dotted keys have made is
    changed by dotted keys only, and they change no other. -/
def addRow (dotted : Bool) (name : String) (value : Datum) (origin : Origin) (rows : Rows) :
    Option Rows :=
  if (origin == .dotted) != dotted then none
  else
    match Entries.get? name rows with
    | some _ => none
    | none => some (Entries.insert name value rows)

/-- Writes an entry by its key into a table. -/
def assign (key : List String) (value : Datum) (origin : Origin) (rows : Rows) : Option Rows :=
  match key.getLast? with
  | none => none
  | some name =>
    let path := key.dropLast
    descend (!path.isEmpty) (addRow (!path.isEmpty) name value) path origin rows

/-- Gives a table of its own to a name. Tables may be in it already if they came before it. -/
def addTable (name : String) (_ : Origin) (rows : Rows) : Option Rows :=
  match Entries.get? name rows with
  | none => some (Entries.insert name (.table .header []) rows)
  | some (.table .implied inner) => some (Entries.insert name (.table .header inner) rows)
  | some _ => none

/-- Adds a table to the list of tables at a name. -/
def addItem (name : String) (_ : Origin) (rows : Rows) : Option Rows :=
  match Entries.get? name rows with
  | none => some (Entries.insert name (.tables [.table .header []]) rows)
  | some (.tables items) =>
    some (Entries.insert name (.tables (items ++ [.table .header []])) rows)
  | some _ => none

/-- Follows a path from the document and changes the table that holds its last name. -/
def atHeader (change : String → Origin → Rows → Option Rows) (path : List String) (rows : Rows) :
    Option Rows :=
  match path.getLast? with
  | none => none
  | some name => descend false (change name) path.dropLast .header rows

/-- The effect of a header on the document. -/
def openTable : List String → Rows → Option Rows :=
  atHeader addTable

/-- The effect of a header that begins an item of a list. -/
def openItem : List String → Rows → Option Rows :=
  atHeader addItem

/-- The table of the entries between braces. -/
def inlineTable (pairs : List (List String × Datum)) : Option Datum :=
  (pairs.foldlM (fun rows (key, value) => assign key value .inline rows) []).map
    (.table .inline)

end Document

end Farmhand
