import Farmhand.Document.Assembly
import Farmhand.Document.Scalar

/-!
# Reading Documents

A document is read line by line: a header opens a table or begins an item of a list of tables, and
an entry is written into the table opened last. Values are texts, words, lists between brackets and
tables between braces. A list may go over several lines and end with a comma, a table between braces
may not. How deep lists and tables stand in each other is limited.

Every step of the reader takes at least one character away, which is why it ends.

## Main definitions

* `value?`: The value at the front of a text.
* `Line`, `lines?`: The lines of a document.
* `read?`: A whole document as its table.
-/

namespace Farmhand

namespace Document

/-- How many lists and tables may stand around a value. -/
def maxNesting : Nat := 79

mutual

/-- The value at the front of a text, in which `room` more lists and tables may stand in each
    other. -/
def value? (room : Nat) (cs : List Char) : Option (Datum × Shorter cs) :=
  match cs with
  | [] => none
  | c :: rest =>
    if c = '"' || c = '\'' then (text? (c :: rest)).map fun (s, after) => (.text s, after)
    else if c = '[' then
      match room with
      | 0 => none
      | room + 1 => (items? room rest).map fun (items, after) => (.list items, after.cons)
    else if c = '\x7b' then
      match room with
      | 0 => none
      | room + 1 =>
        match after? '\x7d' (skipGap rest) with
        | some after =>
          some (.table .inline [], (after.ofLE (length_skipGap_le rest)).cons)
        | none =>
          match pairs? room rest with
          | some (pairs, after) => (inlineTable pairs).map fun d => (d, after.cons)
          | none => none
    else takeScalar? (c :: rest)
termination_by 2 * cs.length
decreasing_by all_goals simp only [List.length_cons]; omega

/-- The items of a list up to its closing bracket. -/
def items? (room : Nat) (cs : List Char) : Option (List Datum × Shorter cs) :=
  match after? ']' (skipSpace cs) with
  | some after => some ([], after.ofLE (length_skipSpace_le cs))
  | none =>
    match value? room (skipSpace cs) with
    | none => none
    | some (item, rest) =>
      let rest := rest.ofLE (length_skipSpace_le cs)
      match after? ',' (skipSpace rest.1) with
      | some comma =>
        let comma := rest.andThen (comma.ofLE (length_skipSpace_le rest.1))
        match items? room comma.1 with
        | some (items, after) => some (item :: items, comma.andThen after)
        | none => none
      | none =>
        match after? ']' (skipSpace rest.1) with
        | some after => some ([item], rest.andThen (after.ofLE (length_skipSpace_le rest.1)))
        | none => none
termination_by 2 * cs.length + 1
decreasing_by
  · have := length_skipSpace_le cs
    omega
  · exact Shorter.two_mul_succ_lt _

/-- The entries of a table up to its closing brace; there is at least one. -/
def pairs? (room : Nat) (cs : List Char) : Option (List (List String × Datum) × Shorter cs) :=
  match path? cs with
  | none => none
  | some (key, rest) =>
    match after? '=' rest.1 with
    | none => none
    | some equal =>
      let start := (rest.andThen equal).thenLE (length_skipGap_le _)
      match value? room start.1 with
      | none => none
      | some (value, rest) =>
        let rest := start.andThen rest
        match after? ',' (skipGap rest.1) with
        | some comma =>
          let comma := rest.andThen (comma.ofLE (length_skipGap_le rest.1))
          match pairs? room comma.1 with
          | some (pairs, after) => some ((key, value) :: pairs, comma.andThen after)
          | none => none
        | none =>
          match after? '\x7d' (skipGap rest.1) with
          | some after =>
            some ([(key, value)], rest.andThen (after.ofLE (length_skipGap_le rest.1)))
          | none => none
termination_by 2 * cs.length + 1
decreasing_by
  · exact Shorter.two_mul_lt _
  · exact Shorter.two_mul_succ_lt _

end

/-- A line of a document that says something. -/
inductive Line where
  /-- The header of a table. -/
  | table (path : List String)
  /-- The header of an item of a list of tables. -/
  | item (path : List String)
  | entry (key : List String) (value : Datum)

/-- The header of a table, its opening bracket being read. -/
def tableHeader? (cs : List Char) : Option (Line × Shorter cs) :=
  match path? cs with
  | none => none
  | some (path, rest) =>
    (after? ']' rest.1).map fun after => (.table path, rest.andThen after)

/-- The header of an item of a list of tables, its opening brackets being read. -/
def itemHeader? (cs : List Char) : Option (Line × Shorter cs) :=
  match path? cs with
  | none => none
  | some (path, rest) =>
    match after? ']' rest.1 with
    | none => none
    | some close =>
      (after? ']' close.1).map fun after => (.item path, rest.andThen (close.andThen after))

/-- An entry. -/
def entry? (cs : List Char) : Option (Line × Shorter cs) :=
  match path? cs with
  | none => none
  | some (key, rest) =>
    match after? '=' rest.1 with
    | none => none
    | some equal =>
      let start := (rest.andThen equal).thenLE (length_skipGap_le _)
      (value? maxNesting start.1).map fun (value, after) =>
        (.entry key value, start.andThen after)

/-- A line that says something, without its end. -/
def line? (cs : List Char) : Option (Line × Shorter cs) :=
  match cs with
  | '[' :: '[' :: cs => (itemHeader? cs).map fun (line, after) => (line, after.cons.cons)
  | '[' :: cs => (tableHeader? cs).map fun (line, after) => (line, after.cons)
  | cs => entry? cs

/-- The lines of a document that say something. The last one may be a comment without a line
    end. -/
def lines? (cs : List Char) : Option (List Line) :=
  match _hs : skipSpace cs with
  | [] => some []
  | c :: rest =>
    if c = '#' then (if (skipComment (c :: rest)).isEmpty then some [] else none)
    else
      match line? (c :: rest) with
      | none => none
      | some (line, behind) =>
        match _he : endLine? behind.1 with
        | none => none
        | some rest => (lines? rest).map (line :: ·)
termination_by cs.length
decreasing_by
  have hs := length_skipSpace_le cs
  rw [_hs] at hs
  have he := length_le_of_endLine? _he
  have := behind.2
  omega

/-- The state of a document while it is read: its entries, and the path of the table opened last. -/
structure Draft where
  rows : Rows
  path : List String

/-- The document after one more line. -/
def Draft.add? (d : Draft) : Line → Option Draft
  | .table path => (openTable path d.rows).map fun rows => ⟨rows, path⟩
  | .item path => (openItem path d.rows).map fun rows => ⟨rows, path⟩
  | .entry key value =>
    (descend false (assign key value) d.path .header d.rows).map fun rows => ⟨rows, d.path⟩

/-- The text without a byte order mark in front. -/
def dropMark : List Char → List Char
  | '\ufeff' :: cs => cs
  | cs => cs

/-- A whole document as its table. -/
def read? (source : String) : Option Datum :=
  (lines? (dropMark source.toList)).bind fun lines =>
    (lines.foldlM Draft.add? ⟨[], []⟩).map fun d => .table .header d.rows

end Document

end Farmhand
