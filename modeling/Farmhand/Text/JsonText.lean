/-!
# JSON Text

Records of texts, numbers and lists of texts on one line of JSON, without blanks. In a text the
double quote, the backslash and the controls below the space are escaped, the common ones by a
letter; everything else stands for itself.

## Main definitions

* `escapeChar`, `quote`: A text between quotes.
* `Item`, `record`: The values of a record, and a whole record.
-/

namespace Farmhand

namespace Text

namespace Json

/-- One character as it is written between quotes. -/
def escapeChar (c : Char) : List Char :=
  match c with
  | '"' => ['\\', '"']
  | '\\' => ['\\', '\\']
  | '\x08' => ['\\', 'b']
  | '\x0c' => ['\\', 'f']
  | '\n' => ['\\', 'n']
  | '\r' => ['\\', 'r']
  | '\t' => ['\\', 't']
  | c =>
    if c.toNat < 0x20 then
      ['\\', 'u', '0', '0', Nat.digitChar (c.toNat / 16), Nat.digitChar (c.toNat % 16)]
    else [c]

/-- A text between quotes. -/
def quote (text : String) : String :=
  String.ofList ('"' :: (text.toList.flatMap escapeChar ++ ['"']))

/-- A value in a record. -/
inductive Item where
  | text (s : String)
  | number (n : Nat)
  | texts (items : List String)
deriving DecidableEq

/-- A value as it is written. -/
def Item.render : Item → String
  | text s => quote s
  | number n => toString n
  | texts items => "[" ++ ",".intercalate (items.map quote) ++ "]"

/-- A record of named values, in order. -/
def record (fields : List (String × Item)) : String :=
  let written := fields.map fun field => quote field.1 ++ ":" ++ field.2.render
  "\x7b" ++ ",".intercalate written ++ "\x7d"

end Json

end Text

end Farmhand
