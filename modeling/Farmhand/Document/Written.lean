/-!
# Texts as a Document Writes Them

A text is written in the plainest way that can hold it: between double quotes if nothing in it
would have to be escaped, else between single quotes, else over several lines, and with escapes
only if no other way is left. A text with line feeds is never written on one line.

## Main definitions

* `longestRun`: The longest run of a character.
* `escaped`: A text with its escapes.
* `written`: A text with its quotes.
-/

namespace Farmhand

namespace Document

/-- The longest run of a character in a text, the run that ends just before the text included. -/
def longestRun (c : Char) (run : Nat) : List Char → Nat
  | [] => run
  | d :: rest => if d = c then longestRun c (run + 1) rest else max run (longestRun c 0 rest)

/-- An ASCII control that neither a tab nor a line feed is. -/
def isControl (c : Char) : Bool :=
  (c.toNat < 0x20 || c.toNat = 0x7F) && c != '\t' && c != '\n'

/-- The four upper-case hexadecimal digits of a control. -/
def controlDigits (c : Char) : List Char :=
  ['0', '0', Nat.digitChar (c.toNat / 16), (Nat.digitChar (c.toNat % 16)).toUpper]

/-- One character as it is written between double quotes, a double quote apart. -/
def escapeOf (multiline : Bool) (c : Char) : List Char :=
  match c with
  | '\x08' => ['\\', 'b']
  | '\t' => ['\\', 't']
  | '\n' => if multiline then ['\n'] else ['\\', 'n']
  | '\x0c' => ['\\', 'f']
  | '\r' => ['\\', 'r']
  | '\\' => ['\\', '\\']
  | c => if isControl c then '\\' :: 'u' :: controlDigits c else [c]

/-- A text between double quotes, after `run` of them in a row. Over several lines, two in a row
    stand for themselves. -/
def escaped (multiline : Bool) (run : Nat) : List Char → List Char
  | [] => []
  | c :: rest =>
    if c = '"' then
      if run < (if multiline then 2 else 0) then '"' :: escaped multiline (run + 1) rest
      else '\\' :: '"' :: escaped multiline 0 rest
    else escapeOf multiline c ++ escaped multiline 0 rest

/-- A text on one line between double quotes. -/
def basic (text : List Char) : List Char :=
  ['"'] ++ escaped false 0 text ++ ['"']

/-- A text on one line between single quotes. -/
def literal (text : List Char) : List Char :=
  ['\''] ++ text ++ ['\'']

/-- A line feed after the opening quotes of a text that has line feeds itself. -/
def opening (text : List Char) : List Char :=
  if text.contains '\n' then ['\n'] else []

/-- A text over several lines between double quotes. -/
def longBasic (text : List Char) : List Char :=
  List.replicate 3 '"' ++ opening text ++ escaped true 0 text ++ List.replicate 3 '"'

/-- A text over several lines between single quotes. -/
def longLiteral (text : List Char) : List Char :=
  List.replicate 3 '\'' ++ opening text ++ text ++ List.replicate 3 '\''

/-- A text as a document writes it. -/
def written (text : String) : String :=
  let cs := text.toList
  let controls := cs.any isControl
  let backslashes := cs.contains '\\'
  let newlines := cs.contains '\n'
  let double := longestRun '"' 0 cs
  let single := longestRun '\'' 0 cs
  String.ofList <|
    if !controls && !backslashes && double = 0 && !newlines then basic cs
    else if !controls && single = 0 && !newlines then literal cs
    else if !controls && !backslashes && double ≤ 2 then longBasic cs
    else if !controls && single ≤ 2 then longLiteral cs
    else if newlines then longBasic cs
    else basic cs

end Document

end Farmhand
