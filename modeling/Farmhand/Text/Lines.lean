import Farmhand.Text.Blank

/-!
# Lines of a Text

A line ends at a line feed, and a carriage return just before that line feed belongs to the line
end as well. A carriage return anywhere else is an ordinary character. What follows the last line
feed is a line only when it is not empty, so a text that ends in a line feed has no empty line
after it.

## Main definitions

* `lines`: The lines of a text, without their ends.
* `SourceLines`: The numbered lines of a script, as diagnostics quote them.
-/

namespace Farmhand

namespace Text

/-- The lines of a text, without their ends. -/
def lines : List Char → List (List Char)
  | [] => []
  | '\n' :: rest => [] :: lines rest
  | '\r' :: '\n' :: rest => [] :: lines rest
  | c :: rest =>
    match lines rest with
    | [] => [[c]]
    | line :: more => (c :: line) :: more

/-- The lines of a script, which diagnostics quote by number. -/
structure SourceLines where
  /-- The lines in order, the first of them being line 1. -/
  all : List (List Char)

namespace SourceLines

/-- The lines of a source text. -/
def ofString (source : String) : SourceLines :=
  ⟨lines source.toList⟩

/-- The number of lines. -/
def size (s : SourceLines) : Nat :=
  s.all.length

/-- The text of a line by its number, without the blanks at its ends. Lines are counted from 1,
    so there is no line 0. -/
def line? (s : SourceLines) : Nat → Option String
  | 0 => none
  | n + 1 => (s.all[n]?).map fun line => String.ofList (trim line)

end SourceLines

end Text

end Farmhand
