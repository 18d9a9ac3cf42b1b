/-!
# Blank Characters

The characters that count as white space when a text is trimmed, and the trimming itself. A
character is blank when it has the Unicode property `White_Space`, which twenty-five code points
have; the ASCII space, tab, line feed and carriage return are among them, the zero-width
characters are not.

## Main definitions

* `isBlank`: Membership in the property.
* `trimStart`, `trimEnd`, `trim`: A text without the blanks at its ends.
* `isAllBlank`: A text with nothing else in it.
-/

namespace Farmhand

namespace Text

/-- The ranges of the property `White_Space`. -/
def blankRanges : List (Nat × Nat) :=
  [(0x9, 0xD), (0x20, 0x20), (0x85, 0x85), (0xA0, 0xA0), (0x1680, 0x1680), (0x2000, 0x200A),
    (0x2028, 0x2029), (0x202F, 0x202F), (0x205F, 0x205F), (0x3000, 0x3000)]

/-- White space, in the sense of the Unicode property of that name. -/
def isBlank (c : Char) : Bool :=
  blankRanges.any fun (first, last) => first ≤ c.toNat && c.toNat ≤ last

/-- The text from its first character that is not blank. -/
def trimStart (text : List Char) : List Char :=
  text.dropWhile isBlank

/-- The text up to its last character that is not blank. -/
def trimEnd (text : List Char) : List Char :=
  (text.reverse.dropWhile isBlank).reverse

/-- The text without the blanks at either end. -/
def trim (text : List Char) : List Char :=
  trimEnd (trimStart text)

/-- Nothing but blanks, the empty text included. -/
def isAllBlank (text : List Char) : Bool :=
  text.all isBlank

end Text

end Farmhand
