/-!
# Terminal Styles

Colours and weights of terminal text. A style is a pair of escape sequences around a text; styles
nest, and an inner one ends before the outer one does.

## Main definitions

* `Style`: The styles in use.
* `Style.paint`: A text in a style.
-/

namespace Farmhand

namespace Text

/-- The styles in use. -/
inductive Style where
  | green | red | yellow | cyan | bold | dim
deriving DecidableEq

namespace Style

/-- An escape sequence that selects a rendition by its number. -/
def select (rendition : Nat) : String :=
  s!"\x1b[{rendition}m"

/-- The numbers that begin and end a style. -/
def codes : Style → Nat × Nat
  | green => (32, 39)
  | red => (31, 39)
  | yellow => (33, 39)
  | cyan => (36, 39)
  | bold => (1, 0)
  | dim => (2, 0)

/-- A text in a style. -/
def paint (style : Style) (text : String) : String :=
  select style.codes.1 ++ text ++ select style.codes.2

end Style

end Text

end Farmhand
