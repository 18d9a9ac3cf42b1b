import Farmhand.Integer
import Farmhand.Text.Blank

/-!
# Positions and Directions

The grid of the world. Columns grow to the right and rows grow downwards, so that going up takes
one from the row.

The distance between two positions and the way from one to the other are defined twice: as they are,
and as the program computes them, with numbers of 32 bits. A position that is asked for need not lie
in the world, so these numbers can be too large.

## Main definitions

* `Position`: A column and a row.
* `Position.stepsTo`, `Position.countSteps`: The distance between two positions, in steps.
* `Position.pathTo`, `Position.layOut`: The positions on the way, columns first.
* `Direction`: The four directions.
* `Bounds`: The size of the world.
-/

namespace Farmhand

/-- A place on the grid. -/
structure Position where
  x : Int
  y : Int
deriving DecidableEq, Inhabited

namespace Position

/-- A position as messages show it. -/
def render (p : Position) : String :=
  s!"({p.x}, {p.y})"

/-- A position moved by some columns and rows. -/
def offset (p : Position) (dx dy : Int) : Position :=
  ⟨p.x + dx, p.y + dy⟩

/-- The number of steps between two positions. -/
def stepsTo (p q : Position) : Nat :=
  (p.x - q.x).natAbs + (p.y - q.y).natAbs

/-- The number of steps between two positions, counted as an amount. -/
def countSteps (p q : Position) : Except Overflow Nat :=
  if p.stepsTo q ≤ Integer.maxAmount then .ok (p.stepsTo q) else .error .steps

/-- The positions after each of some equal steps. -/
def line (p : Position) (dx dy : Int) (count : Nat) : List Position :=
  (List.range count).map fun (i : Nat) => p.offset (dx * (i + 1)) (dy * (i + 1))

/-- Whether the column and the row of a position are coordinates. -/
def isCounted (p : Position) : Bool :=
  Integer.isCoordinate p.x && Integer.isCoordinate p.y

/-- The positions after each of some equal steps, each of them counted in coordinates. -/
def layLine (p : Position) (dx dy : Int) (count : Nat) : Except Overflow (List Position) :=
  let path := p.line dx dy count
  if path.all isCounted then .ok path else .error .coordinate

/-- The positions visited on the way to a goal: along the row first, then along the column. -/
def pathTo (p goal : Position) : List Position :=
  p.line (goal.x - p.x).sign 0 (goal.x - p.x).natAbs ++
    Position.line ⟨goal.x, p.y⟩ 0 (goal.y - p.y).sign (goal.y - p.y).natAbs

/-- The position after a step towards a goal, along the row as long as the goal is in another
    column. How far the goal still is has to be a coordinate. The step itself stays between the two
    positions, and so in range. -/
def approach (p goal : Position) : Except Overflow Position :=
  if p.x ≠ goal.x then
    if Integer.isCoordinate (goal.x - p.x) then .ok (p.offset (goal.x - p.x).sign 0)
    else .error .coordinate
  else if Integer.isCoordinate (goal.y - p.y) then .ok (p.offset 0 (goal.y - p.y).sign)
  else .error .coordinate

/-- The positions after each of some steps towards a goal, with those in front of them that were
    laid out before, in reverse. -/
def layOutFrom (goal : Position) :
    Nat → Position → List Position → Except Overflow (List Position)
  | 0, _, before => .ok before.reverse
  | left + 1, p, before =>
    match p.approach goal with
    | .ok q => layOutFrom goal left q (q :: before)
    | .error overflow => .error overflow

/-- The way to a goal, laid out step by step. -/
def layOut (p goal : Position) : Except Overflow (List Position) :=
  layOutFrom goal (p.stepsTo goal) p []

end Position

/-- The directions of the grid. -/
inductive Direction where
  | up | down | left | right
deriving DecidableEq

namespace Direction

/-- The change of column and row that one step makes. -/
def delta : Direction → Int × Int
  | up => (0, -1)
  | down => (0, 1)
  | left => (-1, 0)
  | right => (1, 0)

/-- The direction that a word names, in any case and with blanks around it. -/
def ofText? (text : String) : Option Direction :=
  match String.ofList ((Text.trim text.toList).map Char.toLower) with
  | "up" => some up
  | "north" => some up
  | "down" => some down
  | "south" => some down
  | "left" => some left
  | "west" => some left
  | "right" => some right
  | "east" => some right
  | _ => none

end Direction

/-- The size of a world, whose positions start at zero. -/
structure Bounds where
  width : Int
  height : Int
deriving DecidableEq, Inhabited

/-- Whether a position lies in the world. -/
def Bounds.contains (b : Bounds) (p : Position) : Bool :=
  0 ≤ p.x && 0 ≤ p.y && p.x < b.width && p.y < b.height

end Farmhand
