import Farmhand.Capability.Basic
import Farmhand.TileFunction.Basic

/-!
# The Catalog of Capabilities

All capabilities by name, in the order in which they are declared, and the listing that a user
reads.

## Main definitions

* `Catalog`: Capabilities by name.
* `Catalog.builtin`: The capabilities of the language.
* `Catalog.describe`: The listing.
-/

namespace Farmhand

/-- Capabilities by name. -/
abbrev Catalog := Table Capability

namespace Catalog

/-- The motion of one step in a direction. -/
def single (name description : String) (direction : Direction) : Capability where
  name
  category := .movement
  params := []
  description
  energy := .fixed stepEnergy
  operation := .step direction

/-- The capabilities that move the actor. -/
def movement : List Capability :=
  [single "move_up" "Move one tile up" .up,
   single "move_down" "Move one tile down" .down,
   single "move_left" "Move one tile left" .left,
   single "move_right" "Move one tile right" .right,
   { name := "move"
     category := .movement
     params :=
      [⟨"direction", "str", true, "up, down, left or right"⟩,
       ⟨"steps", "int", false, "tiles to move, default 1"⟩]
     description := "Move in a direction"
     energy := .perStep stepEnergy .asked
     operation := .move },
   { name := "move_to"
     category := .movement
     params := [⟨"x", "int", true, "target column"⟩, ⟨"y", "int", true, "target row"⟩]
     description := "Walk to a tile, x axis first"
     energy := .perStep stepEnergy .distance
     operation := .moveTo }]

/-- A capability that calls a function of the tile under the actor. -/
def onTile (name description : String) (energy : EnergyCost) (operation : Operation) :
    Capability where
  name
  category := .interaction
  params := []
  description
  energy
  operation

/-- The capabilities that work on the tile under the actor. -/
def interaction : List Capability :=
  [onTile "plant" "Plant seeds on farmland" (.fixed TileFunction.plant.energy) .plant,
   onTile "harvest" "Harvest ready farmland" (.fixed TileFunction.harvest.energy) .harvest,
   onTile "eat" "Eat from a food tile" .free .eat,
   onTile "store" "Deposit the inventory at a storage tile" (.fixed TileFunction.store.energy)
     .store]

/-- A capability that waits. -/
def pause (name description : String) : Capability where
  name
  category := .system
  params := [⟨"seconds", "number", true, "time to wait"⟩]
  description
  energy := .free
  operation := .wait

/-- The capabilities about time. -/
def system : List Capability :=
  [pause "wait" "Pause the script", pause "sleep" "Same as wait"]

/-- A capability that costs nothing and changes nothing in the world. -/
def helper (name : String) (params : List Parameter) (description : String)
    (operation : Operation) : Capability where
  name
  category := .utility
  params
  description
  energy := .free
  operation

/-- The parameter of the capabilities that take one value or several. -/
def valueParams : List Parameter :=
  [⟨"value", "any", true, "list, or several values"⟩]

/-- The capabilities that look things up and compute. -/
def utility : List Capability :=
  [helper "get_position" [] "Current position as \x7bx, y\x7d" .getPosition,
   helper "get_energy" [] "Current energy" .getEnergy,
   helper "get_inventory" [] "Items carried" .getInventory,
   helper "print" [⟨"values", "any", false, "values to print"⟩] "Print a message" .print,
   helper "range"
     [⟨"start", "int", true, "first value, or the end when alone"⟩,
      ⟨"stop", "int", false, "end, exclusive"⟩,
      ⟨"step", "int", false, "increment, default 1"⟩]
     "List of integers" .range,
   helper "len" valueParams "Length of a list, string or map" .len,
   helper "min" valueParams "Smallest value" .min,
   helper "max" valueParams "Largest value" .max,
   helper "sum" valueParams "Sum of numbers" .sum,
   helper "abs" [⟨"n", "number", true, "a number"⟩] "Absolute value" .abs]

/-- Adds a capability, or replaces the one of its name. -/
def register (c : Catalog) (capability : Capability) : Catalog :=
  c.insert capability.name capability

/-- The capabilities of the language. -/
def builtin : Catalog :=
  (movement ++ interaction ++ system ++ utility).foldl register .empty

/-- The capabilities of a group. -/
def ofCategory (c : Catalog) (category : Category) : List Capability :=
  c.values.filter fun capability => capability.category = category

/-- A text with blanks after it, up to a width. -/
def padded (width : Nat) (text : String) : String :=
  text ++ String.ofList (List.replicate (width - text.length) ' ')

/-- The lines of a listing about one capability. -/
def entryLines (c : Capability) : List String :=
  ("  " ++ padded 28 c.signature ++ " " ++ c.description ++ " (" ++ c.energy.render ++ ")") ::
    c.params.map fun p => "      " ++ padded 10 p.name ++ " " ++ p.description

/-- The lines of a listing about one group; none if it has no capabilities. -/
def groupLines (c : Catalog) (category : Category) : List String :=
  match c.ofCategory category with
  | [] => []
  | entries => ("[" ++ category.name ++ "]") :: entries.flatMap entryLines

/-- The listing of all capabilities by group. -/
def describe (c : Catalog) : String :=
  String.join ((Category.all.flatMap c.groupLines).map (· ++ "\n"))

end Catalog

end Farmhand
