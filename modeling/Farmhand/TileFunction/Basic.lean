import Farmhand.World.Entity

/-!
# Tile Functions

The functions that tiles can offer to the actor that stands on them. A tile offers a function if
its list of functions names it and the function is made for its kind of tile.

## Main definitions

* `TileFunction`: The functions.
* `TileFunction.kind`, `TileFunction.energy`: The tiles they are made for, and the energy that the
  actor needs.
* `Tile.function?`: The function that a tile offers under a name.
-/

namespace Farmhand

/-- The functions that tiles can offer. -/
inductive TileFunction where
  | plant | harvest | mineInitiate | collect | eat | store
deriving DecidableEq

namespace TileFunction

/-- All functions. -/
def all : List TileFunction :=
  [plant, harvest, mineInitiate, collect, eat, store]

/-- The name by which a script calls a function. -/
def name : TileFunction → String
  | plant => "plant"
  | harvest => "harvest"
  | mineInitiate => "mine_initiate"
  | collect => "collect"
  | eat => "eat"
  | store => "store"

/-- The kind of tile that a function is made for. -/
def kind : TileFunction → TileKind
  | plant => .farmland
  | harvest => .farmland
  | mineInitiate => .mine
  | collect => .mine
  | eat => .food
  | store => .storage

/-- The energy that the actor needs. -/
def energy : TileFunction → Nat
  | plant => 5
  | harvest => 2
  | mineInitiate => 10
  | collect => 2
  | eat => 0
  | store => 1

/-- What a function does, in a few words. -/
def description : TileFunction → String
  | plant => "Plant seeds; the crop is ready about 10 seconds later"
  | harvest => "Harvest a ready crop into global wheat"
  | mineInitiate => "Set up the mine; ore is ready about 13 seconds later"
  | collect => "Collect mined ore into global ore"
  | eat => "Eat to restore energy, up to the maximum"
  | store => "Move everything the actor carries into global resources"

/-- The function of a name. -/
def ofName? (name : String) : Option TileFunction :=
  all.find? fun f => f.name = name

end TileFunction

/-- The function that a tile offers under a name. -/
def Tile.function? (t : Tile) (name : String) : Option TileFunction :=
  if t.binds name then (TileFunction.ofName? name).filter fun f => f.kind = t.kind else none

end Farmhand
