import Farmhand.Table
import Farmhand.World.Position

/-!
# Actors and Tiles

What the world is made of. Actors stand on tiles, spend energy and carry items; tiles have a kind,
functions that an actor on them can call, and a state of named values. Either can be occupied by a
task for some time.

## Main definitions

* `Task`: What occupies an actor or a tile.
* `Actor`: A being that scripts drive.
* `Tile`: A place with functions.
* `Tile.status`, `Tile.quantity`: The state of a tile that produces something.
-/

namespace Farmhand

/-- What occupies an actor or a tile. Times are in milliseconds. -/
structure Task where
  label : String
  description : String
  owner : Option String
  start : Nat
  duration : Nat
deriving DecidableEq, Inhabited

/-- The kinds of actors. -/
inductive ActorKind where
  | primary | drone
deriving DecidableEq, Inhabited

/-- A being that scripts drive. -/
structure Actor where
  id : String
  kind : ActorKind
  position : Position
  energy : Nat
  maxEnergy : Nat
  /-- A multiple of the basic speed. -/
  speed : Float
  inventory : Table Nat
  task : Option Task
deriving Inhabited

/-- The energy of an actor of which nothing else is known. -/
def defaultEnergy : Nat := 100

/-- An actor with full energy and empty hands. -/
def Actor.new (id : String) (position : Position) : Actor where
  id
  kind := .primary
  position
  energy := defaultEnergy
  maxEnergy := defaultEnergy
  speed := 1.0
  inventory := .empty
  task := none

/-- The number of items that an actor carries. -/
def Actor.load (a : Actor) : Nat :=
  a.inventory.values.foldl (· + ·) 0

/-- The kinds of tiles. -/
inductive TileKind where
  | plain | farmland | mine | food | storage
deriving DecidableEq, Inhabited

namespace TileKind

/-- The name of a kind. -/
def name : TileKind → String
  | plain => "plain"
  | farmland => "farmland"
  | mine => "mine"
  | food => "food"
  | storage => "storage"

/-- The kind of a name. -/
def ofName? : String → Option TileKind
  | "plain" => some plain
  | "farmland" => some farmland
  | "mine" => some mine
  | "food" => some food
  | "storage" => some storage
  | _ => none

/-- The functions that a tile of this kind has unless it says otherwise. -/
def functions : TileKind → List String
  | plain => []
  | farmland => ["plant", "harvest"]
  | mine => ["mine_initiate", "collect"]
  | food => ["eat"]
  | storage => ["store"]

/-- Tiles that work for some time and then have something to give. -/
def isProducer : TileKind → Bool
  | farmland => true
  | mine => true
  | _ => false

end TileKind

/-- A value in the state of a tile. -/
inductive TileValue where
  | bool (b : Bool)
  | int (n : Int)
  | text (s : String)
deriving DecidableEq, Inhabited

namespace TileValue

/-- The integer that a value is. -/
def toInt? : TileValue → Option Int
  | int n => some n
  | _ => none

/-- The text that a value is. -/
def toText? : TileValue → Option String
  | text s => some s
  | _ => none

/-- A value as a message shows it: a text plainly, any other value with its class. -/
def render : TileValue → String
  | text s => s
  | int n => s!"Int({n})"
  | bool b => if b then "Bool(true)" else "Bool(false)"

end TileValue

/-- The entry of a tile's state that says what the tile is doing. -/
def statusKey : String := "status"

/-- The entry of a tile's state that says how much it has to give. -/
def quantityKey : String := "quantity"

/-- The entry of a tile's state that names the actor that set it working. -/
def workerKey : String := "worker"

/-- The status of a tile that does nothing. -/
def idleStatus : String := "idle"

/-- The status of a tile that has something to give. -/
def readyStatus : String := "ready"

/-- A place with functions. -/
structure Tile where
  id : String
  kind : TileKind
  position : Position
  functions : List String
  state : Table TileValue
  task : Option Task
deriving Inhabited

namespace Tile

/-- A tile of a kind, with the functions and the state of that kind. -/
def new (id : String) (kind : TileKind) (position : Position) : Tile where
  id
  kind
  position
  functions := kind.functions
  state :=
    if kind.isProducer then .ofList [(statusKey, .text idleStatus), (quantityKey, .int 0)]
    else .empty
  task := none

/-- What a tile is doing. A tile that does not say so is idle. -/
def status (t : Tile) : String :=
  ((t.state.get? statusKey).bind TileValue.toText?).getD idleStatus

/-- How much a tile has to give. -/
def quantity (t : Tile) : Int :=
  ((t.state.get? quantityKey).bind TileValue.toInt?).getD 0

/-- Whether a tile has a function of a name. -/
def binds (t : Tile) (function : String) : Bool :=
  t.functions.contains function

end Tile

end Farmhand
