import Farmhand.Document.Reader
import Farmhand.World.Store

/-!
# World Files

A world can be given as a document: its size, the actors and the tiles in it, and the counters it
starts with. What an entry leaves out has the default of a new actor or of its kind of tile. A file
that is well formed still has to describe a possible world: its size is positive, everything lies
inside it, and no two tiles share a position.

## Main definitions

* `WorldFile`: What a world file says.
* `WorldFile.read?`: A text as a world file.
* `WorldFile.build`: The world that a file describes.
* `World.ofText`: Both together.
-/

namespace Farmhand

open Document

/-- An actor in a world file. -/
structure ActorEntry where
  id : String
  kind : ActorKind
  position : Position
  energy : Option Nat
  maxEnergy : Option Nat
  speed : Option Float
  inventory : Table Nat

/-- A tile in a world file. -/
structure TileEntry where
  id : String
  kind : TileKind
  position : Position
  /-- The functions of the tile, if they are not those of its kind. -/
  functions : Option (List String)
  /-- What its state says beyond, or against, that of a new tile. -/
  state : Table TileValue

/-- What a world file says. -/
structure WorldFile where
  bounds : Bounds
  actors : List ActorEntry
  tiles : List TileEntry
  resources : Table Nat

/-- Why a text is no world. -/
inductive WorldFileError where
  /-- The text is no document, or not one of a world. -/
  | unreadable
  | emptySize (bounds : Bounds)
  | sharedPosition (position : Position)
  | outOfBounds (position : Position)
deriving DecidableEq

namespace WorldFileError

/-- The text of an error of the world's description. -/
def invalid (text : String) : String :=
  s!"invalid world: {text}"

/-- The text of an error. -/
def message : WorldFileError → String
  | unreadable => invalid "not a description of a world"
  | emptySize bounds => invalid s!"world size must be positive, got {bounds.width}x{bounds.height}"
  | sharedPosition position => invalid s!"two tiles share position {position.render}"
  | outOfBounds position => (WorldError.outOfBounds position).message

end WorldFileError

/-- The kind of an actor by its name. -/
def ActorKind.ofName? : String → Option ActorKind
  | "primary" => some primary
  | "drone" => some drone
  | _ => none

/-- A datum as a value in the state of a tile. -/
def TileValue.ofDatum? : Datum → Option TileValue
  | .bool b => some (.bool b)
  | .integer n => some (.int n)
  | .text s => some (.text s)
  | _ => none

/-- A datum as a value that may be left out. -/
def present? {α : Type} (read? : Datum → Option α) (d : Datum) : Option (Option α) :=
  (read? d).map some

/-- A datum as an actor. -/
def ActorEntry.ofDatum? (d : Datum) : Option ActorEntry :=
  match d.record? ["id", "kind", "x", "y", "energy", "max_energy", "speed", "inventory"] with
  | some [id, kind, x, y, energy, maxEnergy, speed, inventory] => do
    let id ← required? Datum.text? id
    let kind ← optional? .primary (fun d => d.variant?.bind ActorKind.ofName?) kind
    let x ← required? Datum.coordinate? x
    let y ← required? Datum.coordinate? y
    let energy ← optional? none (present? Datum.amount?) energy
    let maxEnergy ← optional? none (present? Datum.amount?) maxEnergy
    let speed ← optional? none (present? Datum.float?) speed
    let inventory ← optional? .empty (Datum.tableOf? Datum.amount?) inventory
    some { id, kind, position := ⟨x, y⟩, energy, maxEnergy, speed, inventory }
  | _ => none

/-- A datum as a tile. -/
def TileEntry.ofDatum? (d : Datum) : Option TileEntry :=
  match d.record? ["id", "kind", "x", "y", "functions", "state"] with
  | some [id, kind, x, y, functions, state] => do
    let id ← required? Datum.text? id
    let kind ← required? (fun d => d.variant?.bind TileKind.ofName?) kind
    let x ← required? Datum.coordinate? x
    let y ← required? Datum.coordinate? y
    let functions ← optional? none (present? (Datum.listOf? Datum.text?)) functions
    let state ← optional? .empty (Datum.tableOf? TileValue.ofDatum?) state
    some { id, kind, position := ⟨x, y⟩, functions, state }
  | _ => none

/-- A datum as the size of a world. -/
def Bounds.ofDatum? (d : Datum) : Option Bounds :=
  match d.record? ["width", "height"] with
  | some [width, height] => do
    let width ← required? Datum.coordinate? width
    let height ← required? Datum.coordinate? height
    some { width, height }
  | _ => none

namespace WorldFile

/-- A document as a world file. -/
def ofDatum? (d : Datum) : Option WorldFile :=
  match d.record? ["world", "actors", "tiles", "resources"] with
  | some [world, actors, tiles, resources] => do
    let bounds ← required? Bounds.ofDatum? world
    let actors ← optional? [] (Datum.listOf? ActorEntry.ofDatum?) actors
    let tiles ← optional? [] (Datum.listOf? TileEntry.ofDatum?) tiles
    let resources ← optional? .empty (Datum.tableOf? Datum.counter?) resources
    some { bounds, actors, tiles, resources }
  | _ => none

/-- A text as a world file. -/
def read? (source : String) : Option WorldFile :=
  (Document.read? source).bind ofDatum?

end WorldFile

/-- The actor that an entry describes. It starts with all the energy it can have, unless the entry
    gives it less. -/
def ActorEntry.toActor (entry : ActorEntry) : Actor :=
  let new := Actor.new entry.id entry.position
  let maxEnergy := entry.maxEnergy.getD new.maxEnergy
  { new with
    kind := entry.kind
    energy := min (entry.energy.getD maxEnergy) maxEnergy
    maxEnergy
    speed := entry.speed.getD new.speed
    inventory := entry.inventory }

/-- The tile that an entry describes. -/
def TileEntry.toTile (entry : TileEntry) : Tile :=
  let new := Tile.new entry.id entry.kind entry.position
  { new with
    functions := entry.functions.getD new.functions
    state := new.state.insertAll entry.state.entries }

namespace World

/-- The world with the actor of an entry. -/
def addActor (w : World) (entry : ActorEntry) : Except WorldFileError World :=
  if w.bounds.contains entry.position then .ok (w.insertActor entry.toActor)
  else .error (.outOfBounds entry.position)

/-- The world with the tile of an entry. -/
def addTile (w : World) (entry : TileEntry) : Except WorldFileError World :=
  if w.bounds.contains entry.position then
    match w.tileAt? entry.position with
    | some _ => .error (.sharedPosition entry.position)
    | none => .ok (w.insertTile entry.toTile)
  else .error (.outOfBounds entry.position)

/-- The world with the actors of several entries. -/
def addActors (w : World) : List ActorEntry → Except WorldFileError World
  | [] => .ok w
  | entry :: rest =>
    match w.addActor entry with
    | .error e => .error e
    | .ok w => w.addActors rest

/-- The world with the tiles of several entries. -/
def addTiles (w : World) : List TileEntry → Except WorldFileError World
  | [] => .ok w
  | entry :: rest =>
    match w.addTile entry with
    | .error e => .error e
    | .ok w => w.addTiles rest

end World

/-- The world that a file describes. -/
def WorldFile.build (file : WorldFile) : Except WorldFileError World :=
  if file.bounds.width ≤ 0 || file.bounds.height ≤ 0 then .error (.emptySize file.bounds)
  else
    match (World.empty file.bounds).addActors file.actors with
    | .error e => .error e
    | .ok w =>
      (w.addTiles file.tiles).map fun w =>
        file.resources.entries.foldl (fun w (name, amount) => w.insertResource name amount) w

/-- The world that a text describes. -/
def World.ofText (source : String) : Except WorldFileError World :=
  match WorldFile.read? source with
  | none => .error .unreadable
  | some file => file.build

end Farmhand
