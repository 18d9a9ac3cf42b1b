import Farmhand.Integer
import Farmhand.World.Entity

/-!
# The World and its Updates

The state that all scripts share: actors, tiles and global counters. It changes by updates that
either happen as a whole or leave the world as it was: a change of one actor, of one tile or of the
counters, or a transaction of several of them, which may also demand that a tile has not changed.

## Main definitions

* `World`: The state.
* `ActorPatch`, `TilePatch`, `ResourceChange`: Changes.
* `World.updateActor`, `World.updateTile`, `World.updateResources`: Single updates.
* `WorldOp`, `World.transact`: Transactions.
* `WorldError`: Why an update does not happen.
-/

namespace Farmhand

/-- Why an update of the world does not happen. -/
inductive WorldError where
  | actorNotFound (id : String)
  | tileNotFound (id : String)
  | insufficientEnergy (needed available : Nat)
  | insufficientResource (name : String) (needed available : Nat)
  | outOfBounds (position : Position)
  /-- A tile is not as a transaction demands. -/
  | conflict (id key : String) (expected : Option TileValue)
deriving DecidableEq

/-- The text of an error. -/
def WorldError.message : WorldError → String
  | actorNotFound id => s!"actor not found: {id}"
  | tileNotFound id => s!"tile not found: {id}"
  | insufficientEnergy needed available =>
    s!"not enough energy: need {needed}, have {available}"
  | insufficientResource name needed available =>
    s!"not enough {name}: need {needed}, have {available}"
  | outOfBounds position => s!"position {position.render} is outside the world"
  | conflict id key expected =>
    let before :=
      match expected with
      | some v => v.render
      | none => "unset"
    s!"{id} changed before the update: {key} is no longer {before}"

/-- A change of an actor's energy. -/
inductive EnergyChange where
  /-- A new amount, at most the maximum. -/
  | set (amount : Nat)
  /-- Fails if there is not enough. -/
  | debit (amount : Nat)
  /-- An addition up to the maximum. -/
  | credit (amount : Nat)
deriving DecidableEq

/-- A change of an actor; what is not given stays. -/
structure ActorPatch where
  position : Option Position := none
  energy : Option EnergyChange := none
  inventory : Option (Table Nat) := none
  task : Option (Option Task) := none

/-- A change of a tile: entries written to its state, and its task. -/
structure TilePatch where
  state : List (String × TileValue) := []
  task : Option (Option Task) := none

/-- A change of the global counters, by the name of each. -/
abbrev ResourceChange := Table Int

/-- Adds to one counter. -/
def ResourceChange.add (change : ResourceChange) (name : String) (delta : Int) : ResourceChange :=
  change.insert name ((change.get? name).getD 0 + delta)

/-- The state that all scripts share. -/
structure World where
  bounds : Bounds
  actors : Table Actor
  tiles : Table Tile
  /-- The tiles by position, the one placed last in front. -/
  places : List (Position × String)
  resources : Table Nat
deriving Inhabited

/-- An actor with its energy changed. -/
def Actor.changeEnergy (a : Actor) : EnergyChange → Except WorldError Actor
  | .set amount => .ok { a with energy := min amount a.maxEnergy }
  | .debit amount =>
    if amount ≤ a.energy then .ok { a with energy := a.energy - amount }
    else .error (.insufficientEnergy amount a.energy)
  | .credit amount => .ok { a with energy := min (a.energy + amount) a.maxEnergy }

/-- A tile with a patch applied. -/
def Tile.patched (t : Tile) (patch : TilePatch) : Tile :=
  { t with
    state := t.state.insertAll patch.state
    task := patch.task.getD t.task }

namespace World

/-- A world without anything in it. -/
def empty (bounds : Bounds) : World where
  bounds
  actors := .empty
  tiles := .empty
  places := []
  resources := .empty

/-- Adds an actor, or replaces the one with its id. -/
def insertActor (w : World) (a : Actor) : World :=
  { w with actors := w.actors.insert a.id a }

/-- Adds a tile, or replaces the one with its id, and puts it on its position. -/
def insertTile (w : World) (t : Tile) : World :=
  { w with tiles := w.tiles.insert t.id t, places := (t.position, t.id) :: w.places }

/-- Sets a global counter. -/
def insertResource (w : World) (name : String) (amount : Nat) : World :=
  { w with resources := w.resources.insert name amount }

/-- The actor with an id. -/
def actor (w : World) (id : String) : Except WorldError Actor :=
  match w.actors.get? id with
  | some a => .ok a
  | none => .error (.actorNotFound id)

/-- The tile with an id. -/
def tile (w : World) (id : String) : Except WorldError Tile :=
  match w.tiles.get? id with
  | some t => .ok t
  | none => .error (.tileNotFound id)

/-- The tile on a position. -/
def tileAt? (w : World) (p : Position) : Option Tile :=
  match w.places.find? fun (q, _) => q = p with
  | some (_, id) => w.tiles.get? id
  | none => none

/-- The value of a global counter; one that was never written is zero. -/
def resource (w : World) (name : String) : Nat :=
  (w.resources.get? name).getD 0

/-- An actor of the world with a patch applied. -/
def patchActor (w : World) (a : Actor) (patch : ActorPatch) : Except WorldError Actor :=
  match patch.position with
  | some p =>
    if w.bounds.contains p then
      (energyPatched a).map fun a => rest { a with position := p }
    else .error (.outOfBounds p)
  | none => (energyPatched a).map rest
where
  /-- The part of the patch that can fail. -/
  energyPatched (a : Actor) : Except WorldError Actor :=
    match patch.energy with
    | some change => a.changeEnergy change
    | none => .ok a
  /-- The part of the patch that cannot. -/
  rest (a : Actor) : Actor :=
    { a with
      inventory := patch.inventory.getD a.inventory
      task := patch.task.getD a.task }

/-- Changes an actor. -/
def updateActor (w : World) (id : String) (patch : ActorPatch) : Except WorldError World :=
  match w.actor id with
  | .error e => .error e
  | .ok a =>
    match w.patchActor a patch with
    | .error e => .error e
    | .ok a => .ok { w with actors := w.actors.insert id a }

/-- Changes a tile. -/
def updateTile (w : World) (id : String) (patch : TilePatch) : Except WorldError World :=
  match w.tile id with
  | .error e => .error e
  | .ok t => .ok { w with tiles := w.tiles.insert id (t.patched patch) }

/-- The first counter of a change that has not enough to give. -/
def shortage? (w : World) : List (String × Int) → Option WorldError
  | [] => none
  | (name, delta) :: rest =>
    if (w.resource name : Int) + delta < 0 then
      some (.insufficientResource name delta.natAbs (w.resource name))
    else w.shortage? rest

/-- The world with one counter changed. A counter stays at the largest value it reaches. -/
def addResource (w : World) (name : String) (delta : Int) : World :=
  w.insertResource name (min ((w.resource name : Int) + delta).toNat Integer.maxCounter)

/-- Changes the global counters: all of them, or none if one has not enough to give. -/
def updateResources (w : World) (change : ResourceChange) : Except WorldError World :=
  match w.shortage? change.entries with
  | some e => .error e
  | none => .ok (change.entries.foldl (fun w (name, delta) => w.addResource name delta) w)

end World

/-- A step of a transaction. -/
inductive WorldOp where
  | actor (id : String) (patch : ActorPatch)
  | tile (id : String) (patch : TilePatch)
  | resources (change : ResourceChange)
  /-- Demands that an entry of a tile's state is as expected. -/
  | guard (id key : String) (expected : Option TileValue)

namespace World

/-- The world after one step of a transaction. -/
def apply (w : World) : WorldOp → Except WorldError World
  | .actor id patch => w.updateActor id patch
  | .tile id patch => w.updateTile id patch
  | .resources change => w.updateResources change
  | .guard id key expected =>
    match w.tile id with
    | .error e => .error e
    | .ok t =>
      if t.state.get? key = expected then .ok w else .error (.conflict id key expected)

/-- The world after a transaction. If one of its steps fails, none of them happens. -/
def transact (w : World) : List WorldOp → Except WorldError World
  | [] => .ok w
  | op :: rest =>
    match w.apply op with
    | .error e => .error e
    | .ok w => w.transact rest

end World

end Farmhand
