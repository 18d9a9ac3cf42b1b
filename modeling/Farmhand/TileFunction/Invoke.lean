import Farmhand.TileFunction.Production

/-!
# Calling Tile Functions

A function is called for an actor and a tile by their ids. Everything that could stand in the way
is looked at before anything happens, in this order: the tile offers the function, the actor stands
on the tile, the actor has no task, the tile has no task, and the actor has enough energy.

## Main definitions

* `Engine.eat`, `Engine.store`: The functions of food and storage tiles.
* `Engine.runFunction`: A function for an actor and a tile as they were seen.
* `Engine.invoke`: A call with all of its conditions.
-/

namespace Farmhand

/-- The entry of a tile's state that says how much energy a meal restores. -/
def nutritionKey : String := "nutrition"

/-- The energy that a meal restores on a tile that does not say so. -/
def defaultNutrition : Nat := 20

/-- The time that a meal takes, in milliseconds. -/
def mealTime : Nat := 1000

/-- The energy that a meal on a tile restores. -/
def Tile.nutrition (t : Tile) : Nat :=
  (((t.state.get? nutritionKey).bind TileValue.toInt?).bind Integer.amount?).getD defaultNutrition

namespace Engine

/-- Eats. The energy is there as soon as the meal begins. -/
def eat (timed : Bool) (a : Actor) (t : Tile) (e : Engine) : Outcome × Engine :=
  match e.start timed (.actor a.id) "eat" mealTime "Eating" (some a.id) [] with
  | (e, false) => (.error (.couldNotStart a.id "eating"), e)
  | (e, true) =>
    match e.world.updateActor a.id { energy := some (.credit t.nutrition) } with
    | .error error => (.error (.ofWorldError error), e)
    | .ok world =>
      let after :=
        match world.actor a.id with
        | .ok b => b.energy
        | .error _ => a.energy
      let gained := after - a.energy
      (.ok
        { message := some s!"Ate and restored {gained} energy"
          data := some (.int gained)
          duration := some mealTime },
       { e with world })

/-- Moves all that an actor carries into the global counters. -/
def store (a : Actor) (energy : Nat) (e : Engine) : Outcome × Engine :=
  if a.load = 0 then (.ok { message := some "Nothing to store" }, e)
  else
    let change := a.inventory.entries.foldl
      (fun (change : ResourceChange) (item, count) => change.add item count) .empty
    let ops :=
      [.actor a.id { energy := some (.debit energy), inventory := some .empty },
       .resources change]
    match e.transact ops with
    | .error error => (.error (.ofWorldError error), e)
    | .ok e =>
      (.ok
        { message := some s!"Stored {a.load} items"
          data := some (.map (a.inventory.entries.map fun (item, count) => (item, .int count))) },
       e)

/-- Runs a function for an actor and a tile as they were seen. -/
def runFunction (timed : Bool) (f : TileFunction) (a : Actor) (t : Tile) (e : Engine) :
    Outcome × Engine :=
  match f with
  | .plant => e.startProduction timed a t f.energy planting
  | .harvest => e.collectOutput a t f.energy crop
  | .mineInitiate => e.startProduction timed a t f.energy mining
  | .collect => e.collectOutput a t f.energy ore
  | .eat => e.eat timed a t
  | .store => e.store a f.energy

/-- The first thing that stands in the way of a call, if there is one. -/
def obstacle? (e : Engine) (f : TileFunction) (a : Actor) (t : Tile) : Option Failure :=
  if a.position ≠ t.position then
    some (.notOnTile a.id t.id t.position f.name a.position)
  else
    match e.actorTask? a.id with
    | some task => some (.actorBusy a.id task.description (task.wholePercentAt e.now))
    | none =>
      match e.tileTask? t.id with
      | some task => some (.tileBusy t.id task.description (task.wholePercentAt e.now))
      | none =>
        if a.energy < f.energy then some (.energyRequired f.name f.energy a.energy) else none

/-- Calls a function by name, for an actor and a tile by their ids. -/
def invoke (timed : Bool) (actor tile name : String) (e : Engine) : Outcome × Engine :=
  match e.world.actor actor, e.world.tile tile with
  | .error error, _ => (.error (.world error), e)
  | .ok _, .error error => (.error (.world error), e)
  | .ok a, .ok t =>
    match t.function? name with
    | none => (.error (.noSuchFunction t.id name), e)
    | some f =>
      match e.obstacle? f a t with
      | some failure => (.error failure, e)
      | none => e.runFunction timed f a t

end Engine

end Farmhand
